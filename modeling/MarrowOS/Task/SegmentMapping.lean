import MarrowOS.Task.Allocations
import MarrowOS.Task.KernelPages

/-!
# Where the segments of a program are mapped

`process_map_elf` rounds the address of a segment, and the two ends of its image, each on its own.
For headers that follow the format, and whose segments share no page, every byte of a segment is
mapped to its byte of the image all the same (`processMapMemory_segments`).
-/

namespace MarrowOS

open ByteMem CInt Overlay

variable {k k' : Kernel} {live : List Alloc} {process : Process} {files : LoadAnswers}
  {chunk : Paging4gbChunk} {tables : List ℕ} {mem : Mem} {m : Mapping} {phdr : Elf32Phdr}
  {elfFile : ElfFile} {directory slot addr p n v : ℕ}

/-! ## Segments -/

/-- A byte of the segment lies on the page. -/
def Elf32Phdr.HasPage (phdr : Elf32Phdr) (p : ℕ) : Prop :=
  ∃ k < phdr.pMemsz, (phdr.pVaddr + k) / pagingPageSize = p

/-- An address rounded up to a page, without wrap-around. -/
def roundUp (n : ℕ) : ℕ := (n + 4095) / 4096 * 4096

/-- What is asked of a segment of the image at `addr`. -/
structure Elf32Phdr.Fits (phdr : Elf32Phdr) (addr : ℕ) : Prop where
  congruent : phdr.pVaddr % 4096 = phdr.pOffset % 4096
  virtualEnd : roundUp (phdr.pVaddr + phdr.pMemsz) < 2 ^ 32
  physicalEnd : roundUp (addr + phdr.pOffset + phdr.pMemsz) < 2 ^ 32
  empty : phdr.pMemsz = 0 → phdr.pOffset % 4096 = 0

/-- The segments fit, and share no page with each other or with the stack. -/
structure SegmentsApart (phdrs : List Elf32Phdr) (addr : ℕ) : Prop where
  fits : ∀ phdr ∈ phdrs, phdr.Fits addr
  apart : phdrs.Pairwise fun phdr phdr' => ∀ p, ¬ (phdr.HasPage p ∧ phdr'.HasPage p)
  stack : ∀ phdr ∈ phdrs, ∀ p, phdr.HasPage p → ¬ StackPage p

/-- Every byte of the segment is mapped to its byte of the image at `addr`; the user may access it,
and write it if the header says so. -/
def SegmentMapped (mem : Mem) (directory addr : ℕ) (phdr : Elf32Phdr) : Prop :=
  ∀ k < phdr.pMemsz,
    translate mem directory (phdr.pVaddr + k) = addr + phdr.pOffset + k ∧
    pageEntry mem directory (phdr.pVaddr + k) &&& pagingIsPresent ≠ 0 ∧
    pageEntry mem directory (phdr.pVaddr + k) &&& pagingAccessFromAll ≠ 0 ∧
    (pageEntry mem directory (phdr.pVaddr + k) &&& pagingIsWritable ≠ 0 ↔ phdr.pFlags &&& pfW ≠ 0)

/-- The four pages of the stack are mapped to its block, and the user may write them. -/
def StackMapped (mem : Mem) (directory stack : ℕ) : Prop :=
  ∀ v : ℕ, marrowosProgramVirtualStackAddressEnd ≤ v → v < marrowosProgramVirtualStackAddressStart →
    translate mem directory v = stack + (v - marrowosProgramVirtualStackAddressEnd) ∧
    UserWritable (pageEntry mem directory v)

/-! ## The mapping of a segment -/

lemma pagingAlignAddress_eq (h : roundUp n < 2 ^ 32) : pagingAlignAddress n = roundUp n := by
  unfold roundUp at h
  unfold pagingAlignAddress roundUp
  simp only [pagingPageSize]
  split_ifs with hmod
  · unfold u32
    omega
  · omega

/-- The arguments of the call for a segment that fits. -/
lemma phdrMapping_eq (hphdr : phdr.Fits addr) : phdrMapping addr phdr =
    ⟨4096 * (phdr.pVaddr / 4096), 4096 * ((addr + phdr.pOffset) / 4096),
      roundUp (addr + phdr.pOffset + phdr.pMemsz), (phdrMapping addr phdr).flags⟩ := by
  have hend := hphdr.physicalEnd
  have hsum : addr + phdr.pOffset + phdr.pMemsz < 2 ^ 32 := by
    unfold roundUp at hend
    omega
  have hphys : u32 ((addr : ℤ) + phdr.pOffset) = addr + phdr.pOffset := by
    rw [← Nat.cast_add]
    exact u32_natCast_of_lt (by omega)
  have hphysEnd : u32 (((addr + phdr.pOffset : ℕ) : ℤ) + phdr.pMemsz) =
      addr + phdr.pOffset + phdr.pMemsz := by
    rw [← Nat.cast_add]
    exact u32_natCast_of_lt hsum
  unfold phdrMapping pagingAlignToLowerPage
  simp only [pagingPageSize]
  rw [hphys, hphysEnd, pagingAlignAddress_eq hend]
  congr 1
  · omega
  · omega

section
variable (haligned : addr % 4096 = 0) (hphdr : phdr.Fits addr)
include haligned hphdr

lemma phdrMapping_valid : (phdrMapping addr phdr).Valid := by
  rw [phdrMapping_eq hphdr]
  unfold Mapping.Valid MapsTo roundUp
  dsimp only
  omega

/-- Exactly the pages of the segment are mapped. -/
lemma phdrMapping_covers_iff (hp : p < 2 ^ 20) :
    (phdrMapping addr phdr).Covers p ↔ phdr.HasPage p := by
  rcases hphdr with ⟨hcongruent, hvirt, hphys, hempty⟩
  unfold roundUp at hvirt hphys
  have hcount : (roundUp (addr + phdr.pOffset + phdr.pMemsz) -
      4096 * ((addr + phdr.pOffset) / 4096)) / 4096 =
      (phdr.pVaddr % 4096 + phdr.pMemsz + 4095) / 4096 := by
    unfold roundUp
    omega
  rw [phdrMapping_eq ⟨hcongruent, hvirt, hphys, hempty⟩]
  unfold Mapping.Covers Elf32Phdr.HasPage
  dsimp only
  rw [hcount, show 4096 * (phdr.pVaddr / 4096) / 4096 = phdr.pVaddr / 4096 by omega]
  unfold pagesBehind
  constructor
  · intro hcovers
    -- the first byte of the segment on the page
    have hsize : phdr.pVaddr % 4096 ≠ 0 → phdr.pMemsz ≠ 0 := by
      intro hne hzero
      exact hne (hcongruent.trans (hempty hzero))
    refine ⟨4096 * p - phdr.pVaddr, ?_, ?_⟩
    · omega
    · simp only [pagingPageSize]
      omega
  · rintro ⟨k, hk, hpage⟩
    simp only [pagingPageSize] at hpage
    omega

/-- Where the bytes of the segment are mapped to. -/
lemma phdrMapping_target (hk : n < phdr.pMemsz) :
    (phdrMapping addr phdr).target ((phdr.pVaddr + n) / 4096) + (phdr.pVaddr + n) % 4096 =
      addr + phdr.pOffset + n := by
  rcases hphdr with ⟨hcongruent, hvirt, hphys, hempty⟩
  unfold roundUp at hvirt hphys
  rw [phdrMapping_eq ⟨hcongruent, hvirt, hphys, hempty⟩]
  unfold Mapping.target pagesBehind
  dsimp only
  omega

end

/-- Who may access the pages that are mapped. -/
lemma phdrMapping_access (phdr : Elf32Phdr) (addr : ℕ) {target : ℕ} (haligned : target % 4096 = 0) :
    (target ||| (phdrMapping addr phdr).flags) &&& pagingIsPresent ≠ 0 ∧
    (target ||| (phdrMapping addr phdr).flags) &&& pagingAccessFromAll ≠ 0 ∧
    ((target ||| (phdrMapping addr phdr).flags) &&& pagingIsWritable ≠ 0 ↔
      phdr.pFlags &&& pfW ≠ 0) := by
  have hwritable : target &&& pagingIsWritable = 0 := by
    have hmask : pagingIsWritable = (2 ^ 12 - 1) &&& pagingIsWritable := by decide
    rw [hmask, ← Nat.and_assoc, Nat.and_two_pow_sub_one_eq_mod,
      show target % 2 ^ 12 = 0 from haligned, Nat.zero_and]
  unfold phdrMapping
  dsimp only
  split_ifs with hflag
  · exact ⟨or_and_ne_zero (by decide), or_and_ne_zero (by decide),
      iff_of_true (or_and_ne_zero (by decide)) hflag⟩
  · refine ⟨or_and_ne_zero (by decide), or_and_ne_zero (by decide), iff_of_false ?_ hflag⟩
    rw [Nat.and_or_distrib_right, hwritable]
    decide

/-! ## All segments -/

/-- The entry of a page of a segment: no other segment and no page of the stack is in its place. -/
lemma overlay_segment {phdrs : List Elf32Phdr} {entries : ℕ → ℕ} {stack : ℕ}
    (haligned : addr % 4096 = 0) (hphdrs : SegmentsApart phdrs addr)
    (hstack : stack % 4096 = 0) (hlt : stack + 4096 ≤ 2 ^ 31) (hmem : phdr ∈ phdrs)
    (hp : p < 2 ^ 20) (hpage : phdr.HasPage p) :
    overlay entries ((phdrs.map (phdrMapping addr) ++ [stackMapping stack]).map Mapping.patch) p =
      (phdrMapping addr phdr).target p ||| (phdrMapping addr phdr).flags := by
  obtain ⟨pre, post, rfl⟩ := List.append_of_mem hmem
  have hcovers := (phdrMapping_covers_iff haligned (hphdrs.fits phdr hmem) hp).mpr hpage
  have hsplit : ((pre ++ phdr :: post).map (phdrMapping addr) ++ [stackMapping stack]).map
      Mapping.patch = (pre.map (phdrMapping addr)).map Mapping.patch ++
        (phdrMapping addr phdr).patch ::
          (post.map (phdrMapping addr) ++ [stackMapping stack]).map Mapping.patch := by simp
  have hpatch : (phdrMapping addr phdr).patch p =
      some ((phdrMapping addr phdr).target p ||| (phdrMapping addr phdr).flags) := if_pos hcovers
  rw [hsplit]
  apply overlay_of_last hpatch
  intro q hq
  rcases List.mem_map.mp hq with ⟨m, hm, rfl⟩
  apply Mapping.patch_eq_none.mpr
  rcases List.mem_append.mp hm with hpost | hlast
  · rcases List.mem_map.mp hpost with ⟨phdr', hmem', rfl⟩
    rw [phdrMapping_covers_iff haligned (hphdrs.fits phdr' (by simp [hmem'])) hp]
    intro hpage'
    have hcons := (List.pairwise_append.mp hphdrs.apart).2.1
    exact (List.pairwise_cons.mp hcons).1 phdr' hmem' p ⟨hpage, hpage'⟩
  · rw [List.mem_singleton.mp hlast, stackMapping_covers_iff hstack hlt hp]
    exact hphdrs.stack phdr hmem p hpage

/-- The entries of a page decide where it is mapped. -/
lemma segmentMapped_of_entries (haligned : addr % 4096 = 0) (hphdr : phdr.Fits addr)
    (hentry : ∀ p < 2 ^ 20, phdr.HasPage p → pageAt mem directory p =
      (phdrMapping addr phdr).target p ||| (phdrMapping addr phdr).flags) :
    SegmentMapped mem directory addr phdr := by
  intro n hn
  have hvirt := hphdr.virtualEnd
  unfold roundUp at hvirt
  have hp : (phdr.pVaddr + n) / 4096 < 2 ^ 20 := by omega
  have hpage : phdr.HasPage ((phdr.pVaddr + n) / 4096) := ⟨n, hn, rfl⟩
  have hcovers := (phdrMapping_covers_iff haligned hphdr hp).mpr hpage
  rcases Mapping.target_lt (phdrMapping_valid haligned hphdr) hcovers with ⟨htarget, -, hend⟩
  have hrange : (phdrMapping addr phdr).physEnd < 2 ^ 32 := (phdrMapping_flags addr phdr).1
  rw [translate, pageEntry_eq_pageAt, hentry _ hp hpage,
    entryAddress_or htarget (by omega) (phdrMapping_flags addr phdr).2.1]
  exact ⟨phdrMapping_target haligned hphdr hn, phdrMapping_access phdr addr htarget⟩

/-- The stack comes last: nothing is in its place. -/
lemma overlay_stack {mappings : List Mapping} {entries : ℕ → ℕ} {stack : ℕ}
    (hstack : stack % 4096 = 0) (hlt : stack + 4096 ≤ 2 ^ 31) (hp : p < 2 ^ 20)
    (hpage : StackPage p) :
    overlay entries ((mappings ++ [stackMapping stack]).map Mapping.patch) p =
      (stackMapping stack).target p ||| userWritableFlags := by
  have hcovers := (stackMapping_covers_iff hstack hlt hp).mpr hpage
  rw [List.map_append, List.map_cons, List.map_nil]
  exact overlay_of_last (if_pos hcovers) fun q hq => absurd hq List.not_mem_nil

lemma stackMapped_of_entries {stack : ℕ} (hstack : stack % 4096 = 0)
    (hlt : stack + 4096 ≤ 2 ^ 31) (hentry : ∀ p < 2 ^ 20, StackPage p →
      pageAt mem directory p = (stackMapping stack).target p ||| userWritableFlags) :
    StackMapped mem directory stack := by
  intro v hlow hhigh
  have hlow' : 0x3fb000 ≤ v := hlow
  have hhigh' : v < 0x3ff000 := hhigh
  have hpage : StackPage (v / 4096) := by
    show 0x3fb ≤ v / 4096 ∧ v / 4096 < 0x3ff
    omega
  have htarget : (stackMapping stack).target (v / 4096) =
      stack + 4096 * (v / 4096 - 0x3fb) := by
    have hvirt : (stackMapping stack).virt / 4096 = 0x3fb := by
      show marrowosProgramVirtualStackAddressEnd / 4096 = 0x3fb
      decide
    have hphys : (stackMapping stack).phys = stack := rfl
    rw [Mapping.target, hvirt, hphys]
    unfold pagesBehind
    omega
  rw [translate, pageEntry_eq_pageAt, hentry _ (by omega) hpage, htarget,
    entryAddress_or (by omega) (by omega) userWritableFlags_lt]
  constructor
  · show stack + 4096 * (v / 4096 - 0x3fb) + v % 4096 = stack + (v - 0x3fb000)
    omega
  · exact ⟨or_and_ne_zero (by decide), or_and_ne_zero (by decide), or_and_ne_zero (by decide)⟩

lemma ReadyToMap.stack_address (h : ReadyToMap files slot live k k' process chunk tables) :
    process.stack % 4096 = 0 ∧ process.stack + 4096 ≤ 2 ^ 31 :=
  h.owns.stack_address h.stack

section
variable (hready : ReadyToMap files slot live k k' process chunk tables)
  (hfiletype : process.filetype = .elf) (helf : process.elfFile = some elfFile)
include hready hfiletype helf

omit hready in
lemma Process.programMappings_eq : process.programMappings files.elf =
    elfMappings files.elf elfFile.elfMemory := by
  unfold Process.programMappings elfMappings
  rw [hfiletype, helf]

/-- Segments that fit can be mapped. -/
lemma ReadyToMap.processMapMemory_of_fits
    (hfits : ∀ phdr ∈ elfPhdrs files.elf elfFile.elfMemory, phdr.Fits elfFile.elfMemory) :
    ∃ k'', processMapMemory files process k' = .ok (0, k'') := by
  rcases hready.elf_address hfiletype helf with ⟨-, haligned, -⟩
  apply processMapMemory_of_valid hready.space hready.pageDirectory hready.image hready.isSome
  rw [process.programMappings_eq hfiletype helf]
  intro m hm
  rcases List.mem_map.mp hm with ⟨phdr, hmem, rfl⟩
  exact phdrMapping_valid haligned (hfits phdr hmem)

/-- What `process_map_memory` leaves when it succeeds. -/
lemma ReadyToMap.processMapMemory_maps {k'' : Kernel}
    (hmap : processMapMemory files process k' = .ok (0, k'')) :
    ∃ mem, k'' = k'.withMem mem ∧ k''.pageDirectory process = chunk ∧
      Maps chunk tables (elfMappings files.elf elfFile.elfMemory ++ [stackMapping process.stack])
        k'.machine.mem mem := by
  rcases MarrowOS.processMapMemory_maps hready.space hready.pageDirectory hready.image
    hready.stackValid hmap with ⟨mem, hk'', -, -, hfailed | ⟨-, hmaps⟩⟩
  · exact absurd hfailed (by decide)
  · rw [process.programMappings_eq hfiletype helf] at hmaps
    refine ⟨mem, hk'', ?_, hmaps⟩
    rw [hk'']
    exact hready.pageDirectory

omit hfiletype helf in
/-- The pages behind the mappings. -/
lemma ReadyToMap.pageAt_mapped {mem : Mem} (hmaps : Maps chunk tables
      (elfMappings files.elf elfFile.elfMemory ++ [stackMapping process.stack]) k'.machine.mem mem)
    (hp : p < 2 ^ 20) : pageAt mem chunk.directoryEntry p =
      overlay (fun p => 4096 * p ||| (pagingIsPresent ||| pagingAccessFromAll))
        ((elfMappings files.elf elfFile.elfMemory ++ [stackMapping process.stack]).map
          Mapping.patch) p := by
  rw [hmaps.pages p hp]
  exact overlay_congr (hready.identity p hp)

/-- Segments that share no page are mapped side by side. -/
lemma ReadyToMap.segmentsMapped {mem : Mem}
    (hphdrs : SegmentsApart (elfPhdrs files.elf elfFile.elfMemory) elfFile.elfMemory)
    (hmaps : Maps chunk tables (elfMappings files.elf elfFile.elfMemory ++
      [stackMapping process.stack]) k'.machine.mem mem) :
    ∀ phdr ∈ elfPhdrs files.elf elfFile.elfMemory,
      SegmentMapped mem chunk.directoryEntry elfFile.elfMemory phdr := by
  rcases hready.elf_address hfiletype helf with ⟨-, haligned, -⟩
  rcases hready.stack_address with ⟨hstack, hlt⟩
  intro phdr hmem
  apply segmentMapped_of_entries haligned (hphdrs.fits phdr hmem)
  intro p hp hpage
  exact (hmaps.pages p hp).trans (overlay_segment haligned hphdrs hstack hlt hmem hp hpage)

end

/-- **Where the segments are mapped**: an ELF file whose headers follow the format is mapped, every
byte of a segment to its byte of the image, and the stack to its block. -/
theorem processMapMemory_segments (hready : ReadyToMap files slot live k k' process chunk tables)
    (hfiletype : process.filetype = .elf) (helf : process.elfFile = some elfFile)
    (hphdrs : SegmentsApart (elfPhdrs files.elf elfFile.elfMemory) elfFile.elfMemory) :
    ∃ k'', processMapMemory files process k' = .ok (0, k'') ∧
      (∀ phdr ∈ elfPhdrs files.elf elfFile.elfMemory, SegmentMapped k''.machine.mem
        (k''.pageDirectory process).directoryEntry elfFile.elfMemory phdr) ∧
      StackMapped k''.machine.mem (k''.pageDirectory process).directoryEntry process.stack := by
  obtain ⟨k'', hmap⟩ := hready.processMapMemory_of_fits hfiletype helf hphdrs.fits
  obtain ⟨mem, rfl, hdirectory, hmaps⟩ := hready.processMapMemory_maps hfiletype helf hmap
  refine ⟨k'.withMem mem, hmap, ?_⟩
  rw [hdirectory]
  constructor
  · exact hready.segmentsMapped hfiletype helf hphdrs hmaps
  · rcases hready.stack_address with ⟨hstack, hlt⟩
    apply stackMapped_of_entries hstack hlt
    intro p hp hpage
    exact (hmaps.pages p hp).trans (overlay_stack hstack hlt hp hpage)

/-- A segment that may be written, at the lowest address for programs. -/
def dataPhdr (filesz : ℕ) : Elf32Phdr := ⟨ptLoad, 0, 0x400000, filesz, 84, pfW⟩

lemma segmentsApart_dataPhdr (filesz : ℕ) (hlt : addr + 4096 ≤ 2 ^ 31) :
    SegmentsApart [dataPhdr filesz] addr := by
  have hpage : ∀ p, (dataPhdr filesz).HasPage p → p = 0x400 := by
    rintro p ⟨k, hk, rfl⟩
    have hk' : k < 84 := hk
    show (0x400000 + k) / 4096 = 0x400
    omega
  refine ⟨fun phdr hmem => ?_, List.pairwise_singleton _ _, fun phdr hmem p hp => ?_⟩
  · rw [List.mem_singleton.mp hmem]
    refine ⟨?_, ?_, ?_, fun _ => rfl⟩
    · show 0x400000 % 4096 = 0 % 4096
      norm_num
    · show roundUp (0x400000 + 84) < 2 ^ 32
      decide
    · show (addr + 0 + 84 + 4095) / 4096 * 4096 < 2 ^ 32
      omega
  · rw [List.mem_singleton.mp hmem] at hp
    rw [hpage p hp]
    unfold StackPage
    decide

/-- A file with this one segment comes to `process_map_memory`. -/
lemma readyToMap_dataPhdr {filesz : ℕ} (hfilesz : filesz < 2 ^ 32) :
    ∃ process elfFile k' chunk tables,
      ReadyToMap ⟨oneHeaderFile (dataPhdr filesz), oneHeaderFile (dataPhdr filesz)⟩ 0 [] bootKernel
        k' process chunk tables ∧ process.filetype = .elf ∧ process.elfFile = some elfFile ∧
      elfPhdrs (oneHeaderFile (dataPhdr filesz)) elfFile.elfMemory = [dataPhdr filesz] ∧
      SegmentsApart [dataPhdr filesz] elfFile.elfMemory := by
  have hroom : bootKernel.Room (24563 +
      (⟨oneHeaderFile (dataPhdr filesz), oneHeaderFile (dataPhdr filesz)⟩ :
        LoadAnswers).loadBlocks) := by
    rw [loadBlocks_oneHeaderFile]
    exact bootKernel_room
  have hslot : (processGet bootKernel (0 : ℕ)).isNone := rfl
  obtain ⟨process, k', chunk, tables, -, -, hready, -⟩ := processLoadForSlot_reaches
    (oneHeaderFile_readable (dataPhdr filesz)) (oneHeaderFile_readable (dataPhdr filesz))
    bootKernel_owns hslot hroom
  rcases hready.filetype with ⟨hfiletype, hsome, -⟩ | ⟨-, hnot⟩
  · obtain ⟨elfFile, helf⟩ := Option.isSome_iff_exists.mp hsome
    rcases hready.elf_address hfiletype helf with ⟨-, -, hlt⟩
    have hrange : (dataPhdr filesz).InRange := by
      unfold dataPhdr
      exact ⟨by norm_num, by norm_num, by norm_num, hfilesz, by norm_num, by norm_num⟩
    exact ⟨process, elfFile, k', chunk, tables, hready, hfiletype, helf,
      elfPhdrs_oneHeaderFile hrange hlt, segmentsApart_dataPhdr filesz hlt⟩
  · exact absurd (loadsElf_oneHeaderFile (dataPhdr filesz) _ bootKernel) hnot

theorem processMapMemory_segments_dataPhdr : ∃ process elfFile k' k'',
    process.elfFile = some elfFile ∧
    processMapMemory ⟨oneHeaderFile (dataPhdr 84), oneHeaderFile (dataPhdr 84)⟩ process k' =
      .ok (0, k'') ∧
    (∀ phdr ∈ elfPhdrs (oneHeaderFile (dataPhdr 84)) elfFile.elfMemory,
      SegmentMapped k''.machine.mem (k''.pageDirectory process).directoryEntry elfFile.elfMemory
        phdr) ∧
    StackMapped k''.machine.mem (k''.pageDirectory process).directoryEntry process.stack := by
  obtain ⟨process, elfFile, k', chunk, tables, hready, hfiletype, helf, hphdrs, hapart⟩ :=
    readyToMap_dataPhdr (show 84 < 2 ^ 32 by norm_num)
  obtain ⟨k'', hmap, hsegments, hstack⟩ :=
    processMapMemory_segments hready hfiletype helf (by rw [hphdrs]; exact hapart)
  exact ⟨process, elfFile, k', k'', helf, hmap, hsegments, hstack⟩

end MarrowOS
