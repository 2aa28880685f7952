import MarrowOS.Task.SegmentMapping

/-!
# The tails of the segments

A segment that is longer in memory than in the file has to start with zeros behind its bytes of the
file. Nobody writes them: the program sees what the file, or the kernel's memory behind it, holds
there (`processMapMemory_zeroTails_iff`).
-/

namespace MarrowOS

open ByteMem CInt Overlay

variable {k k' k'' : Kernel} {live : List Alloc} {process : Process} {files : LoadAnswers}
  {chunk : Paging4gbChunk} {tables : List ℕ} {mem mem' : Mem} {m : Mapping} {phdr : Elf32Phdr}
  {mappings : List Mapping} {elfFile : ElfFile} {directory slot addr p n v x : ℕ}

/-! ## What the program sees -/

/-- The byte that the program reads at an address. -/
def byteAt (mem : Mem) (directory virt : ℕ) : UInt8 := mem (translate mem directory virt)

/-- The byte at `n` of a segment is behind those of the file. -/
def Elf32Phdr.InTail (phdr : Elf32Phdr) (n : ℕ) : Prop :=
  phdr.pType = ptLoad ∧ phdr.pFilesz ≤ n ∧ n < phdr.pMemsz

/-- The address of a byte of a segment. -/
def Elf32Phdr.address (phdr : Elf32Phdr) (n : ℕ) : ℕ := u32 (phdr.pVaddr + n)

/-- The program reads zeros behind the bytes of the file. -/
def ZeroTails (k : Kernel) (process : Process) (phdrs : List Elf32Phdr) : Prop :=
  ∀ phdr ∈ phdrs, ∀ n, phdr.InTail n →
    byteAt k.machine.mem (k.pageDirectory process).directoryEntry (phdr.address n) = 0

/-! ## What is there -/

/-- The page that a mapping gives for another. -/
def Mapping.frame (m : Mapping) (p : ℕ) : Option ℕ := if m.Covers p then some (m.target p) else none

/-- Where the mappings send an address; the last one that covers its page prevails, and a page that
none of them covers is mapped to itself. -/
def mappedAddress (mappings : List Mapping) (v : ℕ) : ℕ :=
  overlay (fun p => 4096 * p) (mappings.map Mapping.frame) (v / 4096) + v % 4096

/-- The entry that the mappings leave for a page. -/
def mappedEntry (mappings : List Mapping) (p : ℕ) : ℕ :=
  overlay (fun p => 4096 * p ||| (pagingIsPresent ||| pagingAccessFromAll))
    (mappings.map Mapping.patch) p

/-- There is a zero at `x`: in the file that lies at `addr`, in what the mappings leave in the
tables, or anywhere else in memory. -/
structure HoldsZero (file : FileAnswers) (addr : ℕ) (tables : List ℕ) (mappings : List Mapping)
    (mem : Mem) (x : ℕ) : Prop where
  image : ∀ offset < file.filesize, x = addr + offset → file.image offset = 0
  table : ∀ p < 2 ^ 20, ∀ b < 4, x = tableSlot tables p + b → byteOf (mappedEntry mappings p) b = 0
  memory : (x < addr ∨ addr + file.filesize ≤ x) → ¬ InTables tables x → mem x = 0

/-! ## Bytes of memory behind the mappings -/

/-- A byte of a table is a byte of an entry. -/
lemma InTables.exists_slot (hlength : tables.length = 1024) (h : InTables tables x) :
    ∃ p < 2 ^ 20, ∃ b < 4, x = tableSlot tables p + b := by
  rcases h with ⟨t, ht, hlow, hhigh⟩
  obtain ⟨i, hi, rfl⟩ := List.mem_iff_getElem.mp ht
  refine ⟨1024 * i + (x - tables[i]) / 4, by omega, (x - tables[i]) % 4, by omega, ?_⟩
  have htable : (1024 * i + (x - tables[i]) / 4) / 1024 = i := by omega
  have hslot : (1024 * i + (x - tables[i]) / 4) % 1024 = (x - tables[i]) / 4 := by omega
  rw [tableSlot, htable, hslot, List.getD_eq_getElem _ _ hi]
  omega

lemma mappedEntry_address (hvalid : ∀ m ∈ mappings, m.Valid ∧ m.physEnd < 2 ^ 32 ∧ m.flags < 4096)
    (hp : p < 2 ^ 20) : entryAddress (mappedEntry mappings p) =
      overlay (fun p => 4096 * p) (mappings.map Mapping.frame) p := by
  apply overlay_map
  · exact entryAddress_or (by omega) (by omega) (by decide)
  · intro m hm
    rcases hvalid m hm with ⟨hvalid, hend, hflags⟩
    unfold Mapping.patch Mapping.frame
    split_ifs with hcovers
    · rcases Mapping.target_lt hvalid hcovers with ⟨haligned, -, htarget⟩
      exact congrArg some (entryAddress_or haligned (by omega) hflags)
    · rfl

section
variable (hready : ReadyToMap files slot live k k' process chunk tables)
  (hfiletype : process.filetype = .elf) (helf : process.elfFile = some elfFile)
include hready hfiletype helf

omit hfiletype helf in
/-- Where the program's addresses lead. -/
lemma ReadyToMap.translate_mapped {mem : Mem} (hmaps : Maps chunk tables
      (elfMappings files.elf elfFile.elfMemory ++ [stackMapping process.stack]) k'.machine.mem mem)
    (hv : v < 2 ^ 32) : translate mem chunk.directoryEntry v =
      mappedAddress (elfMappings files.elf elfFile.elfMemory ++ [stackMapping process.stack])
        v := by
  have hp : v / 4096 < 2 ^ 20 := by omega
  have hvalid : ∀ m ∈ elfMappings files.elf elfFile.elfMemory ++ [stackMapping process.stack],
      m.Valid ∧ m.physEnd < 2 ^ 32 ∧ m.flags < 4096 := by
    intro m hm
    refine ⟨hmaps.valid m hm, ?_⟩
    rcases List.mem_append.mp hm with hphdr | hstack
    · rcases List.mem_map.mp hphdr with ⟨phdr, -, rfl⟩
      exact ⟨(phdrMapping_flags _ phdr).1, (phdrMapping_flags _ phdr).2.1⟩
    · rw [List.mem_singleton.mp hstack]
      exact ⟨(stackMapping_inRange _).physEnd, (stackMapping_inRange _).flags⟩
  rw [translate, pageEntry_eq_pageAt, hready.pageAt_mapped hmaps hp, mappedAddress,
    ← mappedEntry_address hvalid hp]
  rfl

/-- Nothing is written but the tables. -/
lemma ReadyToMap.holdsZero_iff {mem : Mem} (hmaps : Maps chunk tables
      (elfMappings files.elf elfFile.elfMemory ++ [stackMapping process.stack]) k'.machine.mem
        mem) :
    mem x = 0 ↔ HoldsZero files.elf elfFile.elfMemory tables
      (elfMappings files.elf elfFile.elfMemory ++ [stackMapping process.stack]) k'.machine.mem
        x := by
  rcases hready.image elfFile hfiletype helf with ⟨hloaded, hapart⟩
  -- the bytes of the entries
  have hentry : ∀ p < 2 ^ 20, ∀ b < 4, mem (tableSlot tables p + b) = byteOf (mappedEntry
      (elfMappings files.elf elfFile.elfMemory ++ [stackMapping process.stack]) p) b := by
    intro p hp b hb
    rw [← @byteOf_readU32 mem (tableSlot tables p) b hb, ← hmaps.space.pageAt_eq hp,
      hready.pageAt_mapped hmaps hp]
    rfl
  have himage : ∀ offset < files.elf.filesize, mem (elfFile.elfMemory + offset) =
      files.elf.image offset := by
    intro offset hoffset
    rw [hmaps.loadedAt hloaded hapart _ (by omega) (by omega), Nat.add_sub_cancel_left]
  constructor
  · intro hzero
    refine ⟨fun offset hoffset hx => ?_, fun p hp b hb hx => ?_, fun _ hout => ?_⟩
    · rw [← himage offset hoffset, ← hx]
      exact hzero
    · rw [← hentry p hp b hb, ← hx]
      exact hzero
    · rw [← hmaps.outside x hout]
      exact hzero
  · intro hholds
    by_cases hin : elfFile.elfMemory ≤ x ∧ x < elfFile.elfMemory + files.elf.filesize
    · have hx : x = elfFile.elfMemory + (x - elfFile.elfMemory) := by omega
      rw [hx, himage _ (by omega)]
      exact hholds.image _ (by omega) hx
    · by_cases htable : InTables tables x
      · obtain ⟨p, hp, b, hb, rfl⟩ := htable.exists_slot hmaps.space.length
        rw [hentry p hp b hb]
        exact hholds.table p hp b hb rfl
      · rw [hmaps.outside x htable]
        exact hholds.memory (by omega) htable

/-- A tail in the file shows the bytes of the file. -/
lemma ReadyToMap.byteAt_tail {mem : Mem}
    (hphdrs : SegmentsApart (elfPhdrs files.elf elfFile.elfMemory) elfFile.elfMemory)
    (hmaps : Maps chunk tables (elfMappings files.elf elfFile.elfMemory ++
      [stackMapping process.stack]) k'.machine.mem mem)
    (hmem : phdr ∈ elfPhdrs files.elf elfFile.elfMemory) (hn : n < phdr.pMemsz)
    (hin : phdr.pOffset + n < files.elf.filesize) :
    byteAt mem chunk.directoryEntry (phdr.address n) = files.elf.image (phdr.pOffset + n) := by
  rcases hready.image elfFile hfiletype helf with ⟨hloaded, hapart⟩
  have hvirt := (hphdrs.fits phdr hmem).virtualEnd
  unfold roundUp at hvirt
  have haddress : phdr.address n = phdr.pVaddr + n := by
    unfold Elf32Phdr.address
    rw [← Nat.cast_add]
    exact u32_natCast_of_lt (by omega)
  rw [byteAt, haddress,
    (hready.segmentsMapped hfiletype helf hphdrs hmaps phdr hmem n hn).1,
    hmaps.loadedAt hloaded hapart _ (by omega) (by omega)]
  congr 1
  omega

end

/-- **Zero-initialised data** exactly when the mappings send the tails of the segments to zeros: in
the file, or in the memory behind it. -/
theorem processMapMemory_zeroTails_iff
    (hready : ReadyToMap files slot live k k' process chunk tables)
    (hfiletype : process.filetype = .elf) (helf : process.elfFile = some elfFile)
    (hmap : processMapMemory files process k' = .ok (0, k'')) :
    ZeroTails k'' process (elfPhdrs files.elf elfFile.elfMemory) ↔
      ∀ phdr ∈ elfPhdrs files.elf elfFile.elfMemory, ∀ n, phdr.InTail n →
        HoldsZero files.elf elfFile.elfMemory tables
          (elfMappings files.elf elfFile.elfMemory ++ [stackMapping process.stack]) k'.machine.mem
          (mappedAddress (elfMappings files.elf elfFile.elfMemory ++ [stackMapping process.stack])
            (phdr.address n)) := by
  obtain ⟨mem, rfl, hdirectory, hmaps⟩ := hready.processMapMemory_maps hfiletype helf hmap
  unfold ZeroTails
  rw [hdirectory]
  apply forall₂_congr
  intro phdr _
  apply forall₂_congr
  intro n _
  have haddress : phdr.address n < 2 ^ 32 := u32_lt _
  rw [← hready.holdsZero_iff hfiletype helf hmaps,
    ← hready.translate_mapped hmaps haddress]
  rfl

/-- The last word of the file is a zero. -/
theorem processMapMemory_zeroTails_dataPhdr : ∃ process k' k'',
    processMapMemory ⟨oneHeaderFile (dataPhdr 80), oneHeaderFile (dataPhdr 80)⟩ process k' =
      .ok (0, k'') ∧ ZeroTails k'' process [dataPhdr 80] := by
  obtain ⟨process, elfFile, k', chunk, tables, hready, hfiletype, helf, hphdrs, hapart⟩ :=
    readyToMap_dataPhdr (show 80 < 2 ^ 32 by norm_num)
  obtain ⟨k'', hmap⟩ := hready.processMapMemory_of_fits hfiletype helf
    (by rw [hphdrs]; exact hapart.fits)
  refine ⟨process, k', k'', hmap, ?_⟩
  obtain ⟨mem, rfl, -, hmaps⟩ := hready.processMapMemory_maps hfiletype helf hmap
  rw [← hphdrs]
  apply (processMapMemory_zeroTails_iff hready hfiletype helf hmap).mpr
  intro phdr hmem n hn
  have hphdr : phdr = dataPhdr 80 := by
    rw [hphdrs] at hmem
    exact List.mem_singleton.mp hmem
  subst hphdr
  have hlow : 80 ≤ n := hn.2.1
  have hhigh : n < 84 := hn.2.2
  have htail := hready.byteAt_tail hfiletype helf (by rw [hphdrs]; exact hapart) hmaps hmem hhigh
    (show 0 + n < 84 by omega)
  have haddress : (dataPhdr 80).address n < 2 ^ 32 := u32_lt _
  rw [← hready.holdsZero_iff hfiletype helf hmaps,
    ← hready.translate_mapped hmaps haddress]
  have hlast : ∀ i < 84, 80 ≤ i → (oneHeaderFile (dataPhdr 80)).image i = 0 := by decide +kernel
  apply htail.trans
  show (oneHeaderFile (dataPhdr 80)).image (0 + n) = 0
  rw [Nat.zero_add]
  exact hlast n hhigh hlow

/-- Behind the file header of this file is its program header. -/
theorem processMapMemory_zeroTails_fileHeader :
    ¬ ∀ (files : LoadAnswers) (slot : ℕ) (live : List Alloc) (k k' k'' : Kernel) (process : Process)
      (chunk : Paging4gbChunk) (tables : List ℕ) (elfFile : ElfFile),
      ReadyToMap files slot live k k' process chunk tables → process.filetype = .elf →
      process.elfFile = some elfFile → processMapMemory files process k' = .ok (0, k'') →
      ZeroTails k'' process (elfPhdrs files.elf elfFile.elfMemory) := by
  intro h
  obtain ⟨process, elfFile, k', chunk, tables, hready, hfiletype, helf, hphdrs, hapart⟩ :=
    readyToMap_dataPhdr (show 52 < 2 ^ 32 by norm_num)
  obtain ⟨k'', hmap⟩ := hready.processMapMemory_of_fits hfiletype helf
    (by rw [hphdrs]; exact hapart.fits)
  have hzero := h _ 0 [] _ k' k'' process chunk tables elfFile hready hfiletype helf hmap
    (dataPhdr 52) (by rw [hphdrs]; exact List.mem_singleton_self _) 52 ⟨rfl, le_rfl, by decide⟩
  obtain ⟨mem, rfl, hdirectory, hmaps⟩ := hready.processMapMemory_maps hfiletype helf hmap
  rw [hdirectory] at hzero
  have htail := hready.byteAt_tail hfiletype helf (by rw [hphdrs]; exact hapart) hmaps
    (show dataPhdr 52 ∈ _ by rw [hphdrs]; exact List.mem_singleton_self _)
    (show 52 < 84 by norm_num) (show 0 + 52 < 84 by norm_num)
  exact absurd (hzero.symm.trans htail) (by decide)

end MarrowOS
