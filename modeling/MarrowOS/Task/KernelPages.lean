import MarrowOS.Task.LoadingProgress

/-!
# What a load leaves of the kernel's pages

The first four megabytes of a new address space are the kernel's, but for the four pages of the
stack. A program header may name any address, and the loader only checks the entry point:
`processLoadForSlot_sparesKernel_iff` says which files leave the kernel where it is.
-/

namespace MarrowOS

open ByteMem CInt Overlay

variable {k k' : Kernel} {live : List Alloc} {process : Process} {files : LoadAnswers}
  {chunk : Paging4gbChunk} {tables : List ℕ} {mem : Mem} {m : Mapping}
  {directory slot addr p ptr size stack : ℕ}

/-! ## Pages that stay where they are -/

/-- A page below the programs that is none of the stack's. -/
def KernelPage (p : ℕ) : Prop :=
  p < marrowosProgramVirtualAddress / pagingPageSize ∧
    ¬ (marrowosProgramVirtualStackAddressEnd / pagingPageSize ≤ p ∧
      p < marrowosProgramVirtualStackAddressStart / pagingPageSize)

/-- The page is present, and its addresses translate to themselves. -/
def TranslatesToItself (mem : Mem) (directory p : ℕ) : Prop :=
  ∀ v, v / 4096 = p → pageEntry mem directory v &&& pagingIsPresent ≠ 0 ∧
    translate mem directory v = v

/-- An entry with which page `p` translates to itself. -/
def EntryToItself (p entry : ℕ) : Prop :=
  entry &&& pagingIsPresent ≠ 0 ∧ entryAddress entry = 4096 * p

lemma translatesToItself_iff :
    TranslatesToItself mem directory p ↔ EntryToItself p (pageAt mem directory p) := by
  constructor
  · intro h
    rcases h (4096 * p) (by omega) with ⟨hpresent, htranslate⟩
    unfold translate at htranslate
    exact ⟨hpresent, by rw [pageAt]; omega⟩
  · rintro ⟨hpresent, haddress⟩ v hv
    rw [translate, pageEntry_eq_pageAt, hv]
    exact ⟨hpresent, by omega⟩

/-- The kernel's pages are where they were. -/
def SparesKernel (k : Kernel) (process : Process) : Prop :=
  ∀ p, KernelPage p →
    TranslatesToItself k.machine.mem (k.pageDirectory process).directoryEntry p

/-! ## The mappings of a process -/

/-- One of the four pages of the stack. -/
def StackPage (p : ℕ) : Prop :=
  marrowosProgramVirtualStackAddressEnd / pagingPageSize ≤ p ∧
    p < marrowosProgramVirtualStackAddressStart / pagingPageSize

/-- The stack covers its four pages. -/
lemma stackMapping_covers_iff (haligned : stack % 4096 = 0) (hlt : stack + 4096 ≤ 2 ^ 31)
    (hp : p < 2 ^ 20) : (stackMapping stack).Covers p ↔ StackPage p := by
  have hblocks : blocksFor marrowosUserProgramStackSize = 4 := by decide
  have hend := @pagingAlignAddress_end stack marrowosUserProgramStackSize haligned
    (by rw [hblocks]; omega)
  rw [hblocks] at hend
  have hvirt : marrowosProgramVirtualStackAddressEnd / 4096 = 0x3fb := by decide
  have hstart : marrowosProgramVirtualStackAddressStart / 4096 = 0x3ff := by decide
  unfold stackMapping Mapping.Covers StackPage
  dsimp only
  rw [hend, hvirt, hstart]
  show pagesBehind 0x3fb p < (stack + 4096 * 4 - stack) / 4096 ↔ 0x3fb ≤ p ∧ p < 0x3ff
  unfold pagesBehind
  omega

/-- A flat binary from the heap does not reach around the end of the address space. -/
lemma binaryMapping_not_covers (hheap : marrowosHeapAddress ≤ ptr) (hp : KernelPage p) :
    ¬ (binaryMapping ptr size).Covers p := by
  have hend : pagingAlignAddress (u32 (ptr + size)) < 2 ^ 32 := pagingAlignAddress_lt (u32_lt _)
  have hvirt : marrowosProgramVirtualAddress / 4096 = 0x400 := by decide
  have hlow : p < 0x400 := hp.1
  have hheap' : 0x01000000 ≤ ptr := hheap
  unfold binaryMapping Mapping.Covers
  dsimp only
  rw [hvirt]
  unfold pagesBehind
  omega

/-- The entry that a mapping writes. -/
lemma Mapping.entryToItself_iff (hvalid : m.Valid) (hrange : m.physEnd < 2 ^ 32)
    (hflags : m.flags < 4096) (hpresent : m.flags &&& pagingIsPresent ≠ 0) (hcovers : m.Covers p) :
    EntryToItself p (m.target p ||| m.flags) ↔ m.target p = 4096 * p := by
  rcases Mapping.target_lt hvalid hcovers with ⟨haligned, -, hend⟩
  unfold EntryToItself
  rw [entryAddress_or haligned (by omega) hflags]
  apply and_iff_right
  rw [Nat.and_or_distrib_right]
  intro hzero
  exact hpresent (Nat.or_eq_zero_iff.mp hzero).2

/-- The last of the mappings that cover the page, if there is one, maps it to itself. -/
def SparedBy (mappings : List Mapping) (p : ℕ) : Prop :=
  ∀ pre m post, mappings = pre ++ m :: post → m.Covers p → (∀ q ∈ post, ¬ q.Covers p) →
    m.target p = 4096 * p

/-- Mappings of present pages, laid over pages that translate to themselves. -/
lemma sparedBy_iff {mappings : List Mapping} {entries : ℕ → ℕ}
    (hvalid : ∀ m ∈ mappings, m.Valid ∧ m.physEnd < 2 ^ 32 ∧ m.flags < 4096 ∧
      m.flags &&& pagingIsPresent ≠ 0) (hentry : EntryToItself p (entries p)) :
    EntryToItself p (overlay entries (mappings.map Mapping.patch) p) ↔ SparedBy mappings p := by
  rw [overlay_mapping_iff hentry]
  unfold SparedBy
  apply forall₄_congr
  intro pre m post heq
  apply forall₂_congr
  intro hcovers _
  have hm : m ∈ mappings := by
    rw [heq]
    exact List.mem_append_right _ List.mem_cons_self
  rcases hvalid m hm with ⟨hvalid, hrange, hflags, hpresent⟩
  exact Mapping.entryToItself_iff hvalid hrange hflags hpresent hcovers

/-- What the program headers ask for is present. -/
lemma phdrMapping_flags (addr : ℕ) (phdr : Elf32Phdr) :
    (phdrMapping addr phdr).physEnd < 2 ^ 32 ∧ (phdrMapping addr phdr).flags < 4096 ∧
      (phdrMapping addr phdr).flags &&& pagingIsPresent ≠ 0 := by
  refine ⟨pagingAlignAddress_lt (u32_lt _), ?_⟩
  unfold phdrMapping
  dsimp only
  split
  · decide
  · decide

/-! ## What a load leaves -/

/-- The mappings of the program headers of the file at `addr`. -/
def elfMappings (file : FileAnswers) (addr : ℕ) : List Mapping :=
  (elfPhdrs file addr).map (phdrMapping addr)

/-- Page `p` of a space in which every page is mapped to itself. -/
lemma entryToItself_identity (hp : p < 2 ^ 20) :
    EntryToItself p (4096 * p ||| (pagingIsPresent ||| pagingAccessFromAll)) := by
  constructor
  · rw [Nat.and_or_distrib_right]
    intro hzero
    exact absurd (Nat.or_eq_zero_iff.mp hzero).2 (by decide)
  · exact entryAddress_or (by omega) (by omega) (by decide)

lemma KernelPage.lt (hp : KernelPage p) : p < 2 ^ 20 := by
  have hlow : p < 0x400 := hp.1
  omega

lemma ProcessLoaded.stack_address
    (h : ProcessLoaded files slot live k k' process chunk tables) :
    process.stack % 4096 = 0 ∧ process.stack + 4096 ≤ 2 ^ 31 :=
  h.owns.stack_address h.stack

/-- The stack does not touch the kernel's pages. -/
lemma ProcessLoaded.pageAt_kernel (h : ProcessLoaded files slot live k k' process chunk tables)
    (hp : KernelPage p) : pageAt k'.machine.mem chunk.directoryEntry p =
      overlay (fun p => 4096 * p ||| (pagingIsPresent ||| pagingAccessFromAll))
        ((process.programMappings files.elf).map Mapping.patch) p := by
  rcases h.stack_address with ⟨haligned, hlt⟩
  have hnot : ¬ (stackMapping process.stack).Covers p := fun hcovers => hp.2
    ((stackMapping_covers_iff haligned hlt hp.lt).mp hcovers)
  rw [h.pages p hp.lt, List.map_append, overlay_append, List.map_cons, List.map_nil, overlay_cons,
    overlay_nil]
  exact patched_of_none (Mapping.patch_eq_none.mpr hnot)

/-- The buffer of the program is a page of the kernel's heap. -/
lemma ProcessLoaded.program_address {a : Alloc}
    (h : ProcessLoaded files slot live k k' process chunk tables)
    (hheap : k.machine.heap.heap.saddr = marrowosHeapAddress)
    (ha : a ∈ process.programBlocks files.elf.filesize) :
    marrowosHeapAddress ≤ a.ptr ∧ a.ptr % 4096 = 0 ∧ a.ptr + 4096 ≤ 2 ^ 31 := by
  have hmem : a ∈ k'.fileBlocks ++ (process.blocks files.elf.filesize chunk tables ++ live) :=
    List.mem_append_right _ (List.mem_append_left _ (Process.programBlocks_subset ha))
  have hpool : k'.machine.heap.heap.saddr = marrowosHeapAddress := h.keeps.pool.1.trans hheap
  refine ⟨?_, HeapOwns.ptr_aligned h.owns hmem, HeapOwns.ptr_lt h.owns hmem⟩
  rw [HeapOwns.ptr_eq h.owns a hmem, hpool]
  exact Nat.le_add_right _ _

lemma ProcessLoaded.elf_address {f : ElfFile}
    (h : ProcessLoaded files slot live k k' process chunk tables)
    (hheap : k.machine.heap.heap.saddr = marrowosHeapAddress) (hfiletype : process.filetype = .elf)
    (hf : process.elfFile = some f) :
    marrowosHeapAddress ≤ f.elfMemory ∧ f.elfMemory % 4096 = 0 ∧ f.elfMemory + 4096 ≤ 2 ^ 31 := by
  apply @ProcessLoaded.program_address k k' live process files chunk tables slot
    ⟨f.elfMemory, files.elf.filesize⟩ h hheap
  unfold Process.programBlocks
  rw [hfiletype, hf]
  exact List.mem_cons_self

/-- A page of the kernel stays where it is if the program leaves it. -/
lemma ProcessLoaded.translatesToItself_iff
    (h : ProcessLoaded files slot live k k' process chunk tables)
    (hheap : k.machine.heap.heap.saddr = marrowosHeapAddress) (hp : KernelPage p) :
    TranslatesToItself k'.machine.mem (k'.pageDirectory process).directoryEntry p ↔
      (LoadsElf files k → SparedBy (elfMappings files.elf (loadAddress files k)) p) := by
  have hdirectory : k'.pageDirectory process = chunk := h.pageDirectory
  rw [hdirectory, MarrowOS.translatesToItself_iff, h.pageAt_kernel hp]
  rcases h.filetype with ⟨hfiletype, hsome, hloads⟩ | ⟨hfiletype, hloads⟩
  · -- an ELF file: the last program header that covers the page decides
    obtain ⟨f, hf⟩ := Option.isSome_iff_exists.mp hsome
    have hprogram : process.programMappings files.elf =
        elfMappings files.elf (loadAddress files k) := by
      unfold Process.programMappings elfMappings
      rw [hfiletype, hf, ← h.elf f hfiletype hf]
    rw [hprogram, forall_prop_of_true hloads]
    refine sparedBy_iff (fun m hm => ?_) (entryToItself_identity hp.lt)
    refine ⟨h.valid m (List.mem_append_left _ (hprogram ▸ hm)), ?_⟩
    rcases List.mem_map.mp hm with ⟨phdr, -, rfl⟩
    exact phdrMapping_flags _ phdr
  · -- a flat binary lies behind the kernel, however large it is
    have hprogram : process.programMappings files.elf =
        [binaryMapping process.ptr process.size] := by
      unfold Process.programMappings
      rw [hfiletype]
    have hmem : (⟨process.ptr, process.size⟩ : Alloc) ∈
        process.programBlocks files.elf.filesize := by
      unfold Process.programBlocks
      rw [hfiletype]
      exact List.mem_singleton_self _
    have hnot := @binaryMapping_not_covers p process.ptr process.size
      (h.program_address hheap hmem).1 hp
    apply iff_of_true
    · rw [hprogram, List.map_cons, List.map_nil, overlay_cons, overlay_nil,
        patched_of_none (Mapping.patch_eq_none.mpr hnot)]
      exact entryToItself_identity hp.lt
    · exact fun helf => absurd helf hloads

/-- **Which files leave the kernel's pages alone**: all flat binaries, and the ELF files whose
program headers do. -/
theorem processLoadForSlot_sparesKernel_iff (h : k.Owns live)
    (hheap : k.machine.heap.heap.saddr = marrowosHeapAddress)
    (hload : processLoadForSlot files slot k = .ok (0, some process, k')) :
    SparesKernel k' process ↔ (LoadsElf files k →
      ∀ p, KernelPage p → SparedBy (elfMappings files.elf (loadAddress files k)) p) := by
  rcases processLoadForSlot_owns h hload with
    ⟨-, -, hnone, -⟩ | ⟨-, hfailed | ⟨-, process', chunk, tables, hsome, hloaded⟩⟩
  · exact absurd hnone (by simp)
  · exact absurd hfailed.loaded (by simp)
  · rw [← Option.some.inj hsome] at hloaded
    constructor
    · intro hspares hloads p hp
      exact (hloaded.translatesToItself_iff hheap hp).mp (hspares p hp) hloads
    · intro hphdrs p hp
      exact (hloaded.translatesToItself_iff hheap hp).mpr fun hloads => hphdrs hloads p hp

lemma bootKernel_saddr : bootKernel.machine.heap.heap.saddr = marrowosHeapAddress := rfl

/-- A file of one byte is a flat binary. -/
theorem processLoadForSlot_sparesKernel_oneByteFile : ∃ process k',
    processLoadForSlot ⟨oneByteFile, oneByteFile⟩ 0 bootKernel = .ok (0, some process, k') ∧
    SparesKernel k' process := by
  have hroom : bootKernel.RoomLeft (24563 + 1037) := ⟨25600, le_refl _, bootKernel_room⟩
  have hslot : (processGet bootKernel (0 : ℕ)).isNone := rfl
  obtain ⟨process, k', chunk, tables, hload, -⟩ :=
    processLoadForSlot_oneByteFile bootKernel_owns hslot hroom
  refine ⟨process, k', hload, ?_⟩
  apply (processLoadForSlot_sparesKernel_iff bootKernel_owns bootKernel_saddr hload).mpr
  intro hloads
  exact absurd hloads (not_loadsElf_oneByteFile bootKernel)

/-- A program header that is to be loaded over the kernel, which is linked at one megabyte. -/
def lowPhdr : Elf32Phdr := ⟨ptLoad, 0, 0x100000, 84, 84, 0⟩

lemma lowPhdr_inRange : lowPhdr.InRange :=
  ⟨by decide, by decide, by decide, by decide, by decide, by decide⟩

lemma phdrMapping_lowPhdr (haligned : addr % 4096 = 0) (hlt : addr + 4096 ≤ 2 ^ 31) :
    phdrMapping addr lowPhdr =
      ⟨0x100000, addr, addr + 4096, pagingIsPresent ||| pagingAccessFromAll⟩ := by
  have hphys : u32 ((addr : ℤ) + (0 : ℕ)) = addr := by
    unfold u32
    omega
  have hend := @pagingAlignAddress_end addr 84 haligned (by simp only [blocksFor]; omega)
  have hblocks : blocksFor 84 = 1 := by decide
  rw [hblocks] at hend
  have hlower : pagingAlignToLowerPage addr = addr := by
    unfold pagingAlignToLowerPage
    simp only [pagingPageSize]
    omega
  unfold phdrMapping lowPhdr
  dsimp only
  rw [hphys, hend, hlower]
  rfl

/-- The page of the kernel's first instruction shows the file. -/
theorem processLoadForSlot_lowPhdr : ∃ process k',
    processLoadForSlot ⟨oneHeaderFile lowPhdr, oneHeaderFile lowPhdr⟩ 0 bootKernel =
      .ok (0, some process, k') ∧ KernelPage 0x100 ∧
    ¬ TranslatesToItself k'.machine.mem (k'.pageDirectory process).directoryEntry 0x100 := by
  have hvalid : ∀ addr, 0 < addr → addr % 4096 = 0 → addr + 4096 ≤ 2 ^ 31 →
      (phdrMapping addr lowPhdr).Valid := by
    intro addr _ haligned hlt
    rw [phdrMapping_lowPhdr haligned hlt]
    have hend : (addr + 4096) % 4096 = 0 := by omega
    exact ⟨by norm_num, haligned, hend, Nat.le_add_right _ _⟩
  obtain ⟨process, k', chunk, tables, hload, hloaded⟩ :=
    processLoadForSlot_oneHeaderFile lowPhdr_inRange hvalid
  have hpage : KernelPage 0x100 := by
    unfold KernelPage
    decide
  refine ⟨process, k', hload, hpage, ?_⟩
  rw [hloaded.translatesToItself_iff bootKernel_saddr hpage]
  intro hspared
  rcases hloaded.filetype with ⟨hfiletype, hsome, hloads⟩ | ⟨-, hnot⟩
  · obtain ⟨f, hf⟩ := Option.isSome_iff_exists.mp hsome
    rcases hloaded.elf_address bootKernel_saddr hfiletype hf with ⟨hheap, haligned, hlt⟩
    have hmappings : elfMappings (oneHeaderFile lowPhdr) f.elfMemory =
        [⟨0x100000, f.elfMemory, f.elfMemory + 4096, pagingIsPresent ||| pagingAccessFromAll⟩] := by
      rw [elfMappings, elfPhdrs_oneHeaderFile lowPhdr_inRange hlt, List.map_singleton,
        phdrMapping_lowPhdr haligned hlt]
    have htarget := hspared hloads
    rw [← hloaded.elf f hfiletype hf, hmappings] at htarget
    have hcovers : (⟨0x100000, f.elfMemory, f.elfMemory + 4096,
        pagingIsPresent ||| pagingAccessFromAll⟩ : Mapping).Covers 0x100 := by
      show pagesBehind (0x100000 / 4096) 0x100 < (f.elfMemory + 4096 - f.elfMemory) / 4096
      rw [Nat.add_sub_cancel_left]
      decide
    have hat : f.elfMemory + 4096 * pagesBehind (0x100000 / 4096) 0x100 = 4096 * 0x100 :=
      htarget [] _ [] rfl hcovers fun q hq => absurd hq List.not_mem_nil
    have hbehind : pagesBehind (0x100000 / 4096) 0x100 = 0 := by decide
    rw [hbehind, mul_zero, add_zero] at hat
    rw [hat] at hheap
    exact absurd hheap (by decide)
  · exact absurd (loadsElf_oneHeaderFile lowPhdr _ bootKernel) hnot

end MarrowOS
