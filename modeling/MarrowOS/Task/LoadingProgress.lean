import MarrowOS.Loader.OneHeaderFiles
import MarrowOS.Memory.FreshAddressSpace
import MarrowOS.Task.ProcessTable

/-!
# Files that are loaded

`processLoadForSlot_owns` says what a load leaves behind if it does not fault. Here the heap has
room: a file that is opened and read without trouble is then mapped (`processLoadForSlot_reaches`),
and loaded if its mappings are valid (`processLoadForSlot_progress`).
-/

namespace MarrowOS

open ByteMem CInt Fallible

variable {k k' : Kernel} {live : List Alloc} {process : Process} {file : FileAnswers}
  {files : LoadAnswers} {n : ℕ}

/-! ## Room in the heap -/

/-- The block table says how long the tail is. -/
lemma FreeTail.sameTable {heap heap' : Heap} (h : FreeTail n heap) (hsame : SameTable heap heap') :
    FreeTail n heap' := by
  rcases h with ⟨hpool, hle, hfree⟩
  rcases hsame with ⟨hsame, hentries⟩
  have htotal := hsame.2
  refine ⟨hsame.poolOk hpool, by omega, fun i hi => ?_⟩
  rw [BlockFree, hentries i (by omega), htotal]
  exact hfree i (by omega)

/-- The kernel's heap ends with `n` free blocks, and has no others. -/
def Kernel.Room (n : ℕ) (k : Kernel) : Prop := FreeTail n k.machine.heap.heap

/-- What is given back is free again. -/
lemma Kernel.Room.restored (h : k.Room n) (hown : k.Owns live) (hown' : k'.Owns live)
    (hfile : k'.fileBlocks = k.fileBlocks)
    (hpool : SamePool k.machine.heap.heap k'.machine.heap.heap) : k'.Room n := by
  apply FreeTail.sameTable h
  unfold Kernel.Owns at hown'
  rw [hfile] at hown'
  exact HeapOwns.sameTable hown hown' hpool

/-- A request that the room is large enough for. -/
lemma Kernel.Room.kzalloc {size : ℕ} (h : k.Room (n + blocksFor size)) (hpos : 1 ≤ size)
    (hmax : size ≤ 2 ^ 32 - 4096) :
    ∃ ptr m', kzalloc kernelAllocator size k.machine = .ok (ptr, m') ∧ ptr ≠ 0 ∧
      ptr < 2 ^ 31 ∧ (k.withMachine m').Room n :=
  FreeTail.kzalloc h hpos hmax

/-! ## Reading the file -/

/-- A file that is opened and read without trouble, with the file layer keeping no blocks. -/
structure Readable (file : FileAnswers) : Prop where
  fopenOps : file.fopenOps = []
  fcloseFrees : file.fcloseFrees = []
  fd : 0 < file.fd
  fstat : ∃ filesize, file.fstat = .ok filesize
  fread : file.fread = 1
  pos : 1 ≤ file.filesize
  fits : file.filesize ≤ 2 ^ 30

lemma Readable.fopen (h : Readable file) (k : Kernel) : fileHeapOps file.fopenOps k = k := by
  rw [h.fopenOps]
  rfl

lemma Readable.fclose (h : Readable file) (k : Kernel) : fileHeapOps file.fcloseOps k = k := by
  rw [FileAnswers.fcloseOps, h.fcloseFrees]
  rfl

lemma Readable.freadInto (h : Readable file) (ptr : ℕ) (mem : Mem) :
    file.freadInto ptr mem = (1, (file.freadInto ptr mem).2) := by
  have hpos := h.pos
  unfold FileAnswers.freadInto
  rw [if_neg (by omega), h.fread]

/-- The size that `fstat` tells. -/
lemma Readable.filesize_eq (h : Readable file) :
    ∃ filesize, file.fstat = .ok filesize ∧ filesize.toNat = file.filesize := by
  rcases h.fstat with ⟨filesize, hstat⟩
  exact ⟨filesize, hstat, by rw [FileAnswers.filesize, hstat]⟩

lemma elfProcessLoaded_res (view : Mem) (f : ElfFile) :
    (elfProcessLoaded view f).1 = 0 ∨ (elfProcessLoaded view f).1 = -einformat := by
  unfold elfProcessLoaded elfValidateLoaded
  dsimp only
  split_ifs with hvalid hneg
  · exact absurd hneg (by decide)
  · exact Or.inl rfl
  · exact Or.inr rfl
  · exact Or.inl rfl

/-- A file that is read is accepted, or is no ELF file. -/
lemma elfLoad_progress (hfile : Readable file) (h : k.Owns live)
    (hroom : k.Room (n + blocksFor file.filesize + 1)) :
    ∃ res f k', elfLoad file k = .ok (res, f, k') ∧
      (res = 0 ∧ k'.Room n ∨
        res = -einformat ∧ k'.Owns live ∧ k'.Room (n + blocksFor file.filesize + 1)) := by
  obtain ⟨addr, m₁, haddr, hne₁, -, hroom₁⟩ :=
    @Kernel.Room.kzalloc k (n + blocksFor file.filesize) sizeofElfFile hroom (by decide) (by decide)
  obtain ⟨ptr, m₂, hptr, hne₂, -, hroom₂⟩ :=
    hroom₁.kzalloc hfile.pos (hfile.fits.trans (by norm_num))
  obtain ⟨filesize, hstat, hsize⟩ := hfile.filesize_eq
  -- the result of `elf_process_loaded`
  generalize hf : elfProcessLoaded (file.view ptr 0 (file.freadInto ptr m₂.mem).2)
    ⟨addr, ptr, 0, 0, 0, 0⟩ = processed
  have hload : elfLoad file k = .ok (elfLoadOut file processed.1 processed.2
      (((k.withMachine m₁).withMachine m₂).withMem (file.freadInto ptr m₂.mem).2)) := by
    have hfd := hfile.fd
    rw [elfLoad, haddr]
    simp only [ok_bind]
    rw [if_neg hne₁, hfile.fopen, if_neg (by omega), hstat]
    simp only [hsize, hptr, ok_bind, pure_eq_ok]
    rw [if_neg hne₂, Kernel.withMachine_machine, hfile.freadInto]
    simp only [ne_eq, not_true_eq_false, if_false]
    rw [← hf]
    rfl
  have hres : processed.1 = 0 ∨ processed.1 = -einformat := by
    rw [← hf]
    exact elfProcessLoaded_res _ _
  rcases processed with ⟨res, f⟩
  dsimp only at hload hres
  rw [elfLoadOut, hfile.fclose] at hload
  rcases hres with hres | hres
  · rw [hres, if_neg (lt_irrefl 0)] at hload
    exact ⟨_, _, _, hload, Or.inl ⟨rfl, hroom₂⟩⟩
  · rw [hres, if_pos (by decide)] at hload
    refine ⟨_, _, _, hload, Or.inr ⟨rfl, ?_⟩⟩
    rcases elfLoad_owns h hload with ⟨hkeeps, ⟨-, -, hown⟩ | ⟨h0, -⟩⟩
    · exact ⟨hown, hroom.restored h hown rfl hkeeps.pool⟩
    · exact absurd h0 (by decide)

/-- A file that is read as a flat binary is loaded. -/
lemma processLoadBinary_progress (hfile : Readable file)
    (hroom : k.Room (n + blocksFor file.filesize)) :
    ∃ process' k', processLoadBinary file process k = .ok (0, process', k') ∧ k'.Room n := by
  obtain ⟨ptr, m₁, hptr, hne, -, hroom₁⟩ := hroom.kzalloc hfile.pos (hfile.fits.trans (by norm_num))
  obtain ⟨filesize, hstat, hsize⟩ := hfile.filesize_eq
  have hfd := hfile.fd
  refine ⟨{ process with filetype := .binary, ptr, size := file.filesize },
    (k.withMachine m₁).withMem (file.freadInto ptr m₁.mem).2, ?_, hroom₁⟩
  rw [processLoadBinary, hfile.fopen, if_neg (by omega), hstat]
  simp only [hsize, hptr, ok_bind, pure_eq_ok]
  rw [if_neg hne, Kernel.withMachine_machine, hfile.freadInto]
  simp only [ne_eq, not_true_eq_false, if_false]
  rw [processLoadBinaryOut, hfile.fclose, if_neg (fun h => absurd h.1 (lt_irrefl 0))]

/-- How many blocks reading the file takes at most. -/
def LoadAnswers.readBlocks (files : LoadAnswers) : ℕ :=
  blocksFor files.elf.filesize + 1 + blocksFor files.binary.filesize

/-- What is left is a room of at least `n` blocks. -/
def Kernel.RoomLeft (n : ℕ) (k : Kernel) : Prop := ∃ c, n ≤ c ∧ k.Room c

/-- A file that can be read is loaded, one way or the other. -/
lemma processLoadData_progress (helf : Readable files.elf) (hbinary : Readable files.binary)
    (h : k.Owns live) (hroom : k.Room (n + files.readBlocks)) :
    ∃ process' k', processLoadData files process k = .ok (0, process', k') ∧ k'.RoomLeft n := by
  have hread : n + files.readBlocks =
      n + blocksFor files.binary.filesize + blocksFor files.elf.filesize + 1 := by
    unfold LoadAnswers.readBlocks
    omega
  rw [hread] at hroom
  obtain ⟨res, f, k₁, hload, hcases⟩ := elfLoad_progress helf h hroom
  rcases hcases with ⟨hres, hroom₁⟩ | ⟨hres, hown₁, hroom₁⟩
  · refine ⟨{ process with filetype := .elf, elfFile := f }, k₁, ?_, _, Nat.le_add_right n _,
      hroom₁⟩
    rw [processLoadData, processLoadElf, hload, hres]
    rfl
  · -- it is no ELF file
    have hroom₂ : k₁.Room (n + (blocksFor files.elf.filesize + 1) +
        blocksFor files.binary.filesize) := by
      rw [show n + (blocksFor files.elf.filesize + 1) + blocksFor files.binary.filesize =
        n + blocksFor files.binary.filesize + blocksFor files.elf.filesize + 1 by omega]
      exact hroom₁
    obtain ⟨process', k', hbin, hroom'⟩ :=
      @processLoadBinary_progress k₁ process files.binary _ hbinary hroom₂
    refine ⟨process', k', ?_, _, Nat.le_add_right n _, hroom'⟩
    rw [processLoadData, processLoadElf, hload, hres]
    exact hbin

/-! ## The task -/

/-- How many blocks a task takes. -/
def taskNewBlocks : ℕ := 1027

lemma taskNew_progress (hroom : k.Room (n + taskNewBlocks)) :
    ∃ task k', taskNew file process k = .ok (task, k') ∧ task < 2 ^ 31 ∧ k'.Room n := by
  obtain ⟨task, m₁, htask, hne, hlt, hroom₁⟩ :=
    @Kernel.Room.kzalloc k (n + 1026) sizeofTask hroom (by decide) (by decide)
  obtain ⟨chunk, m₂, hchunk, hroom₂⟩ := @pagingNew4gb_progress
    (pagingIsPresent ||| pagingAccessFromAll) n _ serves_freeTail m₁ hroom₁
  refine ⟨task, ⟨m₂, taskNewLink task chunk (taskInitRegisters
    (processElfEntry file process m₂.mem)) process.addr k.tasks, k.fileBlocks, k.processes⟩, ?_,
    hlt, hroom₂⟩
  rw [taskNew, htask]
  simp only [ok_bind]
  rw [if_neg hne, hchunk]
  rfl

/-! ## Loading -/

/-- A flat binary of moderate size can be mapped. -/
lemma binaryMapping_valid {ptr size : ℕ} (haligned : ptr % 4096 = 0) (hlt : ptr + 4096 ≤ 2 ^ 31)
    (hsize : size ≤ 2 ^ 30) : (binaryMapping ptr size).Valid := by
  have hblocks : blocksFor size = (size + 4095) / 4096 := rfl
  have hend := @pagingAlignAddress_end ptr size haligned (by omega)
  unfold binaryMapping Mapping.Valid MapsTo
  dsimp only
  rw [hend]
  refine ⟨by norm_num, haligned, by omega, by omega⟩

/-- If the file is an ELF file, the mappings of its headers are valid wherever it is loaded. -/
def PhdrsValid (files : LoadAnswers) (k : Kernel) : Prop :=
  LoadsElf files k → ∀ addr, 0 < addr → addr % 4096 = 0 → addr + 4096 ≤ 2 ^ 31 →
    ∀ m ∈ (elfPhdrs files.elf addr).map (phdrMapping addr), m.Valid

section
variable {slot : ℕ} {k₁ : Kernel} {chunk : Paging4gbChunk} {tables : List ℕ}

/-- The buffer that the file was read into. -/
lemma ReadyToMap.program_mem {a : Alloc}
    (h : ReadyToMap files slot live k k₁ process chunk tables)
    (ha : a ∈ process.programBlocks files.elf.filesize) :
    0 < a.ptr ∧ a.ptr % 4096 = 0 ∧ a.ptr + 4096 ≤ 2 ^ 31 := by
  have hmem : a ∈ k₁.fileBlocks ++ (process.blocks files.elf.filesize chunk tables ++ live) :=
    List.mem_append_right _ (List.mem_append_left _ (Process.programBlocks_subset ha))
  exact ⟨HeapOwns.ptr_pos h.owns hmem, HeapOwns.ptr_aligned h.owns hmem,
    HeapOwns.ptr_lt h.owns hmem⟩

/-- An ELF file lies at the start of a page. -/
lemma ReadyToMap.elf_address {f : ElfFile}
    (h : ReadyToMap files slot live k k₁ process chunk tables) (hfiletype : process.filetype = .elf)
    (hf : process.elfFile = some f) :
    0 < f.elfMemory ∧ f.elfMemory % 4096 = 0 ∧ f.elfMemory + 4096 ≤ 2 ^ 31 := by
  apply h.program_mem (a := ⟨f.elfMemory, files.elf.filesize⟩)
  unfold Process.programBlocks
  rw [hfiletype, hf]
  exact List.mem_cons_self

/-- When the mappings of the file are valid, those of the process are. -/
lemma ReadyToMap.programMappings_valid (h : ReadyToMap files slot live k k₁ process chunk tables)
    (hbinary : Readable files.binary) (hphdrs : PhdrsValid files k) :
    ∀ m ∈ process.programMappings files.elf, m.Valid := by
  unfold Process.programMappings
  rcases h.filetype with ⟨hfiletype, hsome, hloads⟩ | ⟨hfiletype, -⟩
  · obtain ⟨f, hf⟩ := Option.isSome_iff_exists.mp hsome
    obtain ⟨hpos, haligned, hlt⟩ := h.elf_address hfiletype hf
    rw [hfiletype, hf]
    exact hphdrs hloads f.elfMemory hpos haligned hlt
  · have hmem : ⟨process.ptr, process.size⟩ ∈ process.programBlocks files.elf.filesize := by
      unfold Process.programBlocks
      rw [hfiletype]
      exact List.mem_singleton_self _
    obtain ⟨-, haligned, hlt⟩ := h.program_mem hmem
    intro m hm
    rw [hfiletype] at hm
    rw [List.mem_singleton.mp hm]
    apply binaryMapping_valid haligned hlt
    rw [h.size hfiletype]
    exact hbinary.fits

lemma ReadyToMap.isSome (h : ReadyToMap files slot live k k₁ process chunk tables)
    (hfiletype : process.filetype = .elf) : process.elfFile.isSome := by
  rcases h.filetype with ⟨-, hsome, -⟩ | ⟨hfiletype', -⟩
  · exact hsome
  · exact absurd (hfiletype.symm.trans hfiletype') (by decide)

end

/-- How many blocks a load takes at most. -/
def LoadAnswers.loadBlocks (files : LoadAnswers) : ℕ :=
  taskNewBlocks + blocksFor marrowosUserProgramStackSize + files.readBlocks +
    blocksFor sizeofProcess

/-- **A file that can be read is mapped**, and what comes of that is the result of the load. -/
theorem processLoadForSlot_reaches {slot : ℕ} (helf : Readable files.elf)
    (hbinary : Readable files.binary) (h : k.Owns live) (hslot : (processGet k slot).isNone)
    (hroom : k.Room (n + files.loadBlocks)) :
    ∃ process k₁ chunk tables res k₂, ReadyToMap files slot live k k₁ process chunk tables ∧
      processMapMemory files process k₁ = .ok (res, k₂) ∧
      processLoadForSlot files slot k = .ok (mappedResult slot process res k₂) ∧ k₁.RoomLeft n := by
  have hfree : (processGet k slot).isSome = false := by simpa using hslot
  unfold LoadAnswers.loadBlocks at hroom
  simp only [← Nat.add_assoc] at hroom
  obtain ⟨addr, m₁, haddr, hne, -, hroom₁⟩ := hroom.kzalloc (by decide) (by decide)
  have hown₁ : (k.withMachine m₁).Owns (⟨addr, sizeofProcess⟩ :: live) := by
    rcases h.kzalloc (by norm_num) haddr with ⟨-, ⟨h0, -⟩ | ⟨h0, -⟩ | ⟨-, -, hown₁, -⟩⟩
    · exact absurd h0 hne
    · exact absurd h0 (by norm_num)
    · exact hown₁
  obtain ⟨process₂, k₂, hdata, c, hc, hroom₂⟩ :=
    @processLoadData_progress _ _ (processInit addr) files _ helf hbinary hown₁ hroom₁
  obtain ⟨d, rfl⟩ := Nat.exists_eq_add_of_le hc
  have hadd : n + taskNewBlocks + blocksFor marrowosUserProgramStackSize + d =
      n + d + taskNewBlocks + blocksFor marrowosUserProgramStackSize := by omega
  rw [hadd] at hroom₂
  obtain ⟨stack, m₃, hstack, hne₃, -, hroom₃⟩ := hroom₂.kzalloc (by decide) (by decide)
  obtain ⟨task, k₄, htask, -, hroom₄⟩ :=
    @taskNew_progress _ { process₂ with stack, id := slot } files.elf _ hroom₃
  obtain ⟨hlt, chunk, tables, hready⟩ := readyToMap h haddr hne hdata hstack hne₃ htask
  obtain ⟨⟨res, k₅⟩, hmap⟩ :=
    @processMapMemory_ok files { process₂ with stack, id := slot, task } k₄
      fun hfiletype => hready.isSome hfiletype
  refine ⟨{ process₂ with stack, id := slot, task }, k₄, chunk, tables, res, k₅, hready, hmap, ?_,
    n + d, Nat.le_add_right n d, hroom₄⟩
  rw [processLoadForSlot, hfree]
  simp only [Bool.false_eq_true, if_false, haddr, ok_bind, pure_eq_ok]
  rw [if_neg hne, hdata]
  simp only [ok_bind, lt_irrefl, if_false, hstack]
  rw [if_neg hne₃, htask, ok_bind]
  dsimp only
  rw [i32_of_lt (by omega) (by omega), if_neg (by omega), hmap, ok_bind, mappedResult]
  dsimp only
  split <;> rfl

/-- **A file that can be read and mapped is loaded.** -/
theorem processLoadForSlot_progress {slot : ℕ} (helf : Readable files.elf)
    (hbinary : Readable files.binary) (h : k.Owns live) (hslot : (processGet k slot).isNone)
    (hroom : k.Room (n + files.loadBlocks)) (hphdrs : PhdrsValid files k) :
    ∃ process k' chunk tables, processLoadForSlot files slot k = .ok (0, some process, k') ∧
      ProcessLoaded files slot live k k' process chunk tables ∧ k'.RoomLeft n := by
  obtain ⟨process, k₁, chunk, tables, res, k₂, hready, hmap, hload, c, hc, hroom₁⟩ :=
    processLoadForSlot_reaches helf hbinary h hslot hroom
  obtain ⟨k₃, hvalid⟩ := processMapMemory_of_valid hready.space hready.pageDirectory hready.image
    hready.isSome (hready.programMappings_valid hbinary hphdrs)
  have hsame := Except.ok.inj (hmap.symm.trans hvalid)
  have hres : mappedResult slot process res k₂ =
      (0, some process, k₂.setProcess slot process) := by
    rw [mappedResult, (Prod.mk.inj hsame).1, if_neg (lt_irrefl 0)]
  rw [hres] at hload
  rcases hready.mapped hmap hres with hfailed | ⟨-, process', chunk', tables', hsome, hloaded⟩
  · exact absurd hfailed.loaded (by simp)
  · rw [← Option.some.inj hsome] at hloaded
    refine ⟨process, _, chunk', tables', hload, hloaded, c, hc, ?_⟩
    rcases processMapMemory_maps hready.space hready.pageDirectory hready.image hready.stackValid
      hmap with ⟨mem, hk₂, -⟩
    rw [hk₂]
    exact hroom₁

/-! ### A kernel that has loaded nothing -/

/-- The heap of `kheap_init` is one run of free blocks. -/
lemma bootKernel_room : bootKernel.Room 25600 := by
  have htotal : bootKernel.machine.heap.heap.table.total = 25600 := kheapInit_total _
  have hown : HeapOwns bootKernel.machine.heap.heap [] := bootKernel_owns
  refine ⟨hown.pool, htotal.ge, fun i hi => iff_of_true ?_ (by omega)⟩
  rw [BlockFree, hown.free i hi fun a ha => absurd ha List.not_mem_nil]
  rfl

lemma oneByteFile_readable : Readable oneByteFile :=
  ⟨rfl, rfl, by decide, ⟨1, rfl⟩, rfl, by decide, by decide⟩

/-- One byte is no ELF file. -/
lemma not_loadsElf_oneByteFile (k : Kernel) : ¬ LoadsElf ⟨oneByteFile, oneByteFile⟩ k := by
  unfold LoadsElf
  have hbyte : (elfLoadedHeader oneByteFile (processKernel k)).eIdent 0 = 0xc3 := by
    generalize haddr : elfImageAddress oneByteFile (processKernel k) = addr
    show oneByteFile.imageView (elfImageAddress oneByteFile (processKernel k)) 0
      (elfImageAddress oneByteFile (processKernel k) + 0) = 0xc3
    rw [haddr, FileAnswers.imageView, if_pos ⟨by omega, Nat.lt_succ_self _⟩, Nat.add_zero,
      Nat.sub_self]
    rfl
  have hsignature : elfValidSignature (elfLoadedHeader oneByteFile (processKernel k)) = false := by
    rw [elfValidSignature, hbyte]
    rfl
  show ¬ 0 ≤ elfValidateLoaded (elfLoadedHeader oneByteFile (processKernel k))
  rw [elfValidateLoaded, hsignature]
  simp

/-- It is loaded as a flat binary. -/
lemma processLoadForSlot_oneByteFile {slot : ℕ} (h : k.Owns live)
    (hslot : (processGet k slot).isNone) (hroom : k.RoomLeft (n + 1037)) :
    ∃ process k' chunk tables,
      processLoadForSlot ⟨oneByteFile, oneByteFile⟩ slot k = .ok (0, some process, k') ∧
      ProcessLoaded ⟨oneByteFile, oneByteFile⟩ slot live k k' process chunk tables ∧
      k'.RoomLeft n := by
  obtain ⟨c, hc, hroom⟩ := hroom
  obtain ⟨d, rfl⟩ := Nat.exists_eq_add_of_le hc
  have hblocks : (⟨oneByteFile, oneByteFile⟩ : LoadAnswers).loadBlocks = 1037 := by decide
  have hadd : n + 1037 + d = n + d + (⟨oneByteFile, oneByteFile⟩ : LoadAnswers).loadBlocks := by
    rw [hblocks]
    omega
  rw [hadd] at hroom
  obtain ⟨process, k', chunk, tables, hload, hloaded, c, hc, hroom'⟩ :=
    processLoadForSlot_progress oneByteFile_readable oneByteFile_readable h hslot hroom
      fun hloads => absurd hloads (not_loadsElf_oneByteFile k)
  exact ⟨process, k', chunk, tables, hload, hloaded, c, by omega, hroom'⟩

/-! ### ELF files with one program header -/

section
variable {phdr : Elf32Phdr}

lemma oneHeaderFile_readable (phdr : Elf32Phdr) : Readable (oneHeaderFile phdr) :=
  ⟨rfl, rfl, Int.zero_lt_one, ⟨84, rfl⟩, rfl, by rw [oneHeaderFile_filesize]; norm_num,
    by rw [oneHeaderFile_filesize]; norm_num⟩

lemma loadsElf_oneHeaderFile (phdr : Elf32Phdr) (file : FileAnswers) (k : Kernel) :
    LoadsElf ⟨oneHeaderFile phdr, file⟩ k :=
  (elfHeaderAt_oneHeaderFile phdr _ 0).1.ge

/-- It takes as much room as a file of one byte. -/
lemma loadBlocks_oneHeaderFile (phdr : Elf32Phdr) :
    (⟨oneHeaderFile phdr, oneHeaderFile phdr⟩ : LoadAnswers).loadBlocks = 1037 := by
  unfold LoadAnswers.loadBlocks LoadAnswers.readBlocks
  rw [oneHeaderFile_filesize]
  decide

/-- It is loaded if its mapping is valid. -/
lemma processLoadForSlot_oneHeaderFile (hphdr : phdr.InRange)
    (hvalid : ∀ addr, 0 < addr → addr % 4096 = 0 → addr + 4096 ≤ 2 ^ 31 →
      (phdrMapping addr phdr).Valid) :
    ∃ process k' chunk tables,
      processLoadForSlot ⟨oneHeaderFile phdr, oneHeaderFile phdr⟩ 0 bootKernel =
        .ok (0, some process, k') ∧
      ProcessLoaded ⟨oneHeaderFile phdr, oneHeaderFile phdr⟩ 0 [] bootKernel k' process chunk
        tables := by
  have hroom : bootKernel.Room
      (24563 + (⟨oneHeaderFile phdr, oneHeaderFile phdr⟩ : LoadAnswers).loadBlocks) := by
    rw [loadBlocks_oneHeaderFile]
    exact bootKernel_room
  have hslot : (processGet bootKernel (0 : ℕ)).isNone := rfl
  have hphdrs : PhdrsValid ⟨oneHeaderFile phdr, oneHeaderFile phdr⟩ bootKernel := by
    intro _ addr hpos haligned hlt m hm
    rw [elfPhdrs_oneHeaderFile hphdr hlt] at hm
    rw [List.mem_singleton.mp hm]
    exact hvalid addr hpos haligned hlt
  obtain ⟨process, k', chunk, tables, hload, hloaded, -⟩ :=
    processLoadForSlot_progress (oneHeaderFile_readable phdr) (oneHeaderFile_readable phdr)
      bootKernel_owns hslot hroom hphdrs
  exact ⟨process, k', chunk, tables, hload, hloaded⟩

/-- If its mapping is not valid the load fails. -/
lemma processLoadForSlot_oneHeaderFile_failed (hphdr : phdr.InRange)
    (hinvalid : ∀ addr, 0 < addr → addr % 4096 = 0 → addr + 4096 ≤ 2 ^ 31 →
      ¬ (phdrMapping addr phdr).Valid) :
    ∃ loaded k', processLoadForSlot ⟨oneHeaderFile phdr, oneHeaderFile phdr⟩ 0 bootKernel =
      .ok (-einvarg, loaded, k') := by
  have hroom : bootKernel.Room
      (24563 + (⟨oneHeaderFile phdr, oneHeaderFile phdr⟩ : LoadAnswers).loadBlocks) := by
    rw [loadBlocks_oneHeaderFile]
    exact bootKernel_room
  have hslot : (processGet bootKernel (0 : ℕ)).isNone := rfl
  obtain ⟨process, k₁, chunk, tables, res, k₂, hready, hmap, hload, -⟩ :=
    processLoadForSlot_reaches (oneHeaderFile_readable phdr) (oneHeaderFile_readable phdr)
      bootKernel_owns hslot hroom
  rcases hready.filetype with ⟨hfiletype, hsome, -⟩ | ⟨-, hnot⟩
  · obtain ⟨f, hf⟩ := Option.isSome_iff_exists.mp hsome
    obtain ⟨hpos, haligned, hlt⟩ := hready.elf_address hfiletype hf
    rcases processMapMemory_maps hready.space hready.pageDirectory hready.image hready.stackValid
      hmap with ⟨mem, -, -, -, hres | ⟨-, hmaps⟩⟩
    · rw [hres, mappedResult, if_pos (by decide)] at hload
      exact ⟨none, _, hload⟩
    · have hmem : phdrMapping f.elfMemory phdr ∈ process.programMappings (oneHeaderFile phdr) := by
        unfold Process.programMappings
        rw [hfiletype, hf]
        dsimp only
        rw [elfPhdrs_oneHeaderFile hphdr hlt]
        exact List.mem_singleton_self _
      exact absurd (hmaps.valid _ (List.mem_append_left _ hmem)) (hinvalid _ hpos haligned hlt)
  · exact absurd (loadsElf_oneHeaderFile phdr _ bootKernel) hnot

end

end MarrowOS
