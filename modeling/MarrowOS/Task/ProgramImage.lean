import MarrowOS.Loader.ElfReads
import MarrowOS.Task.ContextSwitchTheorems
import MarrowOS.Task.SegmentTails

/-!
# The program in its address space

What a program finds when it is entered: its file, in the place that the file asks for or at the
lowest address for programs, and an empty stack (`processLoadForSlot_elfInPlace`,
`processLoadForSlot_binaryInPlace`). The load goes through five allocations and two copies until
then, and nothing of it shows.
-/

namespace MarrowOS

open ByteMem CInt Fallible Overlay

variable {k k' k₁ k₂ : Kernel} {live : List Alloc} {process : Process} {files : LoadAnswers}
  {file : FileAnswers} {chunk : Paging4gbChunk} {tables : List ℕ} {mem : Mem} {a : Alloc}
  {elfFile : ElfFile} {slot addr p n i v x moment : ℕ}

/-! ## What the headers of a file say -/

/-- The program headers that stand in a file. -/
def filePhdrs (image : Mem) : List Elf32Phdr :=
  (List.range (elfHeaderAt image 0).ePhnum).map fun i =>
    elf32PhdrAt image ((elfHeaderAt image 0).ePhoff + i * sizeofElf32Phdr)

/-- A file of `size` bytes that follows the format: it has all of its headers, and its segments fit
wherever it is loaded. -/
structure ElfFormat (image : Mem) (size : ℕ) : Prop where
  header : 52 ≤ size
  accepted : 0 ≤ elfValidateLoaded (elfHeaderAt image 0)
  phdrs : (elfHeaderAt image 0).ePhoff + (elfHeaderAt image 0).ePhnum * sizeofElf32Phdr ≤ size
  size_le : size ≤ 2 ^ 31
  segments : ∀ addr, addr + 4096 ≤ 2 ^ 31 → SegmentsApart (filePhdrs image) addr

/-- The header is read from the file. -/
lemma elfHeaderAt_imageView (h : 52 ≤ file.filesize) (addr moment : ℕ) :
    (elfHeaderAt (file.imageView addr moment) addr).eEntry = (elfHeaderAt file.image 0).eEntry ∧
    (elfHeaderAt (file.imageView addr moment) addr).ePhoff = (elfHeaderAt file.image 0).ePhoff ∧
    (elfHeaderAt (file.imageView addr moment) addr).ePhnum = (elfHeaderAt file.image 0).ePhnum := by
  unfold elfHeaderAt
  dsimp only
  rw [readU32_imageView (by omega), readU32_imageView (by omega), readU16_imageView (by omega)]
  exact ⟨rfl, rfl, rfl⟩

/-- The file decides how it is loaded. -/
lemma loadsElf_iff (h : 52 ≤ files.elf.filesize) (k : Kernel) :
    LoadsElf files k ↔ 0 ≤ elfValidateLoaded (elfHeaderAt files.elf.image 0) := by
  unfold LoadsElf elfLoadedHeader
  rw [elfValidateLoaded_imageView (by omega)]
  rfl

lemma elf32PhdrAt_imageView (h : n + sizeofElf32Phdr ≤ file.filesize) :
    elf32PhdrAt (file.imageView addr moment) (addr + n) = elf32PhdrAt file.image n := by
  have h32 : sizeofElf32Phdr = 32 := rfl
  unfold elf32PhdrAt
  rw [Nat.add_assoc, Nat.add_assoc, Nat.add_assoc, Nat.add_assoc, Nat.add_assoc,
    readU32_imageView (by omega), readU32_imageView (by omega), readU32_imageView (by omega),
    readU32_imageView (by omega), readU32_imageView (by omega), readU32_imageView (by omega)]

section
variable (hformat : ElfFormat file.image file.filesize) (haddr : addr + 4096 ≤ 2 ^ 31)
include hformat haddr

/-- The headers that the loader reads stand in the file. -/
lemma ElfFormat.elfPhdr_eq (hi : i < (elfHeaderAt file.image 0).ePhnum) : elfPhdr file addr i =
    elf32PhdrAt file.image ((elfHeaderAt file.image 0).ePhoff + i * sizeofElf32Phdr) := by
  have h32 : sizeofElf32Phdr = 32 := rfl
  have hphdrs := hformat.phdrs
  have hsize := hformat.size_le
  have hvalid := hformat.accepted
  have hphoff : (elfHeaderAt file.image 0).ePhoff ≠ 0 := by
    intro h0
    rw [elfValidateLoaded, elfHasProgramHeader, h0] at hvalid
    simp at hvalid
  have hpheader : elfPheader (elfHeaderAt (file.imageView addr 2) addr) ⟨0, addr, 0, 0, 0, 0⟩ =
      addr + (elfHeaderAt file.image 0).ePhoff := by
    rw [elfPheader, (elfHeaderAt_imageView hformat.header addr 2).2.1, if_neg hphoff]
    dsimp only
    rw [i32_of_lt (by omega) (by omega), ← Nat.cast_add]
    exact u32_natCast_of_lt (by omega)
  have hindex : ((addr + (elfHeaderAt file.image 0).ePhoff : ℕ) : ℤ) + (i : ℕ) * sizeofElf32Phdr =
      ((addr + ((elfHeaderAt file.image 0).ePhoff + i * sizeofElf32Phdr) : ℕ) : ℤ) := by
    push_cast
    ring
  have hrow : i * sizeofElf32Phdr + sizeofElf32Phdr ≤
      (elfHeaderAt file.image 0).ePhnum * sizeofElf32Phdr := by
    rw [← Nat.succ_mul]
    exact Nat.mul_le_mul_right _ hi
  rw [elfPhdr, hpheader, elfProgramHeader, hindex, u32_natCast_of_lt (by omega)]
  exact elf32PhdrAt_imageView (by omega)

lemma ElfFormat.elfPhdrsFrom_eq (hn : (elfHeaderAt file.image 0).ePhnum < i + n) :
    elfPhdrsFrom file addr n i = (List.range' i ((elfHeaderAt file.image 0).ePhnum - i)).map fun i =>
      elf32PhdrAt file.image ((elfHeaderAt file.image 0).ePhoff + i * sizeofElf32Phdr) := by
  have hphnum : ∀ i, elfPhnum file addr i = (elfHeaderAt file.image 0).ePhnum := fun i =>
    (elfHeaderAt_imageView hformat.header addr (i + 2)).2.2
  -- on the fuel, which outlasts the headers
  induction n generalizing i with
  | zero =>
    rw [Nat.sub_eq_zero_of_le (by omega)]
    rfl
  | succ n ih =>
    rw [elfPhdrsFrom, hphnum]
    by_cases hi : i < (elfHeaderAt file.image 0).ePhnum
    · rw [if_pos hi, hformat.elfPhdr_eq haddr hi, ih (by omega),
        show (elfHeaderAt file.image 0).ePhnum - i =
          (elfHeaderAt file.image 0).ePhnum - (i + 1) + 1 by omega]
      rfl
    · rw [if_neg hi, Nat.sub_eq_zero_of_le (by omega)]
      rfl

/-- **The loader reads the headers of the file**, and no others. -/
lemma ElfFormat.elfPhdrs_eq : elfPhdrs file addr = filePhdrs file.image := by
  have hhalf : (elfHeaderAt file.image 0).ePhnum < 2 ^ 16 := readU16_lt _ _
  rw [elfPhdrs, hformat.elfPhdrsFrom_eq haddr (by omega), filePhdrs, List.range_eq_range']
  rfl

end

/-! ## The registers of a new task -/

/-- The entry point is read when the address space has been made. -/
lemma taskNew_registers {task : ℕ} (hnew : taskNew file process k = .ok (task, k')) :
    (k'.tasks.tasks task).registers =
      taskInitRegisters (processElfEntry file process k'.machine.mem) := by
  unfold taskNew at hnew
  rcases bind_eq_ok.mp hnew with ⟨⟨task', m₁⟩, -, hnew⟩
  by_cases h0 : task' = 0
  · simp [h0] at hnew
  simp only [if_neg h0] at hnew
  rcases bind_eq_ok.mp hnew with ⟨⟨chunk, m₂⟩, -, hnew⟩
  rcases Prod.mk.inj (Except.ok.inj hnew) with ⟨htask, hk'⟩
  rw [← hk', ← htask]
  exact (taskNewLink_registers ..).trans (if_pos rfl)

/-! ## The steps of a load -/

/-- A flat binary lies in its buffer. -/
lemma processLoadData_binary {process' : Process} (h : k.Owns live)
    (hload : processLoadData files process k = .ok (0, process', k'))
    (hfiletype : process'.filetype = .binary) (hprocess : process.filetype = .elf) :
    files.binary.LoadedAt process'.ptr k'.machine.mem := by
  unfold processLoadData processLoadElf at hload
  rcases bind_eq_ok.mp hload with ⟨⟨res₁, process₁, k₁⟩, helf, hload⟩
  rcases bind_eq_ok.mp helf with ⟨⟨res₂, f, k₂⟩, helf, hret⟩
  dsimp only at hload
  by_cases hinformat : res₁ = -einformat
  · -- the file was refused, and is read again
    rw [if_pos hinformat] at hload
    have hown : k₁.Owns live := by
      rcases elfLoad_owns h helf with ⟨-, ⟨hres, -, hown⟩ | ⟨hres, -⟩⟩
      · have hneg : res₂ < 0 := by
          simp only [eio, einvarg, enomem, einformat] at hres
          omega
        simp only [if_pos hneg] at hret
        rcases ok_triple_inj hret with ⟨-, -, hk₁⟩
        rw [← hk₁]
        exact hown
      · simp only [hres, lt_irrefl, if_false] at hret
        rcases ok_triple_inj hret with ⟨hres₁, -, -⟩
        exact absurd (hres₁.trans hinformat) (by decide)
    rcases processLoadBinary_owns hown hload with ⟨-, ⟨hres, -⟩ | ⟨-, ptr, hprocess', -, hat⟩⟩
    · exact absurd hres.neg (lt_irrefl 0)
    · rw [hprocess']
      exact hat
  · -- the file was accepted, or could not be read
    rw [if_neg hinformat] at hload
    rcases ok_triple_inj hload with ⟨-, hprocess', -⟩
    have helf : process₁.filetype = .elf := by
      dsimp only at hret
      split_ifs at hret
      · rw [← (ok_triple_inj hret).2.1]
        exact hprocess
      · rw [← (ok_triple_inj hret).2.1]
    rw [← hprocess', helf] at hfiletype
    cases hfiletype

/-- What a load has made of the kernel `k` when it comes to the mappings, in `k₁`. -/
structure Prepared (files : LoadAnswers) (slot : ℕ) (live : List Alloc) (k k₁ : Kernel)
    (process : Process) (chunk : Paging4gbChunk) (tables : List ℕ) : Prop
    extends ReadyToMap files slot live k k₁ process chunk tables where
  binary : process.filetype = .binary → files.binary.LoadedAt process.ptr k₁.machine.mem
  stackZero : ∀ x, process.stack ≤ x → x < process.stack + marrowosUserProgramStackSize →
    k₁.machine.mem x = 0
  registers : (k₁.tasks.tasks process.task).registers =
    taskInitRegisters (processElfEntry files.elf process k₁.machine.mem)

/-- **A load that succeeds** has made everything and mapped it. -/
lemma processLoadForSlot_prepared (h : k.Owns live)
    (hload : processLoadForSlot files slot k = .ok (0, some process, k')) :
    ∃ k₁ k₂ chunk tables, Prepared files slot live k k₁ process chunk tables ∧
      processMapMemory files process k₁ = .ok (0, k₂) ∧ k' = k₂.setProcess slot process := by
  have hfailed : ∀ {res : ℤ} {process₁ : Process} {k₁ : Kernel},
      processLoadFailed res process₁ k₁ ≠ (0, some process, k') := by
    intro res process₁ k₁ heq
    exact absurd (Prod.mk.inj (Prod.mk.inj heq).2).1 (by simp)
  unfold processLoadForSlot at hload
  by_cases hslot : (processGet k slot).isSome
  · simp only [if_pos hslot] at hload
    exact absurd (ok_triple_inj hload).1 (by decide)
  simp only [if_neg hslot] at hload
  rcases bind_eq_ok.mp hload with ⟨⟨addr, m₁⟩, haddr, hload⟩
  by_cases hne : addr = 0
  · simp only [if_pos hne] at hload
    exact absurd (ok_triple_inj hload).1 (by decide)
  have hown₁ : (k.withMachine m₁).Owns (⟨addr, sizeofProcess⟩ :: live) := by
    rcases h.kzalloc (by norm_num) haddr with ⟨-, ⟨h0, -⟩ | ⟨h0, -⟩ | ⟨-, -, hown₁, -⟩⟩
    · exact absurd h0 hne
    · exact absurd h0 (by norm_num)
    · exact hown₁
  simp only [if_neg hne] at hload
  -- the file
  rcases bind_eq_ok.mp hload with ⟨⟨res₂, process₂, k₂⟩, hdata, hload⟩
  have hprogram : res₂ = 0 ∧ ProgramLoaded files (⟨addr, sizeofProcess⟩ :: live)
      (k.withMachine m₁) k₂ (processInit addr) process₂ := by
    rcases processLoadData_owns hown₁ hdata with ⟨-, ⟨hres₂, -⟩ | hprogram⟩
    · simp only [if_pos hres₂.neg] at hload
      exact absurd (Except.ok.inj hload) hfailed
    · exact hprogram
  obtain ⟨hres₂, hprogram⟩ := hprogram
  subst hres₂
  simp only [lt_irrefl, if_false] at hload
  -- the stack
  rcases bind_eq_ok.mp hload with ⟨⟨stack, m₃⟩, hstack, hload⟩
  by_cases hne₃ : stack = 0
  · simp only [if_pos hne₃] at hload
    exact absurd (Except.ok.inj hload) hfailed
  simp only [if_neg hne₃] at hload
  -- the task
  rcases bind_eq_ok.mp hload with ⟨⟨task, k₄⟩, htask, hload⟩
  rcases readyToMap h haddr hne hdata hstack hne₃ htask with ⟨hlt, chunk, tables, hready⟩
  rw [i32_of_lt (by omega) (by omega), if_neg (by omega)] at hload
  -- the mappings
  rcases bind_eq_ok.mp hload with ⟨⟨res₅, k₅⟩, hmap, hload⟩
  by_cases hneg : res₅ < 0
  · simp only [if_pos hneg] at hload
    exact absurd (Except.ok.inj hload) hfailed
  simp only [if_neg hneg] at hload
  rcases ok_triple_inj hload with ⟨hres₅, hprocess, hk'⟩
  have hprocess := Option.some.inj hprocess
  rw [hprocess] at hmap hk'
  rw [hres₅] at hmap
  refine ⟨k₄, k₅, chunk, tables, ?_, hmap, hk'.symm⟩
  rw [← hprocess]
  -- what was in memory before the task was made is still there
  rcases hprogram.owns.kzalloc (by norm_num) hstack with
    ⟨hkeeps₃, ⟨h0, -⟩ | ⟨h0, -⟩ | ⟨-, -, hown₃, hfill⟩⟩
  · exact absurd h0 hne₃
  · exact absurd h0 (by norm_num)
  rcases taskNew_owns hown₃ htask with ⟨hkeeps₄, -⟩
  refine ⟨hready, fun hfiletype => ?_, fun x h₀ h₁ => ?_, taskNew_registers htask⟩
  · have hbinary := processLoadData_binary hown₁ hdata hfiletype rfl
    have hblock : (⟨process₂.ptr, files.binary.filesize⟩ : Alloc) ∈
        process₂.programBlocks files.elf.filesize := by
      have hfiletype₂ : process₂.filetype = .binary := hfiletype
      rw [Process.programBlocks, hfiletype₂, ← hprogram.fields.2.2.2 hfiletype]
      exact List.mem_singleton_self _
    have hmem : ∀ b ∈ [(⟨process₂.ptr, files.binary.filesize⟩ : Alloc)],
        b ∈ process₂.programBlocks files.elf.filesize ++ ⟨addr, sizeofProcess⟩ :: live := by
      intro b hb
      rw [List.mem_singleton.mp hb]
      exact List.mem_append_left _ hblock
    exact (hbinary.congr (hkeeps₃.same.mono hmem)).congr
      (hkeeps₄.same.mono fun b hb => List.mem_cons_of_mem _ (hmem b hb))
  · have hzero : m₃.mem x = 0 := by
      rw [hfill]
      exact if_pos ⟨h₀, h₁⟩
    exact (hkeeps₄.same _ List.mem_cons_self x (Alloc.covers_of_lt h₀ h₁)).trans hzero

/-! ## What the program finds -/

/-- The stack is mapped to its block, and empty. -/
structure StackInPlace (k : Kernel) (process : Process) : Prop where
  mapped : StackMapped k.machine.mem (k.pageDirectory process).directoryEntry process.stack
  zero : ∀ v : ℕ, marrowosProgramVirtualStackAddressEnd ≤ v →
    v < marrowosProgramVirtualStackAddressStart →
    byteAt k.machine.mem (k.pageDirectory process).directoryEntry v = 0

/-- The program may access the byte at `v`. -/
def UserAccess (k : Kernel) (process : Process) (v : ℕ) : Prop :=
  pageEntry k.machine.mem (k.pageDirectory process).directoryEntry v &&& pagingIsPresent ≠ 0 ∧
  pageEntry k.machine.mem (k.pageDirectory process).directoryEntry v &&& pagingAccessFromAll ≠ 0

/-- The program may write the byte at `v`. -/
def UserWrites (k : Kernel) (process : Process) (v : ℕ) : Prop :=
  pageEntry k.machine.mem (k.pageDirectory process).directoryEntry v &&& pagingIsWritable ≠ 0

/-- The segments are where their headers say, with the bytes of the file and the access that is
asked for, and the program is entered at its entry point. -/
structure ElfInPlace (image : Mem) (size : ℕ) (k : Kernel) (process : Process) : Prop where
  filetype : process.filetype = .elf
  registers : (k.tasks.tasks process.task).registers =
    taskInitRegisters (some (elfHeaderAt image 0).eEntry)
  bytes : ∀ phdr ∈ filePhdrs image, ∀ n < phdr.pMemsz, phdr.pOffset + n < size →
    byteAt k.machine.mem (k.pageDirectory process).directoryEntry (phdr.pVaddr + n) =
      image (phdr.pOffset + n)
  access : ∀ phdr ∈ filePhdrs image, ∀ n < phdr.pMemsz, UserAccess k process (phdr.pVaddr + n) ∧
    (UserWrites k process (phdr.pVaddr + n) ↔ phdr.pFlags &&& pfW ≠ 0)
  stack : StackInPlace k process

/-- The file is at the lowest address for programs, where it is entered. -/
structure BinaryInPlace (image : Mem) (size : ℕ) (k : Kernel) (process : Process) : Prop where
  filetype : process.filetype = .binary
  registers : (k.tasks.tasks process.task).registers = taskInitRegisters none
  bytes : ∀ n < size, byteAt k.machine.mem (k.pageDirectory process).directoryEntry
    (marrowosProgramVirtualAddress + n) = image n
  access : ∀ n < size, UserAccess k process (marrowosProgramVirtualAddress + n) ∧
    UserWrites k process (marrowosProgramVirtualAddress + n)
  stack : StackInPlace k process

/-- No table is in a block of the program or of its stack. -/
lemma ReadyToMap.not_inTables (h : ReadyToMap files slot live k k₁ process chunk tables)
    (ha : a ∈ process.stackBlocks ++ process.programBlocks files.elf.filesize) (hx : a.Covers x) :
    ¬ InTables tables x := by
  have hown : HeapOwns k₁.machine.heap.heap (pageAllocs tables ++ ⟨chunk.addr, 4⟩ ::
      ⟨chunk.directoryEntry, 4096⟩ :: (k₁.fileBlocks ++ ⟨process.task, sizeofTask⟩ ::
        (process.stackBlocks ++ (process.programBlocks files.elf.filesize ++
          ⟨process.addr, sizeofProcess⟩ :: live)))) := by
    refine HeapOwns.perm h.owns ?_
    rw [Process.blocks_append, Process.taskBlocks, if_neg h.task, List.append_assoc]
    refine (List.perm_append_comm_assoc _ _ _).trans ?_
    rw [spaceAllocs, List.cons_append, List.append_assoc]
    exact List.perm_middle.symm
  apply hown.not_inTables _ hx
  apply List.mem_cons_of_mem
  apply List.mem_cons_of_mem
  apply List.mem_append_right
  apply List.mem_cons_of_mem
  rw [← List.append_assoc]
  exact List.mem_append_left _ ha

section
variable (h : Prepared files slot live k k₁ process chunk tables)
include h

/-- The kernel when the program has been mapped. -/
lemma Prepared.maps (hmap : processMapMemory files process k₁ = .ok (0, k₂))
    (hk' : k' = k₂.setProcess slot process) :
    k'.pageDirectory process = chunk ∧ k'.tasks = k₁.tasks ∧
      Maps chunk tables (process.programMappings files.elf ++ [stackMapping process.stack])
        k₁.machine.mem k'.machine.mem := by
  rcases processMapMemory_maps h.space h.pageDirectory h.image h.stackValid hmap with
    ⟨mem, hk₂, -, -, hfailed | ⟨-, hmaps⟩⟩
  · exact absurd hfailed (by decide)
  · rw [hk', hk₂]
    exact ⟨h.pageDirectory, rfl, hmaps⟩

lemma Prepared.stackInPlace (hdirectory : k'.pageDirectory process = chunk)
    (hmaps : Maps chunk tables (process.programMappings files.elf ++ [stackMapping process.stack])
      k₁.machine.mem k'.machine.mem) : StackInPlace k' process := by
  rcases h.stack_address with ⟨hstack, hlt⟩
  have hmapped : StackMapped k'.machine.mem chunk.directoryEntry process.stack :=
    stackMapped_of_entries hstack hlt fun p hp hpage =>
      (hmaps.pages p hp).trans (overlay_stack hstack hlt hp hpage)
  have hblock : (⟨process.stack, marrowosUserProgramStackSize⟩ : Alloc) ∈
      process.stackBlocks ++ process.programBlocks files.elf.filesize := by
    rw [Process.stackBlocks, if_neg h.stack]
    exact List.mem_cons_self
  refine ⟨?_, fun v hlow hhigh => ?_⟩
  · rw [hdirectory]
    exact hmapped
  · have hsize : v - marrowosProgramVirtualStackAddressEnd < marrowosUserProgramStackSize :=
      (Nat.sub_lt_sub_right hlow hhigh).trans_eq (by decide)
    rw [hdirectory, byteAt, (hmapped v hlow hhigh).1, hmaps.outside]
    · exact h.stackZero _ (Nat.le_add_right _ _) (Nat.add_lt_add_left hsize _)
    · apply h.not_inTables hblock
      exact Alloc.covers_of_lt (Nat.le_add_right _ _) (Nat.add_lt_add_left hsize _)

/-- An ELF file is entered at the entry point that stands in it. -/
lemma Prepared.elf_registers (hfiletype : process.filetype = .elf)
    (helf : process.elfFile = some elfFile) (hheader : 52 ≤ files.elf.filesize) :
    (k₁.tasks.tasks process.task).registers =
      taskInitRegisters (some (elfHeaderAt files.elf.image 0).eEntry) := by
  rcases h.image elfFile hfiletype helf with ⟨hloaded, -⟩
  rw [h.registers, processElfEntry, hfiletype, helf]
  dsimp only
  rw [hloaded.view_eq, elfHeader, (elfHeaderAt_imageView hheader _ 1).1]

/-- **An ELF file** that follows the format is in place when it has been loaded. -/
lemma Prepared.elfInPlace (hformat : ElfFormat files.elf.image files.elf.filesize)
    (hfiletype : process.filetype = .elf) (hdirectory : k'.pageDirectory process = chunk)
    (htasks : k'.tasks = k₁.tasks)
    (hmaps : Maps chunk tables (process.programMappings files.elf ++ [stackMapping process.stack])
      k₁.machine.mem k'.machine.mem) :
    ElfInPlace files.elf.image files.elf.filesize k' process := by
  obtain ⟨elfFile, helf⟩ := Option.isSome_iff_exists.mp (h.isSome hfiletype)
  rcases h.elf_address hfiletype helf with ⟨-, -, hlt⟩
  rcases h.image elfFile hfiletype helf with ⟨hloaded, hapart⟩
  have hphdrs := hformat.elfPhdrs_eq hlt
  have hstack := h.stackInPlace hdirectory hmaps
  rw [process.programMappings_eq hfiletype helf] at hmaps
  have hmapped := h.segmentsMapped hfiletype helf
    (by rw [hphdrs]; exact hformat.segments _ hlt) hmaps
  rw [hphdrs] at hmapped
  refine ⟨hfiletype, ?_, fun phdr hphdr n hn hin => ?_, fun phdr hphdr n hn => ?_, hstack⟩
  · rw [htasks]
    exact h.elf_registers hfiletype helf hformat.header
  · rw [hdirectory, byteAt, (hmapped phdr hphdr n hn).1,
      hmaps.loadedAt hloaded hapart _ (by omega) (by omega)]
    congr 1
    omega
  · rcases hmapped phdr hphdr n hn with ⟨-, hpresent, huser, hwritable⟩
    unfold UserAccess UserWrites
    rw [hdirectory]
    exact ⟨⟨hpresent, huser⟩, hwritable⟩

/-- The pages of a flat binary show its buffer. -/
lemma Prepared.binary_pages (hfiletype : process.filetype = .binary)
    (hsize : files.binary.filesize ≤ 2 ^ 31) (hn : n < files.binary.filesize)
    (hmaps : Maps chunk tables (process.programMappings files.elf ++ [stackMapping process.stack])
      k₁.machine.mem mem) :
    translate mem chunk.directoryEntry (marrowosProgramVirtualAddress + n) = process.ptr + n ∧
      UserWritable (pageEntry mem chunk.directoryEntry (marrowosProgramVirtualAddress + n)) := by
  have hblock : (⟨process.ptr, process.size⟩ : Alloc) ∈
      process.programBlocks files.elf.filesize := by
    rw [Process.programBlocks, hfiletype]
    exact List.mem_singleton_self _
  obtain ⟨-, haligned, hlt⟩ := h.program_mem hblock
  dsimp only at haligned hlt
  rcases h.stack_address with ⟨hstack, hstackLt⟩
  have hmappings : process.programMappings files.elf =
      [binaryMapping process.ptr files.binary.filesize] := by
    rw [Process.programMappings, hfiletype, ← h.size hfiletype]
  have hblocks : blocksFor files.binary.filesize = (files.binary.filesize + 4095) / 4096 := rfl
  have hend : (binaryMapping process.ptr files.binary.filesize).physEnd =
      process.ptr + 4096 * blocksFor files.binary.filesize :=
    pagingAlignAddress_end haligned (by omega)
  have hvirt : (binaryMapping process.ptr files.binary.filesize).virt / 4096 = 0x400 := by
    show marrowosProgramVirtualAddress / 4096 = 0x400
    decide
  have hphys : (binaryMapping process.ptr files.binary.filesize).phys = process.ptr := rfl
  have hv : marrowosProgramVirtualAddress + n = 0x400000 + n := rfl
  have hp : (0x400000 + n) / 4096 < 2 ^ 20 := by omega
  have hcovers : (binaryMapping process.ptr files.binary.filesize).Covers
      ((0x400000 + n) / 4096) := by
    unfold Mapping.Covers
    rw [hend, hvirt, hphys]
    unfold pagesBehind
    omega
  have htarget : (binaryMapping process.ptr files.binary.filesize).target ((0x400000 + n) / 4096) =
      process.ptr + 4096 * (n / 4096) := by
    rw [Mapping.target, hvirt, hphys]
    unfold pagesBehind
    omega
  -- the stack lies below the program
  have hentry : pageAt mem chunk.directoryEntry ((0x400000 + n) / 4096) =
      (process.ptr + 4096 * (n / 4096)) ||| userWritableFlags := by
    rw [hmaps.pages _ hp, hmappings, ← htarget]
    have hpatch : (binaryMapping process.ptr files.binary.filesize).patch ((0x400000 + n) / 4096) =
        some ((binaryMapping process.ptr files.binary.filesize).target ((0x400000 + n) / 4096) |||
          userWritableFlags) := if_pos hcovers
    show overlay _ ([] ++ (binaryMapping process.ptr files.binary.filesize).patch ::
      [(stackMapping process.stack).patch]) _ = _
    apply overlay_of_last hpatch
    intro q hq
    rw [List.mem_singleton.mp hq, Mapping.patch_eq_none, stackMapping_covers_iff hstack hstackLt hp]
    show ¬ (0x3fb ≤ (0x400000 + n) / 4096 ∧ (0x400000 + n) / 4096 < 0x3ff)
    omega
  rw [hv, translate, pageEntry_eq_pageAt, hentry,
    entryAddress_or (by omega) (by omega) userWritableFlags_lt]
  constructor
  · omega
  · exact ⟨or_and_ne_zero (by decide), or_and_ne_zero (by decide), or_and_ne_zero (by decide)⟩

/-- **A flat binary** is in place when it has been loaded. -/
lemma Prepared.binaryInPlace (hfiletype : process.filetype = .binary)
    (hsize : files.binary.filesize ≤ 2 ^ 31) (hdirectory : k'.pageDirectory process = chunk)
    (htasks : k'.tasks = k₁.tasks)
    (hmaps : Maps chunk tables (process.programMappings files.elf ++ [stackMapping process.stack])
      k₁.machine.mem k'.machine.mem) :
    BinaryInPlace files.binary.image files.binary.filesize k' process := by
  have hblock : (⟨process.ptr, files.binary.filesize⟩ : Alloc) ∈
      process.stackBlocks ++ process.programBlocks files.elf.filesize := by
    rw [Process.programBlocks, hfiletype, ← h.size hfiletype]
    exact List.mem_append_right _ (List.mem_singleton_self _)
  refine ⟨hfiletype, ?_, fun n hn => ?_, fun n hn => ?_, h.stackInPlace hdirectory hmaps⟩
  · rw [htasks, h.registers, processElfEntry, hfiletype]
  · rw [hdirectory, byteAt, (h.binary_pages hfiletype hsize hn hmaps).1, hmaps.outside,
      h.binary hfiletype _ (Nat.le_add_right _ _) (Nat.add_lt_add_left hn _),
      Nat.add_sub_cancel_left]
    apply h.not_inTables hblock
    exact Alloc.covers_of_lt (Nat.le_add_right _ _) (Nat.add_lt_add_left hn _)
  · rcases h.binary_pages hfiletype hsize hn hmaps with ⟨-, hpresent, huser, hwritable⟩
    unfold UserAccess UserWrites
    rw [hdirectory]
    exact ⟨⟨hpresent, huser⟩, hwritable⟩

end

/-! ## Loaded programs -/

/-- **An ELF program in its address space**: after a load that succeeds, the segments of a file that
follows the format show the bytes of the file and have the access that is asked for, the stack is
empty, and the task is entered at the entry point. -/
theorem processLoadForSlot_elfInPlace (h : k.Owns live)
    (hformat : ElfFormat files.elf.image files.elf.filesize)
    (hload : processLoadForSlot files slot k = .ok (0, some process, k')) :
    ElfInPlace files.elf.image files.elf.filesize k' process := by
  obtain ⟨k₁, k₂, chunk, tables, hprepared, hmap, hk'⟩ := processLoadForSlot_prepared h hload
  obtain ⟨hdirectory, htasks, hmaps⟩ := hprepared.maps hmap hk'
  have hloads := (loadsElf_iff hformat.header k).mpr hformat.accepted
  rcases hprepared.filetype with ⟨hfiletype, -, -⟩ | ⟨-, hnot⟩
  · exact hprepared.elfInPlace hformat hfiletype hdirectory htasks hmaps
  · exact absurd hloads hnot

lemma oneHeaderFile_image {phdr : Elf32Phdr} :
    (elfHeaderAt (oneHeaderFile phdr).image 0).ePhoff = 52 ∧
      (elfHeaderAt (oneHeaderFile phdr).image 0).ePhnum = 1 := by
  have hheader : 52 ≤ (oneHeaderFile phdr).filesize := by
    rw [oneHeaderFile_filesize]
    norm_num
  rcases elfHeaderAt_oneHeaderFile phdr 0 0 with ⟨-, hphoff, hphnum⟩
  rcases elfHeaderAt_imageView hheader 0 0 with ⟨-, hphoff', hphnum'⟩
  exact ⟨hphoff'.symm.trans hphoff, hphnum'.symm.trans hphnum⟩

/-- A file with one segment follows the format if the segment fits. -/
lemma elfFormat_oneHeaderFile {phdr : Elf32Phdr} (hphdr : phdr.InRange)
    (hsegment : ∀ addr, addr + 4096 ≤ 2 ^ 31 → SegmentsApart [phdr] addr) :
    ElfFormat (oneHeaderFile phdr).image (oneHeaderFile phdr).filesize := by
  have hheader : 52 ≤ (oneHeaderFile phdr).filesize := by
    rw [oneHeaderFile_filesize]
    norm_num
  rcases @oneHeaderFile_image phdr with ⟨hphoff, hphnum⟩
  have hphdrs : filePhdrs (oneHeaderFile phdr).image = [phdr] := by
    rw [filePhdrs, hphoff, hphnum, List.range_one, List.map_singleton, Nat.zero_mul, Nat.add_zero,
      ← @elf32PhdrAt_imageView (oneHeaderFile phdr) 0 52 0 (show 52 + 32 ≤ 84 by norm_num),
      elf32PhdrAt_oneHeaderFile hphdr]
  refine ⟨hheader, ?_, ?_, ?_, fun addr haddr => ?_⟩
  · have hchecks := @elfValidateLoaded_imageView (oneHeaderFile phdr) 0 0 (by omega)
    rw [(elfHeaderAt_oneHeaderFile phdr 0 0).1] at hchecks
    exact hchecks.le
  · rw [hphoff, hphnum]
    show 52 + 1 * 32 ≤ 84
    norm_num
  · rw [oneHeaderFile_filesize]
    norm_num
  · rw [hphdrs]
    exact hsegment addr haddr

/-- A file whose one segment is the file itself. -/
theorem processLoadForSlot_elfInPlace_dataPhdr : ∃ process k',
    processLoadForSlot ⟨oneHeaderFile (dataPhdr 84), oneHeaderFile (dataPhdr 84)⟩ 0 bootKernel =
      .ok (0, some process, k') ∧
    ElfInPlace (oneHeaderFile (dataPhdr 84)).image 84 k' process := by
  have hrange : (dataPhdr 84).InRange := by
    unfold dataPhdr
    exact ⟨by norm_num, by norm_num, by norm_num, by norm_num, by norm_num, by norm_num⟩
  have hsegment : ∀ addr, addr + 4096 ≤ 2 ^ 31 → SegmentsApart [dataPhdr 84] addr := fun _ haddr =>
    segmentsApart_dataPhdr 84 haddr
  obtain ⟨process, k', chunk, tables, hload, -⟩ := processLoadForSlot_oneHeaderFile hrange
    fun addr _ haligned haddr => phdrMapping_valid haligned
      ((hsegment addr haddr).fits _ (List.mem_singleton_self _))
  exact ⟨process, k', hload, processLoadForSlot_elfInPlace bootKernel_owns
    (elfFormat_oneHeaderFile hrange hsegment) hload⟩

/-- **A flat binary in its address space**: after a load that succeeds, a file that is no ELF file
stands at the lowest address for programs, the stack is empty, and the task is entered at the first
byte. -/
theorem processLoadForSlot_binaryInPlace (h : k.Owns live)
    (hsize : files.binary.filesize ≤ 2 ^ 31) (hloads : ¬ LoadsElf files k)
    (hload : processLoadForSlot files slot k = .ok (0, some process, k')) :
    BinaryInPlace files.binary.image files.binary.filesize k' process := by
  obtain ⟨k₁, k₂, chunk, tables, hprepared, hmap, hk'⟩ := processLoadForSlot_prepared h hload
  obtain ⟨hdirectory, htasks, hmaps⟩ := hprepared.maps hmap hk'
  rcases hprepared.filetype with ⟨-, -, hnot⟩ | ⟨hfiletype, -⟩
  · exact absurd hnot hloads
  · exact hprepared.binaryInPlace hfiletype hsize hdirectory htasks hmaps

/-- One byte that returns. -/
theorem processLoadForSlot_binaryInPlace_oneByteFile : ∃ process k',
    processLoadForSlot ⟨oneByteFile, oneByteFile⟩ 0 bootKernel = .ok (0, some process, k') ∧
    BinaryInPlace oneByteFile.image 1 k' process := by
  have hslot : (processGet bootKernel (0 : ℕ)).isNone := rfl
  obtain ⟨process, k', chunk, tables, hload, -⟩ := processLoadForSlot_oneByteFile bootKernel_owns
    hslot ⟨25600, show 24563 + 1037 ≤ 25600 by norm_num, bootKernel_room⟩
  exact ⟨process, k', hload, processLoadForSlot_binaryInPlace bootKernel_owns
    (show oneByteFile.filesize ≤ 2 ^ 31 by decide) (not_loadsElf_oneByteFile bootKernel) hload⟩

end MarrowOS
