import MarrowOS.Loader.ElfLoaderTheorems
import MarrowOS.Memory.NewAddressSpace
import MarrowOS.Task.Mappings
import MarrowOS.Task.TaskListTheorems

/-!
# What loading a process leaves behind

`process_load_for_slot` either builds a process out of blocks that nobody owned, or gives back
everything it took (`processLoadForSlot_owns`). `process_free_process` gives back the blocks of a
process, half-built or whole (`processFreeProcess_owns`).
-/

namespace MarrowOS

open ByteMem CInt Fallible Overlay

variable {k k' : Kernel} {live : List Alloc} {process process' : Process} {file : FileAnswers}
  {files : LoadAnswers} {res : ℤ} {size : ℕ}

/-! ## Reading the file -/

/-- The ways in which a load can fail, apart from a slot that is taken. -/
def LoadError (res : ℤ) : Prop := res = -eio ∨ res = -einvarg ∨ res = -enomem

lemma LoadError.neg (h : LoadError res) : res < 0 := by
  unfold LoadError eio einvarg enomem at h
  omega

lemma LoadError.ne_eistkn (h : LoadError res) : res ≠ -eistkn := by
  unfold LoadError eio einvarg enomem at h
  unfold eistkn
  omega

/-- The blocks of the program: a flat binary, or an ELF image of a given size. -/
def Process.programBlocks (process : Process) (size : ℕ) : List Alloc :=
  match process.filetype, process.elfFile with
  | .binary, _ => [⟨process.ptr, process.size⟩]
  | .elf, some elfFile => [⟨elfFile.elfMemory, size⟩, ⟨elfFile.addr, sizeofElfFile⟩]
  | .elf, none => []

/-- A failure of `process_load_binary` gives back the buffer. -/
lemma processLoadBinaryOut_failed (hres : res < 0) {ptr : ℕ}
    (h : k.Owns (⟨ptr, size⟩ :: live) ∨ (k.Owns live ∧ (ptr = 0 ∨ k.Unowned live ptr))) :
    ∃ k', processLoadBinaryOut file res ptr process k = (res, process, k') ∧ k'.Owns live ∧
      k.Keeps live k' := by
  unfold processLoadBinaryOut
  rcases h with hown | ⟨hown, h0 | hptr⟩
  · have hne : ptr ≠ 0 := (HeapOwns.ptr_pos hown (List.mem_append_right _ List.mem_cons_self)).ne'
    rcases hown.kfree with ⟨hown₁, -, hkeeps⟩
    have hclose := fileHeapOps_owns file.fcloseOps hown₁
    simp only [hres, ne_eq, hne, not_false_eq_true, and_self, if_true]
    exact ⟨_, rfl, hclose.owns, hkeeps.trans hclose.keeps⟩
  · have hclose := fileHeapOps_owns file.fcloseOps hown
    simp only [h0, ne_eq, not_true_eq_false, and_false, if_false]
    exact ⟨_, rfl, hclose.owns, hclose.keeps⟩
  · have hclose := fileHeapOps_owns file.fcloseOps hown
    have hsame : k.withMachine (kfree kernelAllocator ptr k.machine) = k := by
      rw [hown.kfree_unowned hptr]
      rfl
    simp only [hsame, ite_self]
    exact ⟨_, rfl, hclose.owns, hclose.keeps⟩

/-- **`process_load_binary`**. -/
lemma processLoadBinary_owns (h : k.Owns live)
    (hload : processLoadBinary file process k = .ok (res, process', k')) :
    k.Keeps live k' ∧ ((LoadError res ∧ process' = process ∧ k'.Owns live) ∨
      (res = 0 ∧
        ∃ ptr, process' = { process with filetype := .binary, ptr, size := file.filesize } ∧
        k'.Owns (⟨ptr, file.filesize⟩ :: live) ∧ file.LoadedAt ptr k'.machine.mem)) := by
  have hopen := fileHeapOps_owns file.fopenOps h
  unfold processLoadBinary at hload
  generalize fileHeapOps file.fopenOps k = k₁ at hload hopen
  -- every failure leaves through the same exit
  have hfail : ∀ {res' : ℤ} {k₂ : Kernel} {ptr size : ℕ}, LoadError res' →
      k₂.Owns (⟨ptr, size⟩ :: live) ∨ (k₂.Owns live ∧ (ptr = 0 ∨ k₂.Unowned live ptr)) →
      k.Keeps live k₂ → processLoadBinaryOut file res' ptr process k₂ = (res, process', k') →
      k.Keeps live k' ∧ LoadError res ∧ process' = process ∧ k'.Owns live := by
    intro res' k₂ ptr size hres hblocks hkeeps hout
    rcases processLoadBinaryOut_failed hres.neg hblocks with ⟨k₃, heq, hown, hkeeps'⟩
    rcases Prod.mk.inj (heq.symm.trans hout) with ⟨hres', hrest⟩
    rcases Prod.mk.inj hrest with ⟨hprocess, hk'⟩
    subst hres' hk'
    exact ⟨hkeeps.trans hkeeps', hres, hprocess.symm, hown⟩
  -- in front of the buffer there is no pointer to free
  have hnone : ∀ {res' : ℤ}, LoadError res' →
      processLoadBinaryOut file res' 0 process k₁ = (res, process', k') →
      k.Keeps live k' ∧ LoadError res ∧ process' = process ∧ k'.Owns live := fun hres hout =>
    @hfail _ k₁ 0 0 hres (Or.inr ⟨hopen.owns, Or.inl rfl⟩) hopen.keeps hout
  by_cases hfd : file.fd = 0
  · simp only [if_pos hfd] at hload
    exact (hnone (Or.inl rfl) (Except.ok.inj hload)).imp_right Or.inl
  simp only [if_neg hfd] at hload
  cases hstat : file.fstat with
  | eio =>
    rw [hstat] at hload
    exact (hnone (Or.inl rfl) (Except.ok.inj hload)).imp_right Or.inl
  | einvarg =>
    rw [hstat] at hload
    exact (hnone (Or.inr (Or.inl rfl)) (Except.ok.inj hload)).imp_right Or.inl
  | ok filesize =>
  rw [hstat] at hload
  rcases bind_eq_ok.mp hload with ⟨⟨ptr, m₂⟩, hptr, hload⟩
  have hsize : file.filesize = filesize.toNat := by rw [FileAnswers.filesize, hstat]
  rw [← hsize] at hptr
  have hlt : file.filesize < 2 ^ 32 := hsize ▸ filesize.toNat_lt
  rcases hopen.owns.kzalloc hlt hptr with
    ⟨hkeeps₂, ⟨h0, hown₂⟩ | ⟨hzero, hne₂, hun, hown₂⟩ | ⟨hne₂, hpos, hown₂, hfill⟩⟩
  · simp only [if_pos h0] at hload
    have hblocks : (k₁.withMachine m₂).Owns (⟨0, 0⟩ :: live) ∨ ((k₁.withMachine m₂).Owns live ∧
        ((0 : ℕ) = 0 ∨ (k₁.withMachine m₂).Unowned live 0)) := Or.inr ⟨hown₂, Or.inl rfl⟩
    exact (hfail (Or.inr (Or.inr rfl)) hblocks (hopen.keeps.trans hkeeps₂)
      (Except.ok.inj hload)).imp_right Or.inl
  · -- an empty file: the buffer is a block that nobody took, and `fread` refuses
    have hread : file.freadInto ptr m₂.mem = (-einvarg, m₂.mem) := if_pos hzero
    simp only [if_neg hne₂, Kernel.withMachine_machine, hread] at hload
    rw [if_pos (by decide)] at hload
    have hblocks : ((k₁.withMachine m₂).withMem m₂.mem).Owns (⟨ptr, 0⟩ :: live) ∨
        (((k₁.withMachine m₂).withMem m₂.mem).Owns live ∧
          (ptr = 0 ∨ ((k₁.withMachine m₂).withMem m₂.mem).Unowned live ptr)) :=
      Or.inr ⟨hown₂, Or.inr hun⟩
    exact (hfail (Or.inl rfl) hblocks (hopen.keeps.trans hkeeps₂)
      (Except.ok.inj hload)).imp_right Or.inl
  simp only [if_neg hne₂, Kernel.withMachine_machine] at hload
  -- the whole file is read into its own blocks
  have hhead : HeapOwns m₂.heap.heap (⟨ptr, file.filesize⟩ :: (k₁.fileBlocks ++ live)) :=
    HeapOwns.perm hown₂ List.perm_middle
  rcases freadInto_sameOn hpos hhead hfill with ⟨hat, hout⟩
  have hsame : SameOn live k₁.machine.mem (file.freadInto ptr m₂.mem).2 :=
    hout.mono fun b hb => List.mem_append_right _ hb
  have hkeeps₃ : k.Keeps live ((k₁.withMachine m₂).withMem (file.freadInto ptr m₂.mem).2) :=
    hopen.keeps.trans (Kernel.Keeps.withMachine hkeeps₂.pool hsame)
  have hown₃ : ((k₁.withMachine m₂).withMem (file.freadInto ptr m₂.mem).2).Owns
      (⟨ptr, file.filesize⟩ :: live) := hown₂
  by_cases hone : (file.freadInto ptr m₂.mem).1 = 1
  · simp only [ne_eq, hone, not_true_eq_false, if_false] at hload
    have hclose := fileHeapOps_owns file.fcloseOps hown₃
    have hout' : processLoadBinaryOut file 0 ptr
        { process with filetype := .binary, ptr, size := file.filesize }
        ((k₁.withMachine m₂).withMem (file.freadInto ptr m₂.mem).2) =
        (0, { process with filetype := .binary, ptr, size := file.filesize },
          fileHeapOps file.fcloseOps
            ((k₁.withMachine m₂).withMem (file.freadInto ptr m₂.mem).2)) := rfl
    rw [← hsize, hout'] at hload
    rcases ok_triple_inj hload with ⟨hres, hprocess, hk'⟩
    rw [← hk', ← hprocess, ← hres]
    refine ⟨hkeeps₃.trans hclose.keeps.tail, Or.inr ⟨rfl, ptr, rfl, hclose.owns, ?_⟩⟩
    rw [hclose.mem]
    exact hat
  · simp only [ne_eq, hone, not_false_eq_true, if_true] at hload
    exact (hfail (Or.inl rfl) (Or.inl hown₃) hkeeps₃ (Except.ok.inj hload)).imp_right Or.inl

lemma processLoadBinary_tasks
    (hload : processLoadBinary file process k = .ok (res, process', k')) : k'.tasks = k.tasks := by
  have hout : ∀ {res' : ℤ} {ptr : ℕ} {process₁ : Process} {k₁ : Kernel},
      processLoadBinaryOut file res' ptr process₁ k₁ = (res, process', k') →
      k₁.tasks = k.tasks → k'.tasks = k.tasks := by
    intro res' ptr process₁ k₁ heq htasks
    have hk' : (processLoadBinaryOut file res' ptr process₁ k₁).2.2.tasks = k₁.tasks := by
      unfold processLoadBinaryOut
      dsimp only
      rw [fileHeapOps_tasks]
      split_ifs <;> rfl
    rw [heq] at hk'
    exact hk'.trans htasks
  unfold processLoadBinary at hload
  have hopen : (fileHeapOps file.fopenOps k).tasks = k.tasks := fileHeapOps_tasks _ _
  generalize fileHeapOps file.fopenOps k = k₁ at hload hopen
  by_cases hfd : file.fd = 0
  · simp only [if_pos hfd] at hload
    exact hout (Except.ok.inj hload) hopen
  simp only [if_neg hfd] at hload
  cases hstat : file.fstat with
  | eio =>
    rw [hstat] at hload
    exact hout (Except.ok.inj hload) hopen
  | einvarg =>
    rw [hstat] at hload
    exact hout (Except.ok.inj hload) hopen
  | ok filesize =>
  rw [hstat] at hload
  rcases bind_eq_ok.mp hload with ⟨⟨ptr, m₂⟩, -, hload⟩
  dsimp only at hload
  split_ifs at hload
  · exact hout (Except.ok.inj hload) hopen
  · exact hout (Except.ok.inj hload) hopen
  · exact hout (Except.ok.inj hload) hopen

/-- The file was loaded into the process, as an ELF file or, when it is none, as a flat binary. -/
inductive ProgramLoaded (files : LoadAnswers) (live : List Alloc) (k k' : Kernel)
    (process : Process) : Process → Prop
  | elf (f : ElfFile) (loaded : ElfLoaded files.elf live k k' f) :
    ProgramLoaded files live k k' process { process with filetype := .elf, elfFile := some f }
  | binary (ptr : ℕ) (invalid : elfValidateLoaded (elfLoadedHeader files.elf k) < 0)
    (owns : k'.Owns (⟨ptr, files.binary.filesize⟩ :: live)) :
    ProgramLoaded files live k k' process
      { process with filetype := .binary, ptr, size := files.binary.filesize }

lemma ProgramLoaded.owns (h : ProgramLoaded files live k k' process process') :
    k'.Owns (process'.programBlocks files.elf.filesize ++ live) := by
  cases h with
  | elf f loaded => exact loaded.owns
  | binary ptr invalid owns => exact owns

/-- What the load of the file leaves in the process, and sets. -/
lemma ProgramLoaded.fields (h : ProgramLoaded files live k k' process process') :
    process'.addr = process.addr ∧ process'.task = process.task ∧
      process'.allocations = process.allocations ∧
      (process'.filetype = .binary → process'.size = files.binary.filesize) := by
  cases h with
  | elf f loaded => exact ⟨rfl, rfl, rfl, fun hbinary => absurd hbinary (by simp)⟩
  | binary ptr invalid owns => exact ⟨rfl, rfl, rfl, fun _ => rfl⟩

/-- An ELF file lies in its buffer, which belongs to the process. -/
lemma ProgramLoaded.image (h : ProgramLoaded files live k k' process process') {f : ElfFile}
    (hfiletype : process'.filetype = .elf) (helf : process'.elfFile = some f) :
    f.elfMemory = elfImageAddress files.elf k ∧ files.elf.LoadedAt f.elfMemory k'.machine.mem ∧
      ⟨f.elfMemory, files.elf.filesize⟩ ∈ process'.programBlocks files.elf.filesize := by
  cases h with
  | elf f' loaded =>
    rw [← Option.some.inj helf]
    exact ⟨loaded.address, loaded.loaded, List.mem_cons_self⟩
  | binary ptr invalid owns => exact absurd hfiletype (by simp)

/-- The header decides how the file is loaded. -/
lemma ProgramLoaded.filetype (h : ProgramLoaded files live k k' process process') :
    process'.filetype = .elf ∧ process'.elfFile.isSome ∧
        0 ≤ elfValidateLoaded (elfLoadedHeader files.elf k) ∨
      process'.filetype = .binary ∧ ¬ 0 ≤ elfValidateLoaded (elfLoadedHeader files.elf k) := by
  cases h with
  | elf f' loaded => exact Or.inl ⟨rfl, rfl, loaded.valid⟩
  | binary ptr invalid owns => exact Or.inr ⟨rfl, not_le.mpr invalid⟩

/-- **`process_load_data`**. -/
lemma processLoadData_owns (h : k.Owns live)
    (hload : processLoadData files process k = .ok (res, process', k')) :
    k.Keeps live k' ∧ ((LoadError res ∧ process' = process ∧ k'.Owns live) ∨
      (res = 0 ∧ ProgramLoaded files live k k' process process')) := by
  unfold processLoadData processLoadElf at hload
  rcases bind_eq_ok.mp hload with ⟨⟨res₁, process₁, k₁⟩, helf, hload⟩
  rcases bind_eq_ok.mp helf with ⟨⟨res₂, f, k₂⟩, helf, hret⟩
  -- every failure but the refused format is the result
  rcases elfLoad_owns h helf with ⟨hkeeps, ⟨hres, hf, hown⟩ | ⟨hres, f', hf, hloaded⟩⟩
  · have hneg : res₂ < 0 := by
      simp only [eio, einvarg, enomem, einformat] at hres
      omega
    simp only [if_pos hneg] at hret
    rcases ok_triple_inj hret with ⟨hres₁, hprocess₁, hk₁⟩
    subst hres₁ hprocess₁ hk₁
    by_cases hinformat : res₂ = -einformat
    · -- no ELF file: it is read again as a flat binary
      simp only [if_pos hinformat] at hload
      have hinvalid : elfValidateLoaded (elfLoadedHeader files.elf k) < 0 := by
        rcases hres with hres | hres | hres | hres
        · exact absurd (hinformat.symm.trans hres) (by decide)
        · exact absurd (hinformat.symm.trans hres) (by decide)
        · exact absurd (hinformat.symm.trans hres) (by decide)
        · exact hres.2
      rcases processLoadBinary_owns hown hload with
        ⟨hkeeps', hfailed | ⟨hres', ptr, hprocess, hown', -⟩⟩
      · exact ⟨hkeeps.trans hkeeps', Or.inl hfailed⟩
      · subst hprocess
        exact ⟨hkeeps.trans hkeeps', Or.inr ⟨hres', .binary ptr hinvalid hown'⟩⟩
    · simp only [if_neg hinformat] at hload
      rcases ok_triple_inj hload with ⟨hres', hprocess', hk'⟩
      subst hres' hprocess' hk'
      refine ⟨hkeeps, Or.inl ⟨?_, rfl, hown⟩⟩
      rcases hres with hres | hres | hres | hres
      · exact Or.inl hres
      · exact Or.inr (Or.inl hres)
      · exact Or.inr (Or.inr hres)
      · exact absurd hres.1 hinformat
  · subst hres hf
    simp only [lt_irrefl, if_false] at hret
    rcases ok_triple_inj hret with ⟨hres₁, hprocess₁, hk₁⟩
    subst hres₁ hprocess₁ hk₁
    simp only [if_neg (show ¬ (0 : ℤ) = -einformat by decide)] at hload
    rcases ok_triple_inj hload with ⟨hres', hprocess', hk'⟩
    subst hres' hprocess' hk'
    exact ⟨hkeeps, Or.inr ⟨rfl, .elf f' hloaded⟩⟩

/-- Reading the file leaves the tasks alone. -/
lemma processLoadData_tasks (hload : processLoadData files process k = .ok (res, process', k')) :
    k'.tasks = k.tasks := by
  unfold processLoadData processLoadElf at hload
  rcases bind_eq_ok.mp hload with ⟨⟨res₁, process₁, k₁⟩, helf, hload⟩
  rcases bind_eq_ok.mp helf with ⟨⟨res₂, f, k₂⟩, helf, hret⟩
  have helf' := elfLoad_tasks helf
  have hk₁ : k₁ = k₂ := by
    dsimp only at hret
    split_ifs at hret
    · exact (Prod.mk.inj (Prod.mk.inj (Except.ok.inj hret)).2).2.symm
    · exact (Prod.mk.inj (Prod.mk.inj (Except.ok.inj hret)).2).2.symm
  rw [← hk₁] at helf'
  dsimp only at hload
  split_ifs at hload
  · exact (processLoadBinary_tasks hload).trans helf'
  · rw [← (Prod.mk.inj (Prod.mk.inj (Except.ok.inj hload)).2).2]
    exact helf'

/-! ## The task -/

lemma TaskList.setNext_task (s : TaskList) (a x t : ℕ) :
    ((s.setNext a x).tasks t).process = (s.tasks t).process ∧
    ((s.setNext a x).tasks t).pageDirectory = (s.tasks t).pageDirectory := by
  unfold TaskList.setNext TaskList.write
  dsimp only
  rw [Function.update_apply]
  split_ifs with ht
  · rw [ht]
    exact ⟨rfl, rfl⟩
  · exact ⟨rfl, rfl⟩

lemma TaskList.setPrev_task (s : TaskList) (a x t : ℕ) :
    ((s.setPrev a x).tasks t).process = (s.tasks t).process ∧
    ((s.setPrev a x).tasks t).pageDirectory = (s.tasks t).pageDirectory := by
  unfold TaskList.setPrev TaskList.write
  dsimp only
  rw [Function.update_apply]
  split_ifs with ht
  · rw [ht]
    exact ⟨rfl, rfl⟩
  · exact ⟨rfl, rfl⟩

/-- A new task is linked: only its own structure gets a process and a page directory. -/
lemma taskNewLink_task (task : ℕ) (chunk : Paging4gbChunk) (registers : Registers) (addr : ℕ)
    (s : TaskList) (t : ℕ) :
    ((taskNewLink task chunk registers addr s).tasks t).process =
      (if t = task then addr else (s.tasks t).process) ∧
    ((taskNewLink task chunk registers addr s).tasks t).pageDirectory =
      (if t = task then chunk else (s.tasks t).pageDirectory) := by
  have hwrite : ∀ x : Task, (s.write task x).tasks t = if t = task then x else s.tasks t :=
    fun x => Function.update_apply _ _ _ _
  unfold taskNewLink
  dsimp only
  rw [TaskList.write_taskHead]
  by_cases hhead : s.taskHead = 0
  · rw [if_pos hhead]
    dsimp only
    rw [hwrite]
    constructor <;> split_ifs <;> rfl
  · rw [if_neg hhead]
    dsimp only
    rw [(TaskList.setPrev_task _ _ _ t).1, (TaskList.setPrev_task _ _ _ t).2,
      (TaskList.setNext_task _ _ _ t).1, (TaskList.setNext_task _ _ _ t).2, hwrite]
    constructor <;> split_ifs <;> rfl

/-- Removing a task changes links only. -/
lemma taskListRemove_task (task : ℕ) (s : TaskList) (t : ℕ) :
    ((taskListRemove task s).tasks t).process = (s.tasks t).process ∧
    ((taskListRemove task s).tasks t).pageDirectory = (s.tasks t).pageDirectory := by
  rw [taskListRemove_tasks]
  unfold taskListMendNext
  split_ifs
  · exact TaskList.setNext_task s _ _ t
  · exact ⟨rfl, rfl⟩

/-- What `task_new` leaves: the task, with an address space in which every page is mapped to
itself. -/
structure TaskMade (live : List Alloc) (k' : Kernel) (addr task : ℕ) (chunk : Paging4gbChunk)
    (tables : List ℕ) : Prop where
  owns : k'.Owns (spaceAllocs chunk tables ++ ⟨task, sizeofTask⟩ :: live)
  process : (k'.tasks.tasks task).process = addr
  pageDirectory : (k'.tasks.tasks task).pageDirectory = chunk
  space : AddressSpace k'.machine.mem chunk.directoryEntry tables
  identity : ∀ p < 2 ^ 20, pageAt k'.machine.mem chunk.directoryEntry p =
    4096 * p ||| (pagingIsPresent ||| pagingAccessFromAll)

/-- The new task is linked at the end of the list. -/
lemma taskNew_tasks {task : ℕ} (hnew : taskNew file process k = .ok (task, k')) :
    ∃ chunk registers, k'.tasks = taskNewLink task chunk registers process.addr k.tasks := by
  unfold taskNew at hnew
  rcases bind_eq_ok.mp hnew with ⟨⟨task', m₁⟩, -, hnew⟩
  by_cases h0 : task' = 0
  · simp [h0] at hnew
  simp only [if_neg h0] at hnew
  rcases bind_eq_ok.mp hnew with ⟨⟨chunk, m₂⟩, -, hnew⟩
  rcases Prod.mk.inj (Except.ok.inj hnew) with ⟨htask, hk'⟩
  refine ⟨chunk, taskInitRegisters (processElfEntry file process m₂.mem), ?_⟩
  rw [← hk', ← htask]

/-- **`task_new`**. -/
lemma taskNew_owns {task : ℕ} (h : k.Owns live)
    (hnew : taskNew file process k = .ok (task, k')) :
    k.Keeps live k' ∧ ∃ chunk tables, TaskMade live k' process.addr task chunk tables := by
  unfold taskNew at hnew
  rcases bind_eq_ok.mp hnew with ⟨⟨task', m₁⟩, htask, hnew⟩
  rcases h.kzalloc (by norm_num) htask with ⟨hkeeps₁, ⟨h0, -⟩ | ⟨h0, -⟩ | ⟨hne, -, hown₁, -⟩⟩
  · simp [h0] at hnew
  · exact absurd h0 (by norm_num)
  simp only [if_neg hne] at hnew
  rcases bind_eq_ok.mp hnew with ⟨⟨chunk, m₂⟩, hchunk, hnew⟩
  rcases Prod.mk.inj (Except.ok.inj hnew) with ⟨htask', hk'⟩
  subst htask'
  rcases pagingNew4gb_owns hown₁ (by decide) hchunk with ⟨tables, hspace⟩
  have htasks : k'.tasks = taskNewLink task' chunk
      (taskInitRegisters (processElfEntry file process m₂.mem)) process.addr k.tasks := by
    rw [← hk']
  have hmachine : k'.machine = m₂ := by rw [← hk']; rfl
  have hfile : k'.fileBlocks = k.fileBlocks := by rw [← hk']; rfl
  -- the blocks of the address space go behind those of the file layer
  have hperm : (spaceAllocs chunk tables ++ (k.fileBlocks ++ ⟨task', sizeofTask⟩ :: live)).Perm
      (k.fileBlocks ++ (spaceAllocs chunk tables ++ ⟨task', sizeofTask⟩ :: live)) :=
    List.perm_append_comm_assoc _ _ _
  have hown : k'.Owns (spaceAllocs chunk tables ++ ⟨task', sizeofTask⟩ :: live) := by
    unfold Kernel.Owns
    rw [hmachine, hfile]
    exact hspace.owns.perm hperm
  -- the new task has a block of its own
  have hfresh : ∀ t, ⟨t, sizeofTask⟩ ∈ live → t ≠ task' := by
    rintro t ht rfl
    have hapart := (List.pairwise_append.mp (HeapOwns.apart hown₁)).2.1
    have hlen : 0 < (m₁.heap.heap.extent ⟨t, sizeofTask⟩).len := blocksFor_pos (by norm_num)
    exact (List.pairwise_cons.mp hapart).1 _ ht _ (Extents.Extent.has_start hlen)
      (Extents.Extent.has_start hlen)
  refine ⟨⟨?_, ?_, ?_, ?_⟩, chunk, tables, hown, ?_, ?_, ?_, ?_⟩
  · rw [hmachine]
    exact hkeeps₁.pool.trans hspace.pool
  · rw [hmachine]
    refine hkeeps₁.same.trans (hspace.same.mono fun b hb => ?_)
    exact List.mem_append_right _ (List.mem_cons_of_mem _ hb)
  · intro t ht
    rw [htasks, (taskNewLink_task _ _ _ _ _ t).1, (taskNewLink_task _ _ _ _ _ t).2,
      if_neg (hfresh t ht), if_neg (hfresh t ht)]
    exact ⟨rfl, rfl⟩
  · rw [← hk']
    rfl
  · rw [htasks, (taskNewLink_task _ _ _ _ _ task').1, if_pos rfl]
  · rw [htasks, (taskNewLink_task _ _ _ _ _ task').2, if_pos rfl]
  · rw [hmachine]
    exact hspace.space
  · rw [hmachine]
    exact hspace.identity

/-! ## Freeing -/

variable {chunk : Paging4gbChunk} {tables : List ℕ}

/-- The blocks of the stack, if there is one. -/
def Process.stackBlocks (process : Process) : List Alloc :=
  if process.stack = 0 then [] else [⟨process.stack, marrowosUserProgramStackSize⟩]

/-- The blocks of the task, if there is one. -/
def Process.taskBlocks (process : Process) (chunk : Paging4gbChunk) (tables : List ℕ) :
    List Alloc :=
  if process.task = 0 then [] else spaceAllocs chunk tables ++ [⟨process.task, sizeofTask⟩]

/-- The blocks of a process that has allocated nothing. -/
def Process.blocks (process : Process) (size : ℕ) (chunk : Paging4gbChunk) (tables : List ℕ) :
    List Alloc :=
  process.taskBlocks chunk tables ++ (process.stackBlocks ++ (process.programBlocks size ++
    [⟨process.addr, sizeofProcess⟩]))

lemma Process.stackBlocks_subset {a : Alloc} (ha : a ∈ process.stackBlocks) :
    a ∈ process.blocks size chunk tables := by
  apply List.mem_append_right
  exact List.mem_append_left _ ha

lemma Process.programBlocks_subset {a : Alloc} (ha : a ∈ process.programBlocks size) :
    a ∈ process.blocks size chunk tables := by
  apply List.mem_append_right
  apply List.mem_append_right
  exact List.mem_append_left _ ha

/-- Without allocations there is none to free. -/
lemma processTerminateAllocations_none (h : ∀ e ∈ process.allocations, e.ptr = 0) :
    processTerminateAllocations process k = (process, k) := by
  unfold processTerminateAllocations
  apply List.foldl_fixed'
  intro i
  have hptr : (process.allocations.getD i ⟨0, 0⟩).ptr = 0 := by
    rw [List.getD_eq_getElem?_getD]
    cases hi : process.allocations[i]? with
    | none => rfl
    | some e => exact h e (List.mem_of_getElem? hi)
  unfold processTerminateAllocation
  dsimp only
  rw [hptr, if_neg (not_not.mpr rfl)]

lemma processFreeProgramData_owns (h : k.Owns (process.programBlocks size ++ live)) :
    (k.withMachine (processFreeProgramData process k.machine)).Owns live ∧
    k.Keeps live (k.withMachine (processFreeProgramData process k.machine)) := by
  unfold processFreeProgramData
  unfold Process.programBlocks at h
  cases hfiletype : process.filetype with
  | binary =>
    rw [hfiletype] at h
    have hne : process.ptr ≠ 0 :=
      (HeapOwns.ptr_pos h (List.mem_append_right _ List.mem_cons_self)).ne'
    rcases Kernel.Owns.kfree h with ⟨hown, -, hkeeps⟩
    simp only [if_pos hne]
    exact ⟨hown, hkeeps⟩
  | elf =>
    rw [hfiletype] at h
    cases helf : process.elfFile with
    | none =>
      rw [helf] at h
      exact ⟨h, Kernel.Keeps.refl live k⟩
    | some f =>
      rw [helf] at h
      have hblocks : ElfBlocks k live f size := Or.inl h
      rcases elfClose_owns hblocks with ⟨hkeeps, hown⟩
      exact ⟨hown, hkeeps⟩

/-- **`task_free`** gives back the task and its address space. -/
lemma taskFree_owns {task : ℕ} (h : k.Owns (spaceAllocs chunk tables ++ ⟨task, sizeofTask⟩ :: live))
    (hchunk : (k.tasks.tasks task).pageDirectory = chunk)
    (hspace : AddressSpace k.machine.mem chunk.directoryEntry tables) :
    (taskFree task k).Owns live ∧ k.Keeps live (taskFree task k) := by
  have hperm : (k.fileBlocks ++ (spaceAllocs chunk tables ++ ⟨task, sizeofTask⟩ :: live)).Perm
      (spaceAllocs chunk tables ++ (k.fileBlocks ++ ⟨task, sizeofTask⟩ :: live)) :=
    List.perm_append_comm_assoc _ _ _
  have hfree := pagingFree4gb_owns (HeapOwns.perm h hperm) hspace
  unfold taskFree
  rw [hchunk]
  generalize pagingFree4gb kernelAllocator chunk k.machine = m at hfree
  rcases hfree with ⟨hown, hmem, hpool⟩
  have hown' : ({ k.withMachine m with tasks := taskListRemove task k.tasks } : Kernel).Owns
      (⟨task, sizeofTask⟩ :: live) := hown
  rcases hown'.kfree with ⟨hown'', -, hkeeps⟩
  refine ⟨hown'', Kernel.Keeps.trans ?_ hkeeps⟩
  refine ⟨hpool, ?_, fun t _ => taskListRemove_task task k.tasks t, rfl⟩
  show SameOn live k.machine.mem m.mem
  rw [hmem]
  exact SameOn.refl _ _

/-- **`process_free_process`** gives back the blocks of a process that has allocated nothing. -/
theorem processFreeProcess_owns (h : k.Owns (process.blocks size chunk tables ++ live))
    (hallocations : ∀ e ∈ process.allocations, e.ptr = 0)
    (hchunk : process.task ≠ 0 → (k.tasks.tasks process.task).pageDirectory = chunk ∧
      AddressSpace k.machine.mem chunk.directoryEntry tables) :
    (processFreeProcess process k).Owns live ∧ k.Keeps live (processFreeProcess process k) := by
  unfold processFreeProcess
  rw [processTerminateAllocations_none hallocations]
  dsimp only
  -- the program
  have hperm : (process.blocks size chunk tables ++ live).Perm (process.programBlocks size ++
      (process.stackBlocks ++ (process.taskBlocks chunk tables ++
        ⟨process.addr, sizeofProcess⟩ :: live))) := by
    unfold Process.blocks
    simp only [List.append_assoc, List.singleton_append]
    -- last taken, first freed: only the program comes before the stack
    refine (List.perm_append_comm_assoc _ _ _).trans ?_
    refine (List.Perm.append_left _ (List.perm_append_comm_assoc _ _ _)).trans ?_
    exact List.perm_append_comm_assoc _ _ _
  rcases processFreeProgramData_owns (h.perm hperm) with ⟨hown₁, hkeeps₁⟩
  have hspace₁ : process.task ≠ 0 → (k.tasks.tasks process.task).pageDirectory = chunk ∧
      AddressSpace (processFreeProgramData process k.machine).mem chunk.directoryEntry tables := by
    intro htask
    have hmem : ∀ x : ℕ, (processFreeProgramData process k.machine).mem x = k.machine.mem x := by
      intro x
      unfold processFreeProgramData elfClose
      cases process.filetype with
      | binary => dsimp only; split_ifs <;> rfl
      | elf =>
        cases process.elfFile with
        | none => rfl
        | some f => dsimp only; split_ifs <;> rfl
    exact ⟨(hchunk htask).1, (hchunk htask).2.congr fun x _ _ => hmem x⟩
  generalize processFreeProgramData process k.machine = m₁ at hown₁ hkeeps₁ hspace₁
  -- the stack
  have hstack : ∀ k₂ : Kernel, (if process.stack ≠ 0 then (k.withMachine m₁).withMachine
      (kfree kernelAllocator process.stack (k.withMachine m₁).machine) else k.withMachine m₁) = k₂ →
      k₂.Owns (process.taskBlocks chunk tables ++ ⟨process.addr, sizeofProcess⟩ :: live) ∧
      (k.withMachine m₁).Keeps live k₂ ∧ k₂.tasks = k.tasks ∧ k₂.machine.mem = m₁.mem := by
    rintro k₂ rfl
    unfold Process.stackBlocks at hown₁
    by_cases h0 : process.stack = 0
    · rw [if_pos h0] at hown₁
      rw [if_neg (not_not.mpr h0)]
      exact ⟨hown₁, Kernel.Keeps.refl live _, rfl, rfl⟩
    · rw [if_neg h0] at hown₁
      rw [if_pos h0]
      rcases Kernel.Owns.kfree hown₁ with ⟨hown₂, -, hkeeps₂⟩
      refine ⟨hown₂, hkeeps₂.mono fun b hb => ?_, rfl, rfl⟩
      show b ∈ process.taskBlocks chunk tables ++ ⟨process.addr, sizeofProcess⟩ :: live
      exact List.mem_append_right _ (List.mem_cons_of_mem _ hb)
  rcases hstack _ rfl with ⟨hown₂, hkeeps₂, htasks₂, hmem₂⟩
  generalize (if process.stack ≠ 0 then (k.withMachine m₁).withMachine
    (kfree kernelAllocator process.stack (k.withMachine m₁).machine) else k.withMachine m₁) = k₂
    at hown₂ hkeeps₂ htasks₂ hmem₂ ⊢
  -- the task
  have htask : (if process.task ≠ 0 then taskFree process.task k₂ else k₂).Owns
      (⟨process.addr, sizeofProcess⟩ :: live) ∧
      k₂.Keeps live (if process.task ≠ 0 then taskFree process.task k₂ else k₂) := by
    unfold Process.taskBlocks at hown₂
    by_cases h0 : process.task = 0
    · rw [if_pos h0] at hown₂
      rw [if_neg (not_not.mpr h0)]
      exact ⟨hown₂, Kernel.Keeps.refl live k₂⟩
    · rw [if_neg h0, List.append_assoc] at hown₂
      rw [if_pos h0]
      rcases hspace₁ h0 with ⟨hdirectory, hspace⟩
      rw [← htasks₂] at hdirectory
      rw [← hmem₂] at hspace
      rcases taskFree_owns hown₂ hdirectory hspace with ⟨hown₃, hkeeps₃⟩
      exact ⟨hown₃, hkeeps₃.tail⟩
  generalize (if process.task ≠ 0 then taskFree process.task k₂ else k₂) = k₃ at htask ⊢
  rcases htask with ⟨hown₃, hkeeps₃⟩
  rcases hown₃.kfree with ⟨hown₄, -, hkeeps₄⟩
  refine ⟨hown₄, ?_⟩
  have hkeeps₁' : k.Keeps live (k.withMachine m₁) := hkeeps₁.mono fun b hb =>
    List.mem_append_right _ (List.mem_append_right _ (List.mem_cons_of_mem _ hb))
  exact ((hkeeps₁'.trans hkeeps₂).trans hkeeps₃).trans hkeeps₄

lemma processFree_tasks (process : Process) (ptr : ℕ) (k : Kernel) :
    (processFree process ptr k).2.tasks = k.tasks ∧
      (processFree process ptr k).1.task = process.task := by
  unfold processFree
  cases processGetAllocationByAddr process ptr with
  | none => exact ⟨rfl, rfl⟩
  | some allocation =>
    simp only
    split <;> exact ⟨rfl, rfl⟩

lemma processTerminateAllocations_tasks (process : Process) (k : Kernel) :
    (processTerminateAllocations process k).2.tasks = k.tasks ∧
      (processTerminateAllocations process k).1.task = process.task := by
  have hfold : ∀ (l : List ℕ) (s : Process × Kernel),
      (l.foldl processTerminateAllocation s).2.tasks = s.2.tasks ∧
        (l.foldl processTerminateAllocation s).1.task = s.1.task := by
    intro l
    induction l with
    | nil => exact fun s => ⟨rfl, rfl⟩
    | cons i l ih =>
      intro s
      rcases ih (processTerminateAllocation s i) with ⟨htasks, htask⟩
      rw [List.foldl_cons, htasks, htask]
      simp only [processTerminateAllocation]
      split_ifs
      · exact processFree_tasks _ _ _
      · exact ⟨rfl, rfl⟩
  unfold processTerminateAllocations
  apply hfold

lemma taskFree_tasks (task : ℕ) (k : Kernel) :
    (taskFree task k).tasks = taskListRemove task k.tasks := by
  unfold taskFree
  generalize pagingFree4gb kernelAllocator (k.tasks.tasks task).pageDirectory k.machine = m
  rfl

/-- Of the task list, `process_free_process` removes the task of the process. -/
lemma processFreeProcess_tasks (process : Process) (k : Kernel) :
    (processFreeProcess process k).tasks =
      if process.task = 0 then k.tasks else taskListRemove process.task k.tasks := by
  rcases processTerminateAllocations_tasks process k with ⟨htasks, htask⟩
  unfold processFreeProcess
  generalize processTerminateAllocations process k = s at htasks htask
  rcases s with ⟨process', k'⟩
  simp only at htasks htask
  rw [← htask, ← htasks]
  dsimp only
  rw [Kernel.withMachine_tasks]
  by_cases h0 : process'.task = 0
  · rw [if_pos h0, if_neg (not_not.mpr h0)]
    split <;> rfl
  · rw [if_neg h0, if_pos h0, taskFree_tasks]
    split <;> rfl

/-! ## Loading -/

/-- The kernel when `process_load_data` is called. -/
def processKernel (k : Kernel) : Kernel :=
  match kzalloc kernelAllocator sizeofProcess k.machine with
  | .error _ => k
  | .ok (_, m) => k.withMachine m

/-- Where a file is loaded to find out whether it is an ELF file. -/
def loadAddress (files : LoadAnswers) (k : Kernel) : ℕ :=
  elfImageAddress files.elf (processKernel k)

/-- The file is accepted as an ELF file. -/
def LoadsElf (files : LoadAnswers) (k : Kernel) : Prop :=
  0 ≤ elfValidateLoaded (elfLoadedHeader files.elf (processKernel k))

/-- The stack is in blocks of the kernel's heap. -/
lemma Kernel.Owns.stack_address {size : ℕ} (h : k.Owns (process.blocks size chunk tables ++ live))
    (hstack : process.stack ≠ 0) :
    process.stack % 4096 = 0 ∧ process.stack + 4096 ≤ 2 ^ 31 := by
  have hmem : (⟨process.stack, marrowosUserProgramStackSize⟩ : Alloc) ∈
      k.fileBlocks ++ (process.blocks size chunk tables ++ live) := by
    apply List.mem_append_right
    apply List.mem_append_left
    apply Process.stackBlocks_subset
    rw [Process.stackBlocks, if_neg hstack]
    exact List.mem_singleton_self _
  exact ⟨HeapOwns.ptr_aligned h hmem, HeapOwns.ptr_lt h hmem⟩

/-- What `process_load_for_slot` leaves when it succeeds. -/
structure ProcessLoaded (files : LoadAnswers) (slot : ℕ) (live : List Alloc) (k k' : Kernel)
    (process : Process) (chunk : Paging4gbChunk) (tables : List ℕ) : Prop where
  owns : k'.Owns (process.blocks files.elf.filesize chunk tables ++ live)
  keeps : k.Keeps live { k' with processes := k.processes }
  processes : k'.processes = k.processes.set slot (some process)
  id : process.id = slot
  allocations : process.allocations = List.replicate marrowosMaxProgramAllocation ⟨0, 0⟩
  stack : process.stack ≠ 0
  task : process.task ≠ 0
  taskProcess : (k'.tasks.tasks process.task).process = process.addr
  pageDirectory : (k'.tasks.tasks process.task).pageDirectory = chunk
  elf : ∀ f, process.filetype = .elf → process.elfFile = some f →
    f.elfMemory = loadAddress files k
  filetype : process.filetype = .elf ∧ process.elfFile.isSome ∧ LoadsElf files k ∨
    process.filetype = .binary ∧ ¬ LoadsElf files k
  space : AddressSpace k'.machine.mem chunk.directoryEntry tables
  valid : ∀ m ∈ process.programMappings files.elf ++ [stackMapping process.stack], m.Valid
  pages : ∀ p < 2 ^ 20, pageAt k'.machine.mem chunk.directoryEntry p = overlay
    (fun p => 4096 * p ||| (pagingIsPresent ||| pagingAccessFromAll))
    ((process.programMappings files.elf ++ [stackMapping process.stack]).map Mapping.patch) p

lemma Process.blocks_append : process.blocks size chunk tables ++ live =
    process.taskBlocks chunk tables ++ (process.stackBlocks ++ (process.programBlocks size ++
      ⟨process.addr, sizeofProcess⟩ :: live)) := by
  simp [Process.blocks]

lemma processInit_allocations (addr : ℕ) : ∀ e ∈ (processInit addr).allocations, e.ptr = 0 := by
  intro e he
  rw [List.eq_of_mem_replicate he]

/-- The stack can be mapped: its end lies in the address space. -/
lemma stackMapping_valid {heap : Heap} {stack : ℕ} (h : HeapOwns heap live)
    (hstack : ⟨stack, marrowosUserProgramStackSize⟩ ∈ live) : (stackMapping stack).Valid := by
  have haligned : stack % 4096 = 0 := h.ptr_aligned hstack
  have hlt : stack + 4096 ≤ 2 ^ 31 := h.ptr_lt hstack
  have hblocks : blocksFor marrowosUserProgramStackSize = 4 := by decide
  have hend := @pagingAlignAddress_end stack marrowosUserProgramStackSize haligned
    (by rw [hblocks]; omega)
  rw [hblocks] at hend
  unfold stackMapping Mapping.Valid MapsTo
  dsimp only
  rw [hend]
  refine ⟨by norm_num, haligned, by omega, by omega⟩

/-- What `process_load_for_slot` leaves when it fails. -/
structure LoadFailed (live : List Alloc) (k k' : Kernel) (res : ℤ) (loaded : Option Process) :
    Prop where
  error : LoadError res
  loaded : loaded = none
  owns : k'.Owns live
  keeps : k.Keeps live k'

lemma processLoadFailed_owns {k₁ : Kernel} {loaded : Option Process} (hres : LoadError res)
    (h : k₁.Owns (process.blocks size chunk tables ++ live))
    (hallocations : ∀ e ∈ process.allocations, e.ptr = 0)
    (hchunk : process.task ≠ 0 → (k₁.tasks.tasks process.task).pageDirectory = chunk ∧
      AddressSpace k₁.machine.mem chunk.directoryEntry tables)
    (hkeeps : k.Keeps live k₁) {res' : ℤ}
    (hfailed : processLoadFailed res process k₁ = (res', loaded, k')) :
    LoadFailed live k k' res' loaded := by
  rcases processFreeProcess_owns h hallocations hchunk with ⟨hown, hkeeps'⟩
  unfold processLoadFailed at hfailed
  generalize processFreeProcess process k₁ = k₂ at hfailed hown hkeeps'
  rcases Prod.mk.inj hfailed with ⟨hres', hrest⟩
  rcases Prod.mk.inj hrest with ⟨hloaded, hk'⟩
  subst hres' hk'
  exact ⟨hres, hloaded.symm, hown, hkeeps.trans hkeeps'⟩

/-- Without a task the list is left alone. -/
lemma processLoadFailed_tasks {k₁ : Kernel} {loaded : Option Process} {res' : ℤ}
    (hfailed : processLoadFailed res process k₁ = (res', loaded, k')) (htask : process.task = 0) :
    k'.tasks = k₁.tasks := by
  have htasks := processFreeProcess_tasks process k₁
  rw [if_pos htask] at htasks
  rw [← htasks, ← (Prod.mk.inj (Prod.mk.inj hfailed).2).2]

/-- What `process_load_for_slot` has made when it comes to `process_map_memory`: the process with
all its blocks, and an address space in which every page is mapped to itself. -/
structure ReadyToMap (files : LoadAnswers) (slot : ℕ) (live : List Alloc) (k k' : Kernel)
    (process : Process) (chunk : Paging4gbChunk) (tables : List ℕ) : Prop where
  owns : k'.Owns (process.blocks files.elf.filesize chunk tables ++ live)
  keeps : k.Keeps live k'
  id : process.id = slot
  allocations : process.allocations = List.replicate marrowosMaxProgramAllocation ⟨0, 0⟩
  stack : process.stack ≠ 0
  task : process.task ≠ 0
  taskProcess : (k'.tasks.tasks process.task).process = process.addr
  pageDirectory : (k'.tasks.tasks process.task).pageDirectory = chunk
  elf : ∀ f, process.filetype = .elf → process.elfFile = some f →
    f.elfMemory = loadAddress files k
  filetype : process.filetype = .elf ∧ process.elfFile.isSome ∧ LoadsElf files k ∨
    process.filetype = .binary ∧ ¬ LoadsElf files k
  size : process.filetype = .binary → process.size = files.binary.filesize
  space : AddressSpace k'.machine.mem chunk.directoryEntry tables
  identity : ∀ p < 2 ^ 20, pageAt k'.machine.mem chunk.directoryEntry p =
    4096 * p ||| (pagingIsPresent ||| pagingAccessFromAll)
  image : ∀ f, process.filetype = .elf → process.elfFile = some f →
    files.elf.LoadedAt f.elfMemory k'.machine.mem ∧
    ∀ x, f.elfMemory ≤ x → x < f.elfMemory + files.elf.filesize → ¬ InTables tables x
  outside : ∀ b ∈ live, ∀ x, b.Covers x → ¬ InTables tables x
  stackValid : (stackMapping process.stack).Valid
  tasks : ∃ chunk registers,
    k'.tasks = taskNewLink process.task chunk registers process.addr k.tasks

/-- The steps of `process_load_for_slot` up to the mappings. -/
lemma readyToMap {slot addr stack task : ℕ} {m₁ m₃ : Machine KernelHeap} {process₂ : Process}
    {k₂ k₄ : Kernel} (h : k.Owns live)
    (haddr : kzalloc kernelAllocator sizeofProcess k.machine = .ok (addr, m₁)) (hne : addr ≠ 0)
    (hdata : processLoadData files (processInit addr) (k.withMachine m₁) = .ok (0, process₂, k₂))
    (hstack : kzalloc kernelAllocator marrowosUserProgramStackSize k₂.machine = .ok (stack, m₃))
    (hne₃ : stack ≠ 0)
    (htask : taskNew files.elf { process₂ with stack, id := slot } (k₂.withMachine m₃) =
      .ok (task, k₄)) :
    task + 4096 ≤ 2 ^ 31 ∧ ∃ chunk tables, ReadyToMap files slot live k k₄
      { process₂ with stack, id := slot, task } chunk tables := by
  rcases h.kzalloc (by norm_num) haddr with ⟨hkeeps₁, ⟨h0, -⟩ | ⟨h0, -⟩ | ⟨-, -, hown₁, -⟩⟩
  · exact absurd h0 hne
  · exact absurd h0 (by norm_num)
  have hkernel : processKernel k = k.withMachine m₁ := by
    unfold processKernel
    rw [haddr]
  rcases processLoadData_owns hown₁ hdata with ⟨hkeeps₂, ⟨hres₂, -⟩ | ⟨-, hprogram⟩⟩
  · exact absurd hres₂.neg (lt_irrefl 0)
  have htasks₂ := processLoadData_tasks hdata
  have hown₂ := hprogram.owns
  have himage : ∀ f, process₂.filetype = .elf → process₂.elfFile = some f →
      f.elfMemory = loadAddress files k ∧ files.elf.LoadedAt f.elfMemory k₂.machine.mem ∧
      ⟨f.elfMemory, files.elf.filesize⟩ ∈ process₂.programBlocks files.elf.filesize := by
    rw [loadAddress, hkernel]
    exact fun f => hprogram.image
  have hfiletype : process₂.filetype = .elf ∧ process₂.elfFile.isSome ∧ LoadsElf files k ∨
      process₂.filetype = .binary ∧ ¬ LoadsElf files k := by
    rw [LoadsElf, hkernel]
    exact hprogram.filetype
  rcases hprogram.fields with ⟨haddr₂, -, hallocations₂, hsize₂⟩
  have haddr₂ : process₂.addr = addr := haddr₂
  rw [← haddr₂] at hown₁ hown₂ hkeeps₂
  -- the stack
  have hkeeps₁₂ := hkeeps₁.trans hkeeps₂.tail
  rcases hown₂.kzalloc (by norm_num) hstack with
    ⟨hkeeps₃, ⟨h0, -⟩ | ⟨h0, -⟩ | ⟨-, -, hown₃, -⟩⟩
  · exact absurd h0 hne₃
  · exact absurd h0 (by norm_num)
  -- the task
  rcases taskNew_owns hown₃ htask with ⟨hkeeps₄, chunk, tables, hmade⟩
  have htasks := taskNew_tasks htask
  rw [Kernel.withMachine_tasks, htasks₂, Kernel.withMachine_tasks] at htasks
  have htaskAlloc : ⟨task, sizeofTask⟩ ∈ k₄.fileBlocks ++ (spaceAllocs chunk tables ++
      ⟨task, sizeofTask⟩ :: ⟨stack, marrowosUserProgramStackSize⟩ ::
        (process₂.programBlocks files.elf.filesize ++ ⟨process₂.addr, sizeofProcess⟩ :: live)) :=
    List.mem_append_right _ (List.mem_append_right _ List.mem_cons_self)
  have htaskPos : task ≠ 0 := (HeapOwns.ptr_pos hmade.owns htaskAlloc).ne'
  have hblocks : k₄.Owns (({ process₂ with stack, id := slot, task } : Process).blocks
      files.elf.filesize chunk tables ++ live) := by
    rw [Process.blocks_append, Process.taskBlocks, Process.stackBlocks, if_neg htaskPos,
      if_neg hne₃, List.append_assoc]
    exact hmade.owns
  have hlive : ∀ b ∈ live, b ∈ ⟨stack, marrowosUserProgramStackSize⟩ ::
      (process₂.programBlocks files.elf.filesize ++ ⟨process₂.addr, sizeofProcess⟩ :: live) :=
    fun b hb => List.mem_cons_of_mem _ (List.mem_append_right _ (List.mem_cons_of_mem _ hb))
  have hkeeps₅ : k.Keeps live k₄ := (hkeeps₁₂.trans (hkeeps₃.mono fun b hb =>
    List.mem_append_right _ (List.mem_cons_of_mem _ hb))).trans (hkeeps₄.mono hlive)
  -- the page tables lie apart from all other blocks
  have hpages : HeapOwns k₄.machine.heap.heap (pageAllocs tables ++ ⟨chunk.addr, 4⟩ ::
      ⟨chunk.directoryEntry, 4096⟩ :: (k₄.fileBlocks ++ ⟨task, sizeofTask⟩ ::
        ⟨stack, marrowosUserProgramStackSize⟩ :: (process₂.programBlocks files.elf.filesize ++
          ⟨process₂.addr, sizeofProcess⟩ :: live))) := by
    refine HeapOwns.perm hmade.owns ((List.perm_append_comm_assoc _ _ _).trans ?_)
    rw [spaceAllocs, List.cons_append, List.append_assoc]
    exact List.perm_middle.symm
  have hotherBlocks : ∀ b ∈ ⟨stack, marrowosUserProgramStackSize⟩ ::
      (process₂.programBlocks files.elf.filesize ++ ⟨process₂.addr, sizeofProcess⟩ :: live),
      ∀ x, b.Covers x → ¬ InTables tables x := by
    intro b hb x hx
    apply hpages.not_inTables _ hx
    exact List.mem_cons_of_mem _ (List.mem_cons_of_mem _ (List.mem_append_right _
      (List.mem_cons_of_mem _ hb)))
  refine ⟨HeapOwns.ptr_lt hmade.owns htaskAlloc, chunk, tables, hblocks, hkeeps₅, rfl,
    hallocations₂, hne₃, htaskPos, hmade.process, hmade.pageDirectory,
    fun f hf hf' => (himage f hf hf').1, hfiletype, hsize₂, hmade.space, hmade.identity,
    fun f hf hf' => ?_, fun b hb => hotherBlocks b (hlive b hb), ?_, htasks⟩
  · rcases himage f hf hf' with ⟨-, hat, hmem⟩
    have hprogram : ∀ b ∈ [(⟨f.elfMemory, files.elf.filesize⟩ : Alloc)],
        b ∈ process₂.programBlocks files.elf.filesize ++
          ⟨process₂.addr, sizeofProcess⟩ :: live := by
      intro b hb
      rw [List.mem_singleton.mp hb]
      exact List.mem_append_left _ hmem
    refine ⟨(hat.congr (hkeeps₃.same.mono hprogram)).congr (hkeeps₄.same.mono fun b hb =>
      List.mem_cons_of_mem _ (hprogram b hb)), fun x h₀ h₁ => ?_⟩
    exact hotherBlocks _ (List.mem_cons_of_mem _ (hprogram _ (List.mem_singleton_self _))) x
      (Alloc.covers_of_lt h₀ h₁)
  · refine stackMapping_valid hmade.owns (List.mem_append_right _ (List.mem_append_right _ ?_))
    exact List.mem_cons_of_mem _ List.mem_cons_self

/-- The result of a load whose mappings ended with `res`. -/
def mappedResult (slot : ℕ) (process : Process) (res : ℤ) (k : Kernel) :
    ℤ × Option Process × Kernel :=
  if res < 0 then processLoadFailed res process k
  else (res, some process, k.setProcess slot process)

/-- What the load leaves when the process has been mapped, or not. -/
lemma ReadyToMap.mapped {slot : ℕ} {k₄ k₅ : Kernel} {res₅ : ℤ} {loaded : Option Process}
    {chunk : Paging4gbChunk} {tables : List ℕ}
    (h : ReadyToMap files slot live k k₄ process chunk tables)
    (hmap : processMapMemory files process k₄ = .ok (res₅, k₅))
    (hres : mappedResult slot process res₅ k₅ = (res, loaded, k')) :
    LoadFailed live k k' res loaded ∨ (res = 0 ∧ ∃ process chunk tables, loaded = some process ∧
      ProcessLoaded files slot live k k' process chunk tables) := by
  rcases processMapMemory_maps h.space h.pageDirectory h.image h.stackValid hmap with
    ⟨mem₅, hk₅, hspace, hout, hres₅⟩
  have hkeeps : k.Keeps live (k₄.withMem mem₅) := h.keeps.trans
    (Kernel.Keeps.withMachine (SamePool.refl _) fun b hb x hx => hout x (h.outside b hb x hx))
  subst hk₅
  unfold mappedResult at hres
  rcases hres₅ with hres₅ | ⟨hres₅, hmaps⟩
  · subst hres₅
    rw [if_pos (by decide)] at hres
    have hnone : ∀ e ∈ process.allocations, e.ptr = 0 := by
      rw [h.allocations]
      exact processInit_allocations 0
    have hown : (k₄.withMem mem₅).Owns (process.blocks files.elf.filesize chunk tables ++ live) :=
      h.owns
    exact Or.inl (processLoadFailed_owns (Or.inr (Or.inl rfl)) hown hnone
      (fun _ => ⟨h.pageDirectory, hspace⟩) hkeeps hres)
  · subst hres₅
    rw [if_neg (lt_irrefl 0)] at hres
    rcases Prod.mk.inj hres with ⟨hres', hrest⟩
    rcases Prod.mk.inj hrest with ⟨hloaded, hk'⟩
    subst hres' hloaded hk'
    refine Or.inr ⟨rfl, process, chunk, tables, rfl, h.owns, ?_, ?_, h.id, h.allocations, h.stack,
      h.task, h.taskProcess, h.pageDirectory, h.elf, h.filetype, hspace, hmaps.valid,
      fun p hp => ?_⟩
    · exact ⟨hkeeps.pool, hkeeps.same, hkeeps.task, rfl⟩
    · show k₄.processes.set slot (some process) = _
      rw [h.keeps.processes]
    · rw [← overlay_congr (h.identity p hp)]
      exact hmaps.pages p hp

/-- The stages of `process_load_for_slot`, in any heap whatsoever. -/
theorem processLoadForSlot_cases {slot : ℕ} {loaded : Option Process} (h : k.Owns live)
    (hload : processLoadForSlot files slot k = .ok (res, loaded, k')) :
    (res = -eistkn ∧ (processGet k slot).isSome ∧ loaded = none ∧ k' = k) ∨
    ((processGet k slot).isNone ∧ (LoadFailed live k k' res loaded ∧ k'.tasks = k.tasks ∨
      ∃ process chunk tables k₁ res₂ k₂, ReadyToMap files slot live k k₁ process chunk tables ∧
        processMapMemory files process k₁ = .ok (res₂, k₂) ∧
        mappedResult slot process res₂ k₂ = (res, loaded, k'))) := by
  unfold processLoadForSlot at hload
  -- the slot is taken
  by_cases hslot : (processGet k slot).isSome
  · simp only [if_pos hslot] at hload
    rcases ok_triple_inj hload with ⟨hres, hloaded, hk'⟩
    exact Or.inl ⟨hres.symm, hslot, hloaded.symm, hk'.symm⟩
  refine Or.inr ⟨by simpa using hslot, ?_⟩
  simp only [if_neg hslot] at hload
  rcases bind_eq_ok.mp hload with ⟨⟨addr, m₁⟩, haddr, hload⟩
  rcases h.kzalloc (by norm_num) haddr with ⟨hkeeps₁, ⟨h0, hown₁⟩ | ⟨h0, -⟩ | ⟨hne, -, hown₁, -⟩⟩
  · simp only [if_pos h0] at hload
    rcases ok_triple_inj hload with ⟨hres, hloaded, hk'⟩
    subst hres hloaded hk'
    exact Or.inl ⟨⟨Or.inr (Or.inr rfl), rfl, hown₁, hkeeps₁⟩, rfl⟩
  · exact absurd h0 (by norm_num)
  simp only [if_neg hne] at hload
  rcases bind_eq_ok.mp hload with ⟨⟨res₂, process₂, k₂⟩, hdata, hload⟩
  have hinit := processInit_allocations addr
  have htasks₂ := processLoadData_tasks hdata
  rcases processLoadData_owns hown₁ hdata with
    ⟨hkeeps₂, ⟨hres₂, hprocess₂, hown₂⟩ | ⟨hres₂, hprogram⟩⟩
  · -- the file was not read
    subst hprocess₂
    simp only [if_pos hres₂.neg] at hload
    have hblocks : k₂.Owns ((processInit addr).blocks 0 ⟨0, 0⟩ [] ++ live) := hown₂
    left
    refine ⟨processLoadFailed_owns hres₂ hblocks hinit (fun hne => absurd rfl hne)
      (hkeeps₁.trans hkeeps₂.tail) (Except.ok.inj hload), ?_⟩
    exact (processLoadFailed_tasks (Except.ok.inj hload) rfl).trans htasks₂
  subst hres₂
  simp only [lt_irrefl, if_false] at hload
  rcases bind_eq_ok.mp hload with ⟨⟨stack, m₃⟩, hstack, hload⟩
  by_cases hne₃ : stack = 0
  · -- no stack
    simp only [if_pos hne₃] at hload
    have hown₂ := hprogram.owns
    rcases hprogram.fields with ⟨haddr₂, htask₂, hallocations₂, -⟩
    have haddr₂ : process₂.addr = addr := haddr₂
    have htask₂ : process₂.task = 0 := htask₂
    rw [← hallocations₂] at hinit
    rw [← haddr₂] at hown₂ hkeeps₂
    rcases hown₂.kzalloc (by norm_num) hstack with ⟨hkeeps₃, ⟨-, hown₃⟩ | ⟨h0, -⟩ | ⟨hne, -⟩⟩
    · have hblocks : (k₂.withMachine m₃).Owns
          (({ process₂ with stack } : Process).blocks files.elf.filesize ⟨0, 0⟩ [] ++ live) := by
        rw [Process.blocks_append, Process.taskBlocks, if_pos htask₂, Process.stackBlocks,
          if_pos hne₃]
        exact hown₃
      left
      refine ⟨processLoadFailed_owns (Or.inr (Or.inr rfl)) hblocks hinit
        (fun hne => absurd htask₂ hne) ((hkeeps₁.trans hkeeps₂.tail).trans
          (hkeeps₃.mono fun b hb => ?_)) (Except.ok.inj hload), ?_⟩
      · exact List.mem_append_right _ (List.mem_cons_of_mem _ hb)
      · exact (processLoadFailed_tasks (Except.ok.inj hload) htask₂).trans htasks₂
    · exact absurd h0 (by norm_num)
    · exact absurd hne₃ hne
  simp only [if_neg hne₃] at hload
  -- with a task everything is there for the mappings
  rcases bind_eq_ok.mp hload with ⟨⟨task, k₄⟩, htask, hload⟩
  rcases readyToMap h haddr hne hdata hstack hne₃ htask with ⟨hlt, chunk, tables, hready⟩
  rw [i32_of_lt (by omega) (by omega), if_neg (by omega)] at hload
  rcases bind_eq_ok.mp hload with ⟨⟨res₅, k₅⟩, hmap, hload⟩
  refine Or.inr ⟨_, chunk, tables, k₄, res₅, k₅, hready, hmap, ?_⟩
  unfold mappedResult
  by_cases hneg : res₅ < 0
  · simp only [if_pos hneg] at hload ⊢
    exact Except.ok.inj hload
  · simp only [if_neg hneg] at hload ⊢
    exact Except.ok.inj hload

/-- **`process_load_for_slot`**, in any heap whatsoever. -/
theorem processLoadForSlot_owns {slot : ℕ} {loaded : Option Process} (h : k.Owns live)
    (hload : processLoadForSlot files slot k = .ok (res, loaded, k')) :
    (res = -eistkn ∧ (processGet k slot).isSome ∧ loaded = none ∧ k' = k) ∨
    ((processGet k slot).isNone ∧ (LoadFailed live k k' res loaded ∨
      (res = 0 ∧ ∃ process chunk tables, loaded = some process ∧
        ProcessLoaded files slot live k k' process chunk tables))) := by
  rcases processLoadForSlot_cases h hload with
    htaken | ⟨hslot, ⟨hfailed, -⟩ | ⟨process, chunk, tables, k₄, res₅, k₅, hready, hmap, hres⟩⟩
  · exact Or.inl htaken
  · exact Or.inr ⟨hslot, Or.inl hfailed⟩
  · exact Or.inr ⟨hslot, hready.mapped hmap hres⟩

end MarrowOS
