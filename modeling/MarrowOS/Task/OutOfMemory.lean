import MarrowOS.Memory.RefusingAllocator
import MarrowOS.Task.Termination

/-!
# Running out of memory while a process is created

`process_load_for_slot` over an allocator that refuses one of the requests it makes once the file
has been read: the stack, the task, and what `paging_new_4gb` asks for. A refused stack is cleaned
up after. Any other refusal ends at a null pointer: `task_new` calls `task_free` with it, and
`paging_new_4gb` does not look at what it gets (`processLoadForSlotRefusing_iff`).
-/

namespace MarrowOS

open ByteMem CInt Fallible

variable {k k' : Kernel} {live : List Alloc} {process : Process} {files : LoadAnswers}
  {file : FileAnswers} {refused : Option ℕ} {n slot size : ℕ}

/-! ## The allocations after the read -/

/-- `task_new` with a request to refuse. -/
def taskNewRefusing (refused : Option ℕ) (file : FileAnswers) (process : Process) (k : Kernel) :
    Except Fault (ℕ × Kernel) := do
  let (task, m) ← kzalloc (refusing kernelAllocator) sizeofTask (k.machine.refuse refused)
  if task = 0 then throw .nullPointer
  let (pageDirectory, m) ←
    pagingNew4gb (refusing kernelAllocator) (pagingIsPresent ||| pagingAccessFromAll) m
  let registers := taskInitRegisters (processElfEntry file process m.mem)
  let tasks := taskNewLink task pageDirectory registers process.addr k.tasks
  return (task, { k.withMachine m.forget with tasks })

/-- `process_load_for_slot` from the stack on, with a request to refuse. -/
def processLoadRestRefusing (refused : Option ℕ) (file : LoadAnswers) (processSlot : ℕ)
    (process : Process) (k : Kernel) : Except Fault (ℤ × Option Process × Kernel) := do
  let (stack, m) ← kzalloc (refusing kernelAllocator) marrowosUserProgramStackSize
    (k.machine.refuse refused)
  let k := k.withMachine m.forget
  let process := { process with stack }
  if stack = 0 then return processLoadFailed (-enomem) process k
  let process := { process with id := processSlot }
  let (task, k) ← taskNewRefusing m.heap.2 file.elf process k
  if i32 task < 0 then return processLoadFailed (i32 task) process k
  let process := { process with task }
  let (res, k) ← processMapMemory file process k
  if res < 0 then return processLoadFailed res process k
  return (res, some process, k.setProcess processSlot process)

/-- `process_load_for_slot` with a request to refuse once the file has been read. -/
def processLoadForSlotRefusing (refused : Option ℕ) (file : LoadAnswers) (processSlot : ℕ)
    (k : Kernel) : Except Fault (ℤ × Option Process × Kernel) := do
  if (processGet k processSlot).isSome then return (-eistkn, none, k)
  let (addr, m) ← kzalloc kernelAllocator sizeofProcess k.machine
  let k := k.withMachine m
  if addr = 0 then return (-enomem, none, k)
  let process := processInit addr
  let (res, process, k) ← processLoadData file process k
  if res < 0 then return processLoadFailed res process k
  processLoadRestRefusing refused file processSlot process k

/-- How many requests there are after the read: the stack, the task and its address space. -/
def processLoadRequests : ℕ := pagingNew4gbRequests + 2

/-! ## Nothing refused -/

lemma taskNewRefusing_none : taskNewRefusing none file process k = taskNew file process k := by
  rw [taskNewRefusing, taskNew, kzalloc_forget]
  cases kzalloc kernelAllocator sizeofTask k.machine with
  | error e => rfl
  | ok s =>
    rcases s with ⟨task, m⟩
    simp only [Except.map, ok_bind]
    by_cases h0 : task = 0
    · rw [if_pos h0, if_pos h0, throw_eq_error, error_bind, error_bind]
    · rw [if_neg h0, if_neg h0, pagingNew4gb_refusing]
      cases pagingNew4gb kernelAllocator (pagingIsPresent ||| pagingAccessFromAll) m with
      | error e => rfl
      | ok s =>
        rw [Except.map, ok_bind, ok_bind]
        dsimp only
        rw [Machine.forget_refuse]
        rfl

/-- With nothing to refuse this is `process_load_for_slot`. -/
theorem processLoadForSlotRefusing_none :
    processLoadForSlotRefusing none files slot k = processLoadForSlot files slot k := by
  unfold processLoadForSlotRefusing processLoadForSlot processLoadRestRefusing
  by_cases hslot : (processGet k slot).isSome
  · rw [if_pos hslot, if_pos hslot]
  rw [if_neg hslot, if_neg hslot]
  cases kzalloc kernelAllocator sizeofProcess k.machine with
  | error e => rw [error_bind, error_bind]
  | ok s =>
  rw [ok_bind, ok_bind]
  dsimp only
  by_cases hnull : s.1 = 0
  · rw [if_pos hnull, if_pos hnull]
  rw [if_neg hnull, if_neg hnull]
  cases processLoadData files (processInit s.1) (k.withMachine s.2) with
  | error e => rw [error_bind, error_bind]
  | ok s =>
  rw [ok_bind, ok_bind]
  by_cases hneg : s.1 < 0
  · rw [if_pos hneg, if_pos hneg]
  rw [if_neg hneg, if_neg hneg, kzalloc_forget]
  cases kzalloc kernelAllocator marrowosUserProgramStackSize s.2.2.machine with
  | error e => rfl
  | ok s =>
    have hrefused : (s.2.refuse none).heap.2 = none := rfl
    rw [Except.map, ok_bind, ok_bind]
    dsimp only
    rw [hrefused, taskNewRefusing_none, Machine.forget_refuse]

/-! ## A request refused -/

/-- Without a task structure, or without a part of its address space, `task_new` faults. -/
lemma taskNewRefusing_refused (hn : n < pagingNew4gbRequests + 1) (r : ℕ × Kernel) :
    taskNewRefusing (some n) file process k ≠ .ok r := by
  intro hnew
  rw [taskNewRefusing] at hnew
  rcases bind_eq_ok.mp hnew with ⟨⟨task, m⟩, htask, hnew⟩
  dsimp only at hnew
  by_cases h0 : task = 0
  · rw [if_pos h0, throw_eq_error, error_bind] at hnew
    exact absurd hnew (by simp)
  rw [if_neg h0] at hnew
  rcases bind_eq_ok.mp hnew with ⟨chunk, hchunk, -⟩
  rcases Nat.eq_zero_or_pos n with hzero | hpos
  · rw [hzero, kzalloc_refused] at htask
    exact h0 (Prod.mk.inj (Except.ok.inj htask)).1.symm
  · rw [kzalloc_granted k.machine (some_ne_some_zero hpos) rfl] at htask
    rcases map_eq_ok.mp htask with ⟨⟨task', m'⟩, -, heq⟩
    rw [← (Prod.mk.inj heq).2] at hchunk
    exact pagingNew4gb_refused m' ⟨n - 1, by omega, rfl⟩ chunk hchunk

/-- `process_load_for_slot` has read the file: it comes to the stack in the kernel `k'`. -/
structure FileRead (files : LoadAnswers) (slot : ℕ) (k : Kernel) (process : Process)
    (k' : Kernel) : Prop where
  slot : (processGet k slot).isNone
  read : ∃ addr m, kzalloc kernelAllocator sizeofProcess k.machine = .ok (addr, m) ∧ addr ≠ 0 ∧
    processLoadData files (processInit addr) (k.withMachine m) = .ok (0, process, k')

/-- The rest of the load starts from there. -/
lemma FileRead.rest (h : FileRead files slot k process k') :
    processLoadForSlotRefusing refused files slot k =
      processLoadRestRefusing refused files slot process k' := by
  rcases h.read with ⟨addr, m, haddr, hne, hdata⟩
  have hslot : (processGet k slot).isSome = false := by simpa using h.slot
  rw [processLoadForSlotRefusing, hslot, if_neg Bool.false_ne_true, haddr, ok_bind]
  dsimp only
  rw [if_neg hne, hdata, ok_bind]
  dsimp only
  rw [if_neg (lt_irrefl 0)]

/-- The process has the program and its own structure, and nothing else yet. -/
structure OnlyRead (process : Process) (size : ℕ) (live : List Alloc) (k : Kernel) : Prop where
  owns : k.Owns (process.blocks size ⟨0, 0⟩ [] ++ live)
  task : process.task = 0
  stack : process.stack = 0
  allocations : ∀ e ∈ process.allocations, e.ptr = 0

lemma FileRead.onlyRead (h : FileRead files slot k process k') (hown : k.Owns live) :
    OnlyRead process files.elf.filesize live k' := by
  rcases h.read with ⟨addr, m, haddr, hne, hdata⟩
  rcases hown.kzalloc (by norm_num) haddr with ⟨-, ⟨h0, -⟩ | ⟨h0, -⟩ | ⟨-, -, hown₁, -⟩⟩
  · exact absurd h0 hne
  · exact absurd h0 (by norm_num)
  rcases processLoadData_owns hown₁ hdata with ⟨-, ⟨hres, -⟩ | ⟨-, hprogram⟩⟩
  · exact absurd hres.neg (lt_irrefl 0)
  have hown₂ := hprogram.owns
  have hfacts : process.addr = addr ∧ process.task = 0 ∧ process.stack = 0 ∧
      process.allocations = (processInit addr).allocations := by
    cases hprogram with
    | elf f loaded => exact ⟨rfl, rfl, rfl, rfl⟩
    | binary ptr invalid owns => exact ⟨rfl, rfl, rfl, rfl⟩
  rcases hfacts with ⟨haddr', htask, hstack, hallocations⟩
  refine ⟨?_, htask, hstack, ?_⟩
  · rw [Process.blocks_append, Process.taskBlocks, if_pos htask, Process.stackBlocks,
      if_pos hstack, haddr']
    exact hown₂
  · rw [hallocations]
    exact processInit_allocations addr

/-- What the clean-up gives to `kfree`, one pointer after the other. -/
lemma OnlyRead.frees (h : OnlyRead process size live k) :
    processFreeProcess process k = k.withMachine ((process.blocks size ⟨0, 0⟩ []).foldl
      (fun m a => kfree kernelAllocator a.ptr m) k.machine) := by
  have hpos : ∀ a ∈ process.blocks size ⟨0, 0⟩ [], a.ptr ≠ 0 := fun a ha =>
    (HeapOwns.ptr_pos h.owns (List.mem_append_right _ (List.mem_append_left _ ha))).ne'
  have hblocks : process.blocks size ⟨0, 0⟩ [] =
      process.programBlocks size ++ [⟨process.addr, sizeofProcess⟩] := by
    rw [Process.blocks, Process.taskBlocks, if_pos h.task, Process.stackBlocks, if_pos h.stack]
    rfl
  have hprogram : processFreeProgramData process k.machine = (process.programBlocks size).foldl
      (fun m a => kfree kernelAllocator a.ptr m) k.machine := by
    rw [hblocks] at hpos
    have hpos' : ∀ a ∈ process.programBlocks size, a.ptr ≠ 0 := fun a ha =>
      hpos a (List.mem_append_left _ ha)
    unfold processFreeProgramData
    unfold Process.programBlocks at hpos' ⊢
    cases hfiletype : process.filetype with
    | binary =>
      rw [hfiletype] at hpos'
      exact if_pos (hpos' _ List.mem_cons_self)
    | elf =>
      cases hf : process.elfFile with
      | none => rfl
      | some f =>
        rw [hfiletype, hf] at hpos'
        show elfClose f k.machine = _
        rw [elfClose, if_pos (hpos' _ List.mem_cons_self)]
        rfl
  unfold processFreeProcess
  rw [processTerminateAllocations_none h.allocations]
  dsimp only
  rw [h.stack, h.task, hprogram, hblocks, List.foldl_append]
  rfl

/-- The load fails as it should: with an error, without a null pointer for `kfree`, and with nothing
changed since the file was read but that the blocks of the process are free again. -/
structure FailsSafely (process : Process) (size : ℕ) (k : Kernel) (res : ℤ) (k' : Kernel) :
    Prop where
  error : res < 0
  frees : k' = k.withMachine ((process.blocks size ⟨0, 0⟩ []).foldl
    (fun m a => kfree kernelAllocator a.ptr m) k.machine)
  nonnull : ∀ a ∈ process.blocks size ⟨0, 0⟩ [], a.ptr ≠ 0
  processes : k'.processes = k.processes
  tasks : k'.tasks = k.tasks
  heap : FreesExactly (process.blocks size ⟨0, 0⟩ []) k.machine.heap.heap k'.machine.heap.heap

lemma OnlyRead.failsSafely (h : OnlyRead process size live k) :
    FailsSafely process size k (-enomem) (processFreeProcess process k) := by
  have hnull : process.task ≠ 0 → (k.tasks.tasks process.task).pageDirectory = ⟨0, 0⟩ ∧
      AddressSpace k.machine.mem (⟨0, 0⟩ : Paging4gbChunk).directoryEntry [] :=
    fun hne => absurd h.task hne
  rcases processFreeProcess_owns h.owns h.allocations hnull with ⟨hown, hkeeps⟩
  rw [h.frees] at hown hkeeps ⊢
  have hbefore : HeapOwns k.machine.heap.heap
      (process.blocks size ⟨0, 0⟩ [] ++ (k.fileBlocks ++ live)) :=
    HeapOwns.perm h.owns (List.perm_append_comm_assoc _ _ _)
  refine ⟨by decide, rfl, fun a ha => ?_, rfl, rfl, hbefore.freesExactly hown hkeeps.pool⟩
  exact (HeapOwns.ptr_pos h.owns (List.mem_append_right _ (List.mem_append_left _ ha))).ne'

/-- A request that the kernel's heap refuses changes nothing. -/
lemma HeapOwns.kzalloc_null {m m' : Machine KernelHeap} (h : HeapOwns m.heap.heap live)
    (hsize : size < 2 ^ 32) (hkz : kzalloc kernelAllocator size m = .ok (0, m')) : m' = m := by
  rcases kzalloc_owns h hsize hkz with ⟨-, hheap, hmem⟩ | ⟨-, hne, -⟩ | ⟨hne, -⟩
  · have hoverdrawn : m'.heap.overdrawn = m.heap.overdrawn := by
      cases hk : kernelAllocator.kmalloc size m.heap with
      | mk p k' =>
      unfold kzalloc at hkz
      rw [hk] at hkz
      by_cases hp : p = 0
      · simp only [if_pos hp] at hkz
        rw [← (Prod.mk.inj (Except.ok.inj hkz)).2]
        have hhistory : (kernelAllocator.kmalloc size m.heap).2.overdrawn =
            (m.heap.overdrawn || ((kernelAllocator.kmalloc size m.heap).1 != 0 &&
              !decide (HasFreeRun m.heap.heap.table (heapTotalBlocks size)))) := rfl
        rw [hk, hp] at hhistory
        simpa using hhistory
      · simp only [if_neg hp] at hkz
        rcases bind_eq_ok.mp hkz with ⟨mem, -, hret⟩
        exact absurd (Prod.mk.inj (Except.ok.inj hret)).1 hp
    rcases m with ⟨⟨heap, overdrawn⟩, mem⟩
    rcases m' with ⟨⟨heap', overdrawn'⟩, mem'⟩
    simp only at hheap hmem hoverdrawn
    rw [hheap, hmem, hoverdrawn]
  · exact absurd rfl hne
  · exact absurd rfl hne

/-- The first request is the one for the stack. The heap may also refuse it by itself. -/
def StackRefused (n : ℕ) (k : Kernel) : Prop :=
  n = 0 ∨ ∃ m, kzalloc kernelAllocator marrowosUserProgramStackSize k.machine = .ok (0, m)

/-- Without a stack the process is taken apart. -/
lemma OnlyRead.rest_stackRefused (h : OnlyRead process size live k) (hstack : StackRefused n k) :
    processLoadRestRefusing (some n) files slot process k =
      .ok (-enomem, none, processFreeProcess process k) := by
  have hkz : ∃ refused, kzalloc (refusing kernelAllocator) marrowosUserProgramStackSize
      (k.machine.refuse (some n)) = .ok (0, k.machine.refuse refused) := by
    rcases Nat.eq_zero_or_pos n with hzero | hpos
    · rw [hzero]
      exact ⟨none, kzalloc_refused _⟩
    · rcases hstack with hzero | ⟨m, hm⟩
      · exact absurd hzero hpos.ne'
      · rw [kzalloc_granted k.machine (some_ne_some_zero hpos) rfl, hm,
          HeapOwns.kzalloc_null h.owns (by norm_num) hm]
        exact ⟨_, rfl⟩
  rcases hkz with ⟨refused, hkz⟩
  have hprocess : { process with stack := 0 } = process := by
    rw [← h.stack]
  rw [processLoadRestRefusing, hkz, ok_bind]
  dsimp only
  rw [if_pos rfl, hprocess, pure_eq_ok, processLoadFailed]
  rfl

/-- With a stack the load does not end. -/
lemma rest_not_stackRefused (hn : n < processLoadRequests) (hstack : ¬ StackRefused n k)
    (r : ℤ × Option Process × Kernel) :
    processLoadRestRefusing (some n) files slot process k ≠ .ok r := by
  intro hrest
  have hpos : 0 < n := Nat.pos_of_ne_zero fun hzero => hstack (Or.inl hzero)
  rw [processLoadRestRefusing, kzalloc_granted k.machine (some_ne_some_zero hpos) rfl] at hrest
  rcases bind_eq_ok.mp hrest with ⟨s, hs, hrest⟩
  rcases map_eq_ok.mp hs with ⟨⟨stack, m⟩, hkz, heq⟩
  rw [← heq] at hrest
  dsimp only at hrest
  have hne : stack ≠ 0 := by
    intro h0
    rw [h0] at hkz
    exact hstack (Or.inr ⟨m, hkz⟩)
  rw [if_neg hne] at hrest
  rcases bind_eq_ok.mp hrest with ⟨task, htask, -⟩
  have hlt : n - 1 < pagingNew4gbRequests + 1 := by
    unfold processLoadRequests at hn
    omega
  exact taskNewRefusing_refused hlt task htask

/-- **Out of memory.** When one of the requests after the read is refused, the load fails as it
should exactly if it is the stack. -/
theorem processLoadForSlotRefusing_iff (h : k.Owns live) (hread : FileRead files slot k process k')
    (hn : n < processLoadRequests) :
    (∃ res k'', processLoadForSlotRefusing (some n) files slot k = .ok (res, none, k'') ∧
      FailsSafely process files.elf.filesize k' res k'') ↔ StackRefused n k' := by
  have honly := hread.onlyRead h
  rw [hread.rest]
  constructor
  · rintro ⟨res, k'', hrest, -⟩
    by_contra hstack
    exact rest_not_stackRefused hn hstack _ hrest
  · intro hstack
    exact ⟨-enomem, _, honly.rest_stackRefused hstack, honly.failsSafely⟩

/-! ### A program of one byte -/

/-- It is read into the heap of `kheap_init`, with room for the stack. -/
lemma fileRead_oneByteFile :
    ∃ process k', FileRead ⟨oneByteFile, oneByteFile⟩ 0 bootKernel process k' ∧
      k'.RoomLeft (blocksFor marrowosUserProgramStackSize) := by
  have hblocks : 25600 = 25594 + (⟨oneByteFile, oneByteFile⟩ : LoadAnswers).readBlocks +
      blocksFor sizeofProcess := by decide
  have hroom := bootKernel_room
  rw [hblocks] at hroom
  obtain ⟨addr, m, haddr, hne, -, hroom₁⟩ := hroom.kzalloc (by decide) (by decide)
  rcases bootKernel_owns.kzalloc (by norm_num) haddr with
    ⟨-, ⟨h0, -⟩ | ⟨h0, -⟩ | ⟨-, -, hown₁, -⟩⟩
  · exact absurd h0 hne
  · exact absurd h0 (by norm_num)
  obtain ⟨process, k', hdata, c, hc, hroom₂⟩ := @processLoadData_progress _ _ (processInit addr)
    ⟨oneByteFile, oneByteFile⟩ 25594 oneByteFile_readable oneByteFile_readable hown₁ hroom₁
  have hstack : blocksFor marrowosUserProgramStackSize ≤ c := le_trans (by decide) hc
  exact ⟨process, k', ⟨rfl, addr, m, haddr, hne, hdata⟩, c, hstack, hroom₂⟩

/-- Its stack is refused. -/
theorem processLoadForSlotRefusing_stack_oneByteFile : ∃ process k' res k'',
    FileRead ⟨oneByteFile, oneByteFile⟩ 0 bootKernel process k' ∧
    processLoadForSlotRefusing (some 0) ⟨oneByteFile, oneByteFile⟩ 0 bootKernel =
      .ok (res, none, k'') ∧ FailsSafely process 1 k' res k'' := by
  rcases fileRead_oneByteFile with ⟨process, k', hread, -⟩
  have hrequests : 0 < processLoadRequests := Nat.succ_pos _
  rcases (processLoadForSlotRefusing_iff bootKernel_owns hread hrequests).mpr (Or.inl rfl) with
    ⟨res, k'', hload, hfails⟩
  exact ⟨process, k', res, k'', hread, hload, hfails⟩

/-- Its task is refused: `task_free` dereferences the null pointer. -/
theorem processLoadForSlotRefusing_task_oneByteFile : ∃ process k',
    FileRead ⟨oneByteFile, oneByteFile⟩ 0 bootKernel process k' ∧ 1 < processLoadRequests ∧
    processLoadForSlotRefusing (some 1) ⟨oneByteFile, oneByteFile⟩ 0 bootKernel =
      .error .nullPointer ∧
    ¬ ∃ res k'', processLoadForSlotRefusing (some 1) ⟨oneByteFile, oneByteFile⟩ 0 bootKernel =
      .ok (res, none, k'') ∧ FailsSafely process 1 k' res k'' := by
  rcases fileRead_oneByteFile with ⟨process, k', hread, c, hc, hroom⟩
  rcases Nat.exists_eq_add_of_le' hc with ⟨d, rfl⟩
  obtain ⟨stack, m, hstack, hne, -⟩ := hroom.kzalloc (by decide) (by decide)
  have hload : processLoadForSlotRefusing (some 1) ⟨oneByteFile, oneByteFile⟩ 0 bootKernel =
      .error .nullPointer := by
    rw [hread.rest, processLoadRestRefusing,
      kzalloc_granted k'.machine (some_ne_some_zero Nat.one_pos) rfl, hstack, Except.map, ok_bind]
    dsimp only
    -- the next request is the task
    have htask : (m.refuse ((some 1).map (· - 1))).heap.2 = some 0 := rfl
    rw [if_neg hne, htask, taskNewRefusing, kzalloc_refused, ok_bind]
    dsimp only
    rw [if_pos rfl, throw_eq_error, error_bind, error_bind]
  refine ⟨process, k', hread, Nat.succ_lt_succ (Nat.succ_pos _), hload, ?_⟩
  rintro ⟨res, k'', hok, -⟩
  rw [hload] at hok
  exact absurd hok (by simp)

end MarrowOS
