import MarrowOS.Task.Allocations
import MarrowOS.Task.ExitRotation
import MarrowOS.Task.LoadingProgress

/-!
# What ending a process gives back

`process_terminate` takes a process out of the table and gives back its blocks. The allocations come
first, slot by slot, each with `process_free` (`processTerminateAllocations_owns`); the rest is
`processFreeProcess_owns`. `processTerminate_releases` says which entries of the block table change.
-/

namespace MarrowOS

open ByteMem CInt Extents Fallible FirstSlot

variable {k k' : Kernel} {live mine : List Alloc} {process : Process} {chunk : Paging4gbChunk}
  {tables : List ℕ} {a : ProcessAllocation} {done rest : List ProcessAllocation} {size : ℕ}

/-! ## Allocations -/

/-- The blocks that the used slots of an allocation table record. -/
def userAllocs (allocations : List ProcessAllocation) : List Alloc :=
  (allocations.filter fun a => a.ptr ≠ 0).map fun a => ⟨a.ptr, a.size⟩

lemma userAllocs_unused (h : a.ptr = 0) : userAllocs (a :: rest) = userAllocs rest := by
  simp [userAllocs, h]

lemma userAllocs_used (h : a.ptr ≠ 0) :
    userAllocs (a :: rest) = ⟨a.ptr, a.size⟩ :: userAllocs rest := by
  simp [userAllocs, h]

lemma userAllocs_append (l l' : List ProcessAllocation) :
    userAllocs (l ++ l') = userAllocs l ++ userAllocs l' := by
  simp [userAllocs]

lemma userAllocs_eq_nil (h : ∀ b ∈ done, b.ptr = 0) : userAllocs done = [] := by
  rw [userAllocs, List.filter_eq_nil_iff.mpr fun b hb => by simp [h b hb]]
  rfl

lemma mem_userAllocs (ha : a ∈ rest) (hne : a.ptr ≠ 0) : ⟨a.ptr, a.size⟩ ∈ userAllocs rest :=
  List.mem_map.mpr ⟨a, List.mem_filter.mpr ⟨ha, by simpa using hne⟩, rfl⟩

/-- A slot after `process_terminate_allocations`. -/
def clearedSlot (a : ProcessAllocation) : ProcessAllocation := if a.ptr = 0 then a else ⟨0, 0⟩

lemma clearedSlot_ptr (a : ProcessAllocation) : (clearedSlot a).ptr = 0 := by
  unfold clearedSlot
  split
  · assumption
  · rfl

/-- From `k` to `k'` only the heap and the process's page tables have changed. -/
structure Kernel.Unmaps (chunk : Paging4gbChunk) (tables : List ℕ) (k k' : Kernel) : Prop where
  pool : SamePool k.machine.heap.heap k'.machine.heap.heap
  fileBlocks : k'.fileBlocks = k.fileBlocks
  tasks : k'.tasks = k.tasks
  processes : k'.processes = k.processes
  space : AddressSpace k'.machine.mem chunk.directoryEntry tables

lemma Kernel.Unmaps.trans {k'' : Kernel} (h : k.Unmaps chunk tables k')
    (h' : k'.Unmaps chunk tables k'') : k.Unmaps chunk tables k'' :=
  ⟨h.pool.trans h'.pool, h'.fileBlocks.trans h.fileBlocks, h'.tasks.trans h.tasks,
    h'.processes.trans h.processes, h'.space⟩

/-- No two live allocations have one address. -/
lemma HeapOwns.ptr_ne {heap : Heap} {b c : Alloc} (h : HeapOwns heap (b :: live)) (hc : c ∈ live) :
    c.ptr ≠ b.ptr := by
  have happart := (List.pairwise_cons.mp h.before_or_behind).1 c hc
  have hb := blocksFor_pos (h.size_pos b List.mem_cons_self)
  have hc' := blocksFor_pos (h.size_pos c (List.mem_cons_of_mem b hc))
  omega

/-- `process_free` of an own allocation. -/
lemma processFree_owns (hslots : process.allocations = done ++ a :: rest) (ha : a.ptr ≠ 0)
    (hend : a.ptr + 4096 * blocksFor a.size < 2 ^ 32)
    (h : k.Owns (userAllocs process.allocations ++ live))
    (hchunk : k.pageDirectory process = chunk)
    (hspace : AddressSpace k.machine.mem chunk.directoryEntry tables) :
    ∃ k', processFree process a.ptr k =
        ({ process with allocations := done ++ ⟨0, 0⟩ :: rest }, k') ∧
      k'.Owns (userAllocs (done ++ ⟨0, 0⟩ :: rest) ++ live) ∧ k.Unmaps chunk tables k' ∧
      (∀ x, ¬ InTables tables x → k'.machine.mem x = k.machine.mem x) ∧
      ∀ p < 2 ^ 20,
        (OwnPage a.ptr a.size p → pageAt k'.machine.mem chunk.directoryEntry p = 4096 * p ||| 0) ∧
        (¬ OwnPage a.ptr a.size p → pageAt k'.machine.mem chunk.directoryEntry p =
          pageAt k.machine.mem chunk.directoryEntry p) := by
  have hperm : (k.fileBlocks ++ (userAllocs process.allocations ++ live)).Perm
      (⟨a.ptr, a.size⟩ :: (k.fileBlocks ++ (userAllocs (done ++ ⟨0, 0⟩ :: rest) ++ live))) := by
    have hunused : (⟨0, 0⟩ : ProcessAllocation).ptr = 0 := rfl
    rw [hslots, userAllocs_append, userAllocs_append, userAllocs_used ha,
      userAllocs_unused hunused]
    simp only [List.append_assoc, List.cons_append]
    refine (List.Perm.append_left _ List.perm_middle).trans ?_
    exact List.perm_middle
  have hheap : HeapOwns k.machine.heap.heap
      (⟨a.ptr, a.size⟩ :: (k.fileBlocks ++ (userAllocs (done ++ ⟨0, 0⟩ :: rest) ++ live))) :=
    HeapOwns.perm h hperm
  have haligned : a.ptr % 4096 = 0 := hheap.ptr_aligned List.mem_cons_self
  -- no other slot has the pointer
  have hothers : ∀ b ∈ done ++ ⟨0, 0⟩ :: rest, b.ptr ≠ a.ptr := by
    intro b hb hptr
    have hmem : (⟨b.ptr, b.size⟩ : Alloc) ∈
        k.fileBlocks ++ (userAllocs (done ++ ⟨0, 0⟩ :: rest) ++ live) := by
      apply List.mem_append_right
      apply List.mem_append_left
      exact mem_userAllocs hb (by rw [hptr]; exact ha)
    exact hheap.ptr_ne hmem hptr
  have hdone : ∀ b ∈ done, b.ptr ≠ a.ptr := fun b hb => hothers b (List.mem_append_left _ hb)
  have hrest : ∀ b ∈ rest, b.ptr ≠ a.ptr := fun b hb =>
    hothers b (List.mem_append_right _ (List.mem_cons_of_mem _ hb))
  have hget : processGetAllocationByAddr process a.ptr = some ⟨a.ptr, a.size⟩ := by
    have hmem : a ∈ process.allocations := by
      rw [hslots]
      exact List.mem_append_right _ List.mem_cons_self
    refine processGetAllocationByAddr_eq hmem fun b hb hptr => ?_
    rw [hslots, List.mem_append, List.mem_cons] at hb
    rcases hb with hb | hb | hb
    · exact absurd hptr (hdone b hb)
    · exact hb
    · exact absurd hptr (hrest b hb)
  -- so only the one slot is cleared
  have hunjoin : processAllocationUnjoin process a.ptr =
      { process with allocations := done ++ ⟨0, 0⟩ :: rest } := by
    have hkeep : ∀ l : List ProcessAllocation, (∀ b ∈ l, b.ptr ≠ a.ptr) →
        (l.map fun b => if b.ptr = a.ptr then ⟨0, 0⟩ else b) = l := by
      intro l hl
      calc (l.map fun b => if b.ptr = a.ptr then ⟨0, 0⟩ else b) = l.map id :=
            List.map_congr_left fun b hb => if_neg (hl b hb)
        _ = l := List.map_id l
    rw [processAllocationUnjoin, hslots, List.map_append, List.map_cons, if_pos rfl,
      hkeep done hdone, hkeep rest hrest]
  -- the pages of the block are mapped again, without flags
  have hspace' : AddressSpace (pagingMapTo chunk a.ptr a.ptr (a.ptr + 4096 * blocksFor a.size) 0
      k.machine.mem).2 chunk.directoryEntry tables := hspace.pagingMapTo rfl (by omega)
  have hout : ∀ x, ¬ InTables tables x → (pagingMapTo chunk a.ptr a.ptr
      (a.ptr + 4096 * blocksFor a.size) 0 k.machine.mem).2 x = k.machine.mem x :=
    fun x hx => hspace.pagingMapTo_outside rfl (by omega) hx
  have hpages := fun p => @AddressSpace.pagingMapTo_self k.machine.mem _ p a.ptr 0
    (blocksFor a.size) tables chunk hspace rfl (by decide) haligned hend
  rw [processFree_eq hget haligned hend, hunjoin, hchunk]
  generalize (pagingMapTo chunk a.ptr a.ptr (a.ptr + 4096 * blocksFor a.size) 0
    k.machine.mem).2 = mem at hspace' hout hpages
  refine ⟨_, rfl, hheap.heapFree_head, ⟨heapFree_samePool _ _, rfl, rfl, rfl, hspace'⟩, hout,
    fun p hp => ⟨fun hin => ?_, fun hin => ?_⟩⟩
  · exact (hpages p hp).trans (if_pos hin)
  · exact (hpages p hp).trans (if_neg hin)

/-- The loop frees what the slots behind the ones that are done record. -/
lemma terminateLoop_owns : ∀ (rest done : List ProcessAllocation) (k : Kernel),
    (∀ b ∈ done, b.ptr = 0) →
    (∀ b ∈ rest, b.ptr ≠ 0 → b.ptr + 4096 * blocksFor b.size < 2 ^ 32) →
    k.Owns (userAllocs rest ++ live) → k.pageDirectory process = chunk →
    AddressSpace k.machine.mem chunk.directoryEntry tables →
    ∃ k', (List.range' done.length rest.length).foldl processTerminateAllocation
        ({ process with allocations := done ++ rest }, k) =
        ({ process with allocations := done ++ rest.map clearedSlot }, k') ∧
      k'.Owns live ∧ k.Unmaps chunk tables k' := by
  intro rest
  -- on the slots that are left
  induction rest with
  | nil =>
    intro done k _ _ h _ hspace
    exact ⟨k, rfl, h, SamePool.refl _, rfl, rfl, rfl, hspace⟩
  | cons a rest ih =>
    intro done k hdone hend h hchunk hspace
    have hslot : ((done ++ a :: rest).getD done.length ⟨0, 0⟩).ptr = a.ptr := by
      rw [List.getD_eq_getElem?_getD, List.getElem?_append_right le_rfl, Nat.sub_self]
      rfl
    rcases List.forall_mem_cons.mp hend with ⟨hend₁, hend₂⟩
    have happend : ∀ b : ProcessAllocation, b.ptr = 0 →
        (∀ c ∈ done ++ [b], c.ptr = 0) := by
      intro b hb c hc
      rcases List.mem_append.mp hc with hc | hc
      · exact hdone c hc
      · rw [List.mem_singleton.mp hc]
        exact hb
    have hlength : ∀ b : ProcessAllocation, (done ++ [b]).length = done.length + 1 :=
      fun b => List.length_append
    rw [List.length_cons, List.range'_succ, List.foldl_cons, processTerminateAllocation]
    simp only [hslot]
    by_cases h0 : a.ptr = 0
    · -- an unused slot is skipped
      rw [if_neg (not_not.mpr h0)]
      rw [userAllocs_unused h0] at h
      obtain ⟨k', hfold, hown, hunmaps⟩ := ih (done ++ [a]) k (happend a h0) hend₂ h hchunk hspace
      rw [hlength] at hfold
      simp only [List.append_assoc, List.singleton_append] at hfold
      have hcleared : clearedSlot a = a := if_pos h0
      exact ⟨k', by rw [hfold, List.map_cons, hcleared], hown, hunmaps⟩
    · -- a used one is freed and cleared
      rw [if_pos h0]
      have hslots : userAllocs (done ++ a :: rest) = userAllocs (a :: rest) := by
        rw [userAllocs_append, userAllocs_eq_nil hdone, List.nil_append]
      rw [← hslots] at h
      obtain ⟨k₁, hfree, hown₁, hunmaps₁, -⟩ := @processFree_owns k live
        { process with allocations := done ++ a :: rest } chunk tables a done rest rfl h0
        (hend₁ h0) h hchunk hspace
      have hunused : (⟨0, 0⟩ : ProcessAllocation).ptr = 0 := rfl
      rw [userAllocs_append, userAllocs_eq_nil hdone, List.nil_append,
        userAllocs_unused hunused] at hown₁
      have hchunk₁ : k₁.pageDirectory process = chunk := by
        rw [Kernel.pageDirectory, hunmaps₁.tasks]
        exact hchunk
      obtain ⟨k', hfold, hown, hunmaps⟩ := ih (done ++ [⟨0, 0⟩]) k₁ (happend ⟨0, 0⟩ rfl) hend₂
        hown₁ hchunk₁ hunmaps₁.space
      rw [hlength] at hfold
      simp only [List.append_assoc, List.singleton_append] at hfold
      have hcleared : clearedSlot a = ⟨0, 0⟩ := if_neg h0
      exact ⟨k', by rw [hfree, hfold, List.map_cons, hcleared], hown, hunmaps₁.trans hunmaps⟩

/-- **`process_terminate_allocations`**. -/
lemma processTerminateAllocations_owns
    (hlength : process.allocations.length = marrowosMaxProgramAllocation)
    (hend : ∀ b ∈ process.allocations, b.ptr ≠ 0 → b.ptr + 4096 * blocksFor b.size < 2 ^ 32)
    (h : k.Owns (userAllocs process.allocations ++ live)) (hchunk : k.pageDirectory process = chunk)
    (hspace : AddressSpace k.machine.mem chunk.directoryEntry tables) :
    ∃ k', processTerminateAllocations process k =
        ({ process with allocations := process.allocations.map clearedSlot }, k') ∧
      k'.Owns live ∧ k.Unmaps chunk tables k' := by
  have hloop := @terminateLoop_owns live process chunk tables process.allocations [] k
    (fun b hb => absurd hb List.not_mem_nil) hend h hchunk hspace
  rw [hlength, List.length_nil, ← List.range_eq_range'] at hloop
  exact hloop

/-! ## The process -/

/-- What is left to free when the allocations are gone. -/
lemma processFreeProcess_cleared {process' : Process}
    (hterminate : processTerminateAllocations process k = (process', k'))
    (hcleared : ∀ b ∈ process'.allocations, b.ptr = 0) :
    processFreeProcess process k = processFreeProcess process' k' := by
  unfold processFreeProcess
  rw [hterminate, processTerminateAllocations_none hcleared]

/-- The file layer keeps its blocks. -/
lemma processFreeProcess_fileBlocks {process' : Process}
    (hterminate : processTerminateAllocations process k = (process', k')) :
    (processFreeProcess process k).fileBlocks = k'.fileBlocks := by
  unfold processFreeProcess taskFree
  rw [hterminate]
  dsimp only
  split_ifs <;> simp only [Kernel.withMachine_fileBlocks]

/-- **`process_free_process`**, of a process with allocations. -/
lemma processFreeProcess_allocations
    (hlength : process.allocations.length = marrowosMaxProgramAllocation)
    (hend : ∀ b ∈ process.allocations, b.ptr ≠ 0 → b.ptr + 4096 * blocksFor b.size < 2 ^ 32)
    (h : k.Owns (userAllocs process.allocations ++ (process.blocks size chunk tables ++ live)))
    (hchunk : k.pageDirectory process = chunk)
    (hspace : AddressSpace k.machine.mem chunk.directoryEntry tables) :
    (processFreeProcess process k).Owns live ∧
      SamePool k.machine.heap.heap (processFreeProcess process k).machine.heap.heap ∧
      (processFreeProcess process k).fileBlocks = k.fileBlocks ∧
      (processFreeProcess process k).processes = k.processes := by
  obtain ⟨k₁, hterminate, hown, hunmaps⟩ :=
    processTerminateAllocations_owns hlength hend h hchunk hspace
  have hcleared : ∀ b ∈ process.allocations.map clearedSlot, b.ptr = 0 := by
    intro b hb
    rcases List.mem_map.mp hb with ⟨c, -, rfl⟩
    exact clearedSlot_ptr c
  have hfile := (processFreeProcess_fileBlocks hterminate).trans hunmaps.fileBlocks
  rw [processFreeProcess_cleared hterminate hcleared] at hfile ⊢
  have hdirectory : (k₁.tasks.tasks process.task).pageDirectory = chunk := by
    rw [hunmaps.tasks]
    exact hchunk
  rcases @processFreeProcess_owns k₁ live
    { process with allocations := process.allocations.map clearedSlot } size chunk tables hown
    hcleared (fun _ => ⟨hdirectory, hunmaps.space⟩) with ⟨hown', hkeeps⟩
  exact ⟨hown', hunmaps.pool.trans hkeeps.pool, hfile, hkeeps.processes.trans hunmaps.processes⟩

/-- From one block table to the other exactly the blocks of the allocations `mine` are freed. -/
structure FreesExactly (mine : List Alloc) (heap heap' : Heap) : Prop where
  pool : SamePool heap heap'
  freed : ∀ i : ℕ, i < heap.table.total → (∃ a ∈ mine, (heap.extent a).Has i) →
    heapGetEntryType (heap.table.entries i) = heapBlockTableEntryTaken ∧
      heap'.table.entries i = heapBlockTableEntryFree
  same : ∀ i : ℕ, i < heap.table.total → (∀ a ∈ mine, ¬ (heap.extent a).Has i) →
    heap'.table.entries i = heap.table.entries i

/-- The owners before and afterwards tell which blocks were freed. -/
lemma HeapOwns.freesExactly {heap heap' : Heap} (h : HeapOwns heap (mine ++ live))
    (h' : HeapOwns heap' live) (hpool : SamePool heap heap') : FreesExactly mine heap heap' := by
  have htotal := hpool.2
  refine ⟨hpool, fun i hi hmine => ?_, fun i hi hmine => ?_⟩
  · rcases hmine with ⟨a, ha, hhas⟩
    have hmem : a ∈ mine ++ live := List.mem_append_left _ ha
    constructor
    · rw [h.owned a hmem i hhas hi, heapGetEntryType_blockFlags]
    · apply h'.free i (by omega)
      intro b hb hhas'
      rw [hpool.extent] at hhas'
      exact (List.pairwise_append.mp h.apart).2.2 a ha b hb i hhas hhas'
  · by_cases hlive : ∃ b ∈ live, (heap.extent b).Has i
    · rcases hlive with ⟨b, hb, hhas⟩
      have hhas' : (heap'.extent b).Has i := by rwa [hpool.extent]
      rw [h.owned b (List.mem_append_right _ hb) i hhas hi, h'.owned b hb i hhas' (by omega),
        hpool.extent]
    · push Not at hlive
      rw [h'.free i (by omega) (by rwa [hpool.extent])]
      symm
      apply h.free i hi
      intro b hb
      rcases List.mem_append.mp hb with hb | hb
      · exact hmine b hb
      · exact hlive b hb

/-- The blocks of a whole process: its allocations, its task with the address space, its stack, its
program and its structure. -/
def Process.allBlocks (process : Process) (size : ℕ) (chunk : Paging4gbChunk) (tables : List ℕ) :
    List Alloc :=
  userAllocs process.allocations ++ process.blocks size chunk tables

/-- A process of the table, as `process_load_for_slot` and `process_malloc` leave it, with blocks of
its own beside those of `live`. -/
structure LiveProcess (s : System) (process : Process) (size : ℕ) (chunk : Paging4gbChunk)
    (tables : List ℕ) (live : List Alloc) : Prop where
  slot : s.kernel.processes[process.id]? = some (some process)
  length : process.allocations.length = marrowosMaxProgramAllocation
  /-- what `paging_map_to` checked in `process_malloc` -/
  fits : ∀ a ∈ process.allocations, a.ptr ≠ 0 → a.ptr + 4096 * blocksFor a.size < 2 ^ 32
  owns : s.kernel.Owns (process.allBlocks size chunk tables ++ live)
  directory : s.kernel.pageDirectory process = chunk
  space : AddressSpace s.kernel.machine.mem chunk.directoryEntry tables

/-- **Full release.** Ending a process frees exactly its blocks and its slot. -/
theorem processTerminate_releases {s : System} {j : ℕ} {other : Process}
    (h : LiveProcess s process size chunk tables live) (hne : j ≠ process.id)
    (hother : s.kernel.processes[j]? = some (some other)) :
    ∃ s', processTerminate process s = .ok s' ∧
      FreesExactly (process.allBlocks size chunk tables) s.kernel.machine.heap.heap
        s'.kernel.machine.heap.heap ∧
      s'.kernel.processes[process.id]? = some none ∧
      ∀ i, i ≠ process.id → s'.kernel.processes[i]? = s.kernel.processes[i]? := by
  obtain ⟨currentProcess, hunlink⟩ := processUnlink_ok hne hother
  generalize hs₁ : (⟨{ s.kernel with processes := s.kernel.processes.set process.id none },
    currentProcess⟩ : System) = s₁ at hunlink
  have hkernel : s₁.kernel =
      { s.kernel with processes := s.kernel.processes.set process.id none } := by
    rw [← hs₁]
  have hown := h.owns
  rw [Process.allBlocks, List.append_assoc] at hown
  have hown₁ : s₁.kernel.Owns
      (userAllocs process.allocations ++ (process.blocks size chunk tables ++ live)) := by
    rw [hkernel]
    exact hown
  have hdirectory : s₁.kernel.pageDirectory process = chunk := by
    rw [hkernel]
    exact h.directory
  have hspace : AddressSpace s₁.kernel.machine.mem chunk.directoryEntry tables := by
    rw [hkernel]
    exact h.space
  rcases processFreeProcess_allocations h.length h.fits hown₁ hdirectory hspace with
    ⟨hown₂, hpool, hfile, hprocesses⟩
  -- the free is done in the kernel whose slot is cleared already
  refine ⟨{ s₁ with kernel := processFreeProcess process s₁.kernel }, ?_, ?_, ?_, fun i hi => ?_⟩
  · rw [processTerminate, hunlink]
    rfl
  · have hbefore : HeapOwns s.kernel.machine.heap.heap
        (process.allBlocks size chunk tables ++ (s.kernel.fileBlocks ++ live)) :=
      HeapOwns.perm h.owns (List.perm_append_comm_assoc _ _ _)
    have hafter : HeapOwns (processFreeProcess process s₁.kernel).machine.heap.heap
        (s.kernel.fileBlocks ++ live) := by
      have hfile' : (processFreeProcess process s₁.kernel).fileBlocks = s.kernel.fileBlocks := by
        rw [hfile, hkernel]
      rw [← hfile']
      exact hown₂
    rw [hkernel] at hpool
    rw [hkernel] at hafter ⊢
    exact hbefore.freesExactly hafter hpool
  · show (processFreeProcess process s₁.kernel).processes[process.id]? = some none
    rw [hprocesses, hkernel]
    exact List.getElem?_set_self (List.getElem?_eq_some_iff.mp h.slot).1
  · show (processFreeProcess process s₁.kernel).processes[i]? = s.kernel.processes[i]?
    rw [hprocesses, hkernel]
    exact List.getElem?_set_ne hi.symm

/-- A process is live as soon as it is loaded. -/
lemma ProcessLoaded.liveProcess {files : LoadAnswers} {slot : ℕ}
    (h : ProcessLoaded files slot live k k' process chunk tables)
    (hslot : slot < k.processes.length) (currentProcess : ℕ) :
    LiveProcess ⟨k', currentProcess⟩ process files.elf.filesize chunk tables live := by
  have hnone : ∀ a ∈ process.allocations, a.ptr = 0 := by
    rw [h.allocations]
    exact processInit_allocations 0
  have hallocs : userAllocs process.allocations = [] := userAllocs_eq_nil hnone
  constructor
  · rw [h.id, h.processes]
    exact List.getElem?_set_self hslot
  · rw [h.allocations, List.length_replicate]
  · exact fun a ha hne => absurd (hnone a ha) hne
  · rw [Process.allBlocks, hallocs]
    exact h.owns
  · exact h.pageDirectory
  · exact h.space

/-- Two programs of one byte are loaded, and the second one ends. -/
theorem processTerminate_oneByteFile : ∃ p q k₁ k₂ chunk tables s,
    processLoadForSlot ⟨oneByteFile, oneByteFile⟩ 0 bootKernel = .ok (0, some p, k₁) ∧
    processLoadForSlot ⟨oneByteFile, oneByteFile⟩ 1 k₁ = .ok (0, some q, k₂) ∧
    processTerminate q ⟨k₂, p.addr⟩ = .ok s ∧
    FreesExactly (q.allBlocks 1 chunk tables) k₂.machine.heap.heap s.kernel.machine.heap.heap ∧
    s.kernel.processes[q.id]? = some none ∧
    ∀ i, i ≠ q.id → s.kernel.processes[i]? = k₂.processes[i]? := by
  obtain ⟨p, k₁, _, _, hload₁, hp, hroom⟩ :=
    @processLoadForSlot_oneByteFile bootKernel [] 1037 0 bootKernel_owns rfl
      ⟨25600, by decide, bootKernel_room⟩
  have hprocesses : k₁.processes = bootKernel.processes.set 0 (some p) := hp.processes
  have hfree : (processGet k₁ (1 : ℕ)).isNone := by
    rw [processGet, hprocesses]
    rfl
  obtain ⟨q, k₂, chunk, tables, hload₂, hq, -⟩ :=
    @processLoadForSlot_oneByteFile k₁ _ 0 1 hp.owns hfree hroom
  have hlength : 1 < k₁.processes.length := by
    rw [hprocesses, List.length_set]
    exact (by decide : 1 < (List.replicate marrowosMaxProcesses (none : Option Process)).length)
  have hother : k₂.processes[0]? = some (some p) := by
    rw [hq.processes, hprocesses]
    rfl
  have hid : 0 ≠ q.id := by
    rw [hq.id]
    exact Nat.zero_ne_one
  obtain ⟨s, hterminate, hfrees, hslot, hrest⟩ :=
    processTerminate_releases (hq.liveProcess hlength p.addr) hid hother
  exact ⟨p, q, k₁, k₂, chunk, tables, s, hload₁, hload₂, hterminate, hfrees, hslot, hrest⟩

end MarrowOS
