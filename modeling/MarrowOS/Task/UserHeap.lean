import MarrowOS.Lib.Runs
import MarrowOS.Task.ProcessTheorems

/-!
# The allocations of all processes

The processes share the block table of the kernel heap. A run of `process_malloc` and
`process_free` calls by any of them records which pointers are live, and `UserSound` says what
the table owes each of them. A size that is rounded to no block is the one thing that breaks
it: `userSound_iff`.
-/

namespace MarrowOS

open ByteMem CInt Extents Runs

/-! ## Runs -/

/-- A live pointer, the slot of the process it was given to, and the size asked for. -/
structure UserAlloc where
  owner : ℕ
  ptr : ℕ
  size : ℕ
deriving DecidableEq, Repr

def UserAlloc.alloc (a : UserAlloc) : Alloc := ⟨a.ptr, a.size⟩

/-- The kernel and the pointers that are live. -/
structure UserRun where
  kernel : Kernel
  live : List UserAlloc

def UserRun.heap (r : UserRun) : Heap := r.kernel.machine.heap.heap

inductive UserOp
  | processMalloc (slot size : ℕ)
  | processFree (slot ptr : ℕ)
deriving DecidableEq, Repr

/-- One call by the process in `slot`; `none` when there is none, or when the call faults. -/
def userStep (r : UserRun) : UserOp → Option UserRun
  | .processMalloc slot size =>
    match r.kernel.processes[slot]? with
    | some (some process) =>
      match processMalloc process size r.kernel with
      | .error _ => none
      | .ok (ptr, process, k) =>
        some ⟨k.setProcess slot process,
          if ptr = 0 then r.live else ⟨slot, ptr, size⟩ :: r.live⟩
    | _ => none
  | .processFree slot ptr =>
    match r.kernel.processes[slot]? with
    | some (some process) =>
      let (process, k) := processFree process ptr r.kernel
      some ⟨k.setProcess slot process,
        r.live.filter fun a => !(a.owner == slot && a.ptr == ptr)⟩
    | _ => none

/-- A live process asks for no more blocks than the longest run of free ones, or frees one of
its own live pointers. -/
def UserAllowed (r : UserRun) : UserOp → Prop
  | .processMalloc slot size =>
    (∃ process, r.kernel.processes[slot]? = some (some process)) ∧ size < 2 ^ 32 ∧
      HasFreeRun r.heap.table (heapTotalBlocks size)
  | .processFree slot ptr => ∃ a ∈ r.live, a.owner = slot ∧ a.ptr = ptr

/-- The size is rounded to at least one block. A request for none is harmless when the pool ends
with a taken block, since it is refused, and a request for zero bytes when the process has no
slot left for the answer. -/
def UserAsks (r : UserRun) : UserOp → Prop
  | .processMalloc slot size =>
    (1 ≤ size ∧ size ≤ 2 ^ 32 - 4096) ∨ LastTaken r.heap ∨
      (size = 0 ∧ ∀ process, r.kernel.processes[slot]? = some (some process) →
        ¬ HasFreeSlot process)
  | .processFree _ _ => True

/-- What the block table owes the live pointers. -/
structure UserSound (r : UserRun) : Prop where
  distinct : r.live.Pairwise fun a b => a.ptr ≠ b.ptr
  apart : AllApart (fun a : UserAlloc => r.heap.extent a.alloc) r.live
  start : ∀ a ∈ r.live, a.ptr = heapBlockToAddress r.heap (r.heap.extent a.alloc).start
  first : ∀ a ∈ r.live, heapGetEntryType
    (r.heap.table.entries (r.heap.extent a.alloc).start) = heapBlockTableEntryTaken
  inside : ∀ a ∈ r.live,
    (r.heap.extent a.alloc).start + (r.heap.extent a.alloc).len ≤ r.heap.table.total
  spans : ∀ a ∈ r.live, a.size ≤ (r.heap.extent a.alloc).len * 4096
  owned : ∀ a ∈ r.live, ∀ i, (r.heap.extent a.alloc).Has i →
    r.heap.table.entries i = blockFlags (r.heap.extent a.alloc).start (r.heap.extent a.alloc).len i

/-! ## The invariant -/

/-- The heap holds the live pointers beside the kernel's own, and the allocation tables of the
processes hold the live pointers. -/
structure UserInv (base : List Alloc) (r : UserRun) : Prop where
  pool : PoolOk r.heap
  heap : HeapInv r.heap (r.live.map UserAlloc.alloc ++ base)
  recorded : ∀ a ∈ r.live, ∃ process, r.kernel.processes[a.owner]? = some (some process) ∧
    ⟨a.ptr, a.size⟩ ∈ process.allocations
  live : ∀ slot process, r.kernel.processes[slot]? = some (some process) →
    ∀ e ∈ process.allocations, e.ptr ≠ 0 → ⟨slot, e.ptr, e.size⟩ ∈ r.live

variable {base : List Alloc} {r r' : UserRun}

lemma UserInv.mem_heap (_h : UserInv base r) {a : UserAlloc} (ha : a ∈ r.live) :
    a.alloc ∈ r.live.map UserAlloc.alloc ++ base :=
  List.mem_append_left _ (List.mem_map_of_mem ha)

lemma UserInv.distinct (h : UserInv base r) : r.live.Pairwise fun a b => a.ptr ≠ b.ptr := by
  have hlive := (List.pairwise_append.mp h.heap.ptr_pairwise).1
  rwa [List.pairwise_map] at hlive

lemma UserInv.apart (h : UserInv base r) :
    AllApart (fun a : UserAlloc => r.heap.extent a.alloc) r.live := by
  have hlive := (List.pairwise_append.mp h.heap.apart).1
  rwa [List.pairwise_map] at hlive

/-- A live pointer has one owner and one size. -/
lemma UserInv.eq_of_ptr (h : UserInv base r) {a b : UserAlloc} (ha : a ∈ r.live) (hb : b ∈ r.live)
    (hptr : a.ptr = b.ptr) : a = b := by
  by_contra hne
  have : Std.Symm fun a b : UserAlloc => a.ptr ≠ b.ptr := ⟨fun _ _ h => h.symm⟩
  exact List.Pairwise.forall h.distinct ha hb hne hptr

lemma UserInv.sound (h : UserInv base r) : UserSound r := by
  have hmem := fun {a} (ha : a ∈ r.live) => h.mem_heap ha
  refine ⟨h.distinct, h.apart, fun a ha => h.heap.ptr_eq _ (hmem ha), fun a ha => ?_,
    fun a ha => h.heap.inside _ (hmem ha),
    fun a _ => le_blocksFor_mul a.size, fun a ha => h.heap.owned _ (hmem ha)⟩
  rw [h.heap.owned _ (hmem ha) _ (Extent.has_start (h.heap.len_pos (hmem ha))),
    heapGetEntryType_blockFlags]

/-! ## Steps -/

variable {slot : ℕ} {process : Process} {m : Machine KernelHeap}

lemma Kernel.setProcess_getElem? {k : Kernel} (hproc : k.processes[slot]? = some (some process))
    (process' : Process) (i : ℕ) : (k.setProcess slot process').processes[i]? =
      if i = slot then some (some process') else k.processes[i]? := by
  have hlt : slot < k.processes.length := (List.getElem?_eq_some_iff.mp hproc).1
  simp only [Kernel.setProcess, List.getElem?_set, hlt, if_true, eq_comm]

/-- Storing the process that is there changes nothing. -/
lemma Kernel.setProcess_self {k : Kernel} (hproc : k.processes[slot]? = some (some process)) :
    k.setProcess slot process = k := by
  obtain ⟨hlt, heq⟩ := List.getElem?_eq_some_iff.mp hproc
  rw [Kernel.setProcess, ← heq, List.set_getElem_self]

/-- Overwriting one entry of a list keeps the entries that differ from it. -/
lemma mem_set_of_ne {α : Type} {l : List α} {i : ℕ} {x y d : α} (hd : l[i]? = some d) (hx : x ∈ l)
    (hne : x ≠ d) : x ∈ l.set i y := by
  obtain ⟨j, hj⟩ := List.mem_iff_getElem?.mp hx
  have hji : i ≠ j := by
    rintro rfl
    exact hne (Option.some.inj (hj.symm.trans hd))
  exact List.mem_of_getElem? ((List.getElem?_set_ne hji).trans hj)

/-- A step that leaves the processes alone, and the heap as it was. -/
lemma UserInv.withMachine (h : UserInv base r) (hpool : SamePool r.heap m.heap.heap)
    (hheap : HeapInv m.heap.heap (r.live.map UserAlloc.alloc ++ base)) :
    UserInv base ⟨r.kernel.withMachine m, r.live⟩ :=
  ⟨hpool.poolOk h.pool, hheap, h.recorded, h.live⟩

/-- A pointer that is handed out and written to a free slot of the process. -/
lemma UserInv.give (h : UserInv base r) (hproc : r.kernel.processes[slot]? = some (some process))
    {i : ℕ} {e : ProcessAllocation} (hi : process.allocations[i]? = some e) (he : e.ptr = 0)
    {ptr size : ℕ} (hpool : SamePool r.heap m.heap.heap)
    (hheap : HeapInv m.heap.heap (⟨ptr, size⟩ :: (r.live.map UserAlloc.alloc ++ base))) :
    UserInv base ⟨(r.kernel.withMachine m).setProcess slot
      { process with allocations := process.allocations.set i ⟨ptr, size⟩ },
      ⟨slot, ptr, size⟩ :: r.live⟩ := by
  have hget := Kernel.setProcess_getElem? (k := r.kernel.withMachine m) hproc
    { process with allocations := process.allocations.set i ⟨ptr, size⟩ }
  obtain ⟨hlt, hgeti⟩ := List.getElem?_eq_some_iff.mp hi
  refine ⟨hpool.poolOk h.pool, hheap, ?_, ?_⟩
  · intro a ha
    simp only [hget]
    rcases List.mem_cons.mp ha with rfl | ha
    · exact ⟨_, if_pos rfl, List.mem_set hlt _⟩
    · obtain ⟨owner, howner, hmem⟩ := h.recorded a ha
      split
      · rename_i hslot
        rw [hslot, hproc] at howner
        obtain rfl := Option.some.inj (Option.some.inj howner)
        refine ⟨_, rfl, mem_set_of_ne hi hmem fun heq => ?_⟩
        have hpos := h.heap.ptr_pos h.pool (h.mem_heap ha)
        rw [← heq] at he
        exact absurd he hpos.ne'
      · exact ⟨owner, howner, hmem⟩
  · intro slot' process' hproc' e' he' hne
    simp only [hget] at hproc'
    split at hproc'
    · rename_i hslot
      obtain rfl := Option.some.inj (Option.some.inj hproc')
      rcases List.mem_or_eq_of_mem_set he' with hold | rfl
      · exact List.mem_cons_of_mem _ (hslot ▸ h.live slot process hproc e' hold hne)
      · exact hslot ▸ List.mem_cons_self
    · exact List.mem_cons_of_mem _ (h.live slot' process' hproc' e' he' hne)

/-- A live pointer that goes back to the heap. -/
lemma UserInv.takeBack (h : UserInv base r)
    (hproc : r.kernel.processes[slot]? = some (some process)) {a : UserAlloc} (ha : a ∈ r.live)
    (howner : a.owner = slot) (hpool : SamePool r.heap m.heap.heap)
    (hheap : m.heap.heap = heapFree r.heap a.ptr) :
    UserInv base ⟨(r.kernel.withMachine m).setProcess slot (processAllocationUnjoin process a.ptr),
      r.live.filter fun b => !(b.owner == slot && b.ptr == a.ptr)⟩ := by
  have hget := Kernel.setProcess_getElem? (k := r.kernel.withMachine m) hproc
    (processAllocationUnjoin process a.ptr)
  -- the filter drops `a` alone
  have hfilter : ∀ b, b ∈ r.live.filter (fun b => !(b.owner == slot && b.ptr == a.ptr)) ↔
      b ∈ r.live ∧ b.ptr ≠ a.ptr := by
    intro b
    rw [List.mem_filter]
    refine and_congr_right fun hb => ?_
    simp only [Bool.not_eq_true', Bool.and_eq_false_imp, beq_iff_eq, beq_eq_false_iff_ne]
    constructor
    · intro hne hptr
      exact hne (by rw [h.eq_of_ptr hb ha hptr, howner]) hptr
    · exact fun hne _ => hne
  refine ⟨hpool.poolOk h.pool, ?_, ?_, ?_⟩
  · -- the heap
    have hfree := heapFree_inv h.heap (h.mem_heap ha)
    have hbase : base.filter (·.ptr ≠ a.alloc.ptr) = base := by
      refine List.filter_eq_self.mpr fun c hc => ?_
      have hne := (List.pairwise_append.mp h.heap.ptr_pairwise).2.2 _ (List.mem_map_of_mem ha) c hc
      simpa using hne.symm
    have hlive : (r.live.map UserAlloc.alloc).filter (·.ptr ≠ a.alloc.ptr) =
        (r.live.filter fun b => !(b.owner == slot && b.ptr == a.ptr)).map UserAlloc.alloc := by
      rw [List.filter_map]
      refine congrArg _ (List.filter_congr fun b hb => ?_)
      have hiff := hfilter b
      rw [List.mem_filter, and_congr_right_iff] at hiff
      rw [Bool.eq_iff_iff, hiff hb]
      exact decide_eq_true_iff
    rw [List.filter_append, hlive, hbase] at hfree
    show HeapInv m.heap.heap _
    rw [hheap]
    exact hfree
  · intro b hb
    -- the other allocations are still recorded
    obtain ⟨hb, hne⟩ := (hfilter b).mp hb
    obtain ⟨owner, howner', hmem⟩ := h.recorded b hb
    simp only [hget]
    split
    · rename_i hslot
      rw [hslot, hproc] at howner'
      obtain rfl := Option.some.inj (Option.some.inj howner')
      refine ⟨_, rfl, List.mem_map.mpr ⟨_, hmem, if_neg hne⟩⟩
    · exact ⟨owner, howner', hmem⟩
  · -- and nothing else is
    intro slot' process' hproc' e he hne
    simp only [hget] at hproc'
    split at hproc'
    · rename_i hslot
      obtain rfl := Option.some.inj (Option.some.inj hproc')
      obtain ⟨e', he', rfl⟩ := List.mem_map.mp he
      split at hne
      · exact absurd rfl hne
      · rename_i hptr
        rw [if_neg hptr]
        exact (hfilter _).mpr ⟨hslot ▸ h.live slot process hproc e' he' hne, hptr⟩
    · refine (hfilter _).mpr ⟨h.live slot' process' hproc' e he hne, fun hptr => ?_⟩
      have heq := h.eq_of_ptr (h.live slot' process' hproc' e he hne) ha hptr
      have hown := congrArg UserAlloc.owner heq
      rename_i hslot
      exact hslot (hown.trans howner)

/-- A call that asks for at least one block, or is refused, goes through and keeps the
invariant. -/
lemma userStep_inv (h : UserInv base r) {op : UserOp} (hallowed : UserAllowed r op)
    (hasks : UserAsks r op) : ∃ r', userStep r op = some r' ∧ UserInv base r' := by
  cases op with
  | processMalloc slot size =>
    obtain ⟨⟨process, hproc⟩, hsize, hrun⟩ := hallowed
    have hrefused : processMalloc process size r.kernel = .ok (0, process, r.kernel) →
        ∃ r', userStep r (.processMalloc slot size) = some r' ∧ UserInv base r' := by
      intro heq
      refine ⟨r, ?_, h⟩
      simp [userStep, hproc, heq, Kernel.setProcess_self hproc]
    -- a request that rounds to no block is answered with a block that somebody else may get
    by_cases hzero : heapTotalBlocks size = 0
    · by_cases hlast : LastTaken r.heap
      · exact hrefused (processMalloc_zero_of_lastTaken h.pool hzero hlast)
      · obtain ⟨b, -, -, heq⟩ := processMalloc_zero_of_not_lastTaken process h.heap
          h.pool hzero hlast
        obtain ⟨hpos, hmax⟩ | hlast' | ⟨h₀, hfull⟩ := hasks
        · have hblocks := blocksFor_pos hpos
          rw [heapTotalBlocks_eq hmax] at hzero
          omega
        · exact absurd hlast' hlast
        · rw [if_neg (not_not.mpr h₀), if_neg (hfull process hproc)] at heq
          exact hrefused heq
    · -- any other is granted, and recorded in a free slot
      have hpos : 1 ≤ size := by
        by_contra h₀
        exact hzero (by rw [show size = 0 by omega]; rfl)
      have hmax : size ≤ 2 ^ 32 - 4096 := by
        by_contra hlarge
        exact hzero (heapTotalBlocks_eq_zero (by omega) hsize)
      rw [heapTotalBlocks_eq hmax] at hrun
      obtain ⟨ptr, heap, hptr, hpool, hheap, heq⟩ := processMalloc_eq process h.heap
        h.pool hpos hmax hrun
      by_cases hslot : HasFreeSlot process
      · rw [if_pos hslot] at heq
        obtain ⟨i, e, hi, he, heq⟩ := heq
        simp only [userStep, hproc, heq, if_neg hptr]
        exact ⟨_, rfl, h.give hproc hi he hpool hheap⟩
      · rw [if_neg hslot] at heq
        simp only [userStep, hproc, heq, if_pos]
        refine ⟨_, rfl, ?_⟩
        rw [Kernel.setProcess_self (by exact hproc)]
        refine h.withMachine (hpool.trans (heapFree_samePool heap ptr)) ?_
        exact hheap.heapFree_head
  | processFree slot ptr =>
    obtain ⟨a, ha, howner, rfl⟩ := hallowed
    obtain ⟨process, hproc, hmem⟩ := h.recorded a ha
    rw [howner] at hproc
    -- the pointer is in one slot only
    have hget : processGetAllocationByAddr process a.ptr = some ⟨a.ptr, a.size⟩ := by
      refine processGetAllocationByAddr_eq hmem fun e' he' hptr => ?_
      have hpos := h.heap.ptr_pos h.pool (h.mem_heap ha)
      have hptr : e'.ptr = a.ptr := hptr
      have hlive := h.live slot process hproc e' he' (by rw [hptr]; exact hpos.ne')
      have heq := h.eq_of_ptr hlive ha hptr
      rw [← heq]
    have hend : a.ptr + 4096 * blocksFor a.size ≤ 2 ^ 31 := h.heap.ptr_end_le h.pool (h.mem_heap ha)
    have heq := processFree_eq (k := r.kernel) hget (h.heap.ptr_aligned h.pool (h.mem_heap ha))
      (by omega)
    simp only [userStep, hproc, heq]
    exact ⟨_, rfl, h.takeBack hproc ha howner (heapFree_samePool _ _) rfl⟩

/-- A pointer that was handed out for no block is not marked. -/
lemma userStep_unsound (h : UserInv base r) {op : UserOp} (hallowed : UserAllowed r op)
    (hasks : ¬ UserAsks r op) (hstep : userStep r op = some r') : ¬ UserSound r' := by
  cases op with
  | processFree slot ptr => exact absurd trivial hasks
  | processMalloc slot size =>
    obtain ⟨⟨process, hproc⟩, hsize, -⟩ := hallowed
    obtain ⟨hfits, hlast, hfull⟩ : ¬ (1 ≤ size ∧ size ≤ 2 ^ 32 - 4096) ∧ ¬ LastTaken r.heap ∧
        ¬ (size = 0 ∧ ∀ process, r.kernel.processes[slot]? = some (some process) →
          ¬ HasFreeSlot process) := by
      simpa only [UserAsks, not_or] using hasks
    have hzero : heapTotalBlocks size = 0 := by
      rcases Nat.eq_zero_or_pos size with rfl | hpos
      · rfl
      · exact heapTotalBlocks_eq_zero (by omega) hsize
    obtain ⟨b, hb, hfree, heq⟩ := processMalloc_zero_of_not_lastTaken process h.heap
      h.pool hzero hlast
    by_cases h₀ : size = 0
    · have hslot : HasFreeSlot process := by
        by_contra hslot
        refine hfull ⟨h₀, fun process' hproc' => ?_⟩
        obtain rfl := Option.some.inj (Option.some.inj (hproc.symm.trans hproc'))
        exact hslot
      rw [if_neg (not_not.mpr h₀), if_pos hslot] at heq
      obtain ⟨i, e, -, -, heq⟩ := heq
      -- the pointer is recorded, but its first block is free
      have hne : heapBlockToAddress r.heap b ≠ 0 := by
        have haddr := h.pool.heapBlockToAddress_eq hb
        have hpos := h.pool.pos
        omega
      have hlt : b < 2 ^ 19 := lt_trans (show b < r.heap.table.total from hb) h.pool.total_lt
      have hblock := r.heap.blockOf_heapBlockToAddress hlt
      simp only [userStep, hproc, heq] at hstep
      rw [if_neg (by exact hne)] at hstep
      obtain rfl := Option.some.inj hstep
      intro hsound
      have hfirst := hsound.first _ List.mem_cons_self
      simp only [Heap.extent, UserAlloc.alloc] at hfirst
      have htaken : heapGetEntryType (r.heap.table.entries b) = heapBlockTableEntryTaken := by
        rw [← hblock]
        exact hfirst
      have hfree' : heapGetEntryType (r.heap.table.entries b) = heapBlockTableEntryFree := hfree
      rw [htaken] at hfree'
      exact absurd hfree' (by decide)
    · rw [if_pos h₀] at heq
      simp [userStep, hproc, heq] at hstep

/-! ## Soundness -/

/-- A state from which user runs start: a sound heap, whose pool lies where its addresses are
positive `int`s, and processes without allocations. -/
structure UserStart (base : List Alloc) (k : Kernel) : Prop where
  pool : PoolOk k.machine.heap.heap
  heap : HeapInv k.machine.heap.heap base
  empty : ∀ (slot : ℕ) (process : Process), k.processes[slot]? = some (some process) →
    ∀ e ∈ process.allocations, e.ptr = 0

lemma UserStart.inv {k : Kernel} (h : UserStart base k) : UserInv base ⟨k, []⟩ :=
  ⟨h.pool, h.heap, by simp, fun slot process hproc e he hne =>
    absurd (h.empty slot process hproc e he) hne⟩

/-- **User heap.** Of the runs in which the processes never ask for more blocks than the longest
run of free ones and free only what is theirs, those that go through and have the block table
sound in every state are the runs without a request that is rounded to no block, but for the
requests that come to nothing. -/
theorem userSound_iff {base : List Alloc} {k : Kernel} (hstart : UserStart base k)
    (ops : List UserOp) (hallowed : Meets userStep UserAllowed ⟨k, []⟩ ops) :
    ((run userStep ⟨k, []⟩ ops).isSome ∧ Throughout userStep UserSound ⟨k, []⟩ ops) ↔
      Meets userStep UserAsks ⟨k, []⟩ ops :=
  isSome_and_throughout_iff_meets (I := UserInv base) (fun _ h => h.sound)
    (fun _ _ h hallowed hasks => userStep_inv h hallowed hasks)
    (fun _ _ _ h hallowed hasks hstep => userStep_unsound h hallowed hasks hstep)
    hstart.inv hallowed

/-- The kernel after `kheap_init`, with two processes. -/
def twoProcessKernel : Kernel where
  machine := ⟨⟨(kheapInit fun _ => 0).2, false⟩, fun _ => 0⟩
  tasks := ⟨0, 0, 0, fun _ => ⟨⟨4096, 8192⟩, {}, 0, 0, 0⟩⟩
  fileBlocks := []
  processes := [some (processInit 12288), some (processInit 16384)]

lemma twoProcessKernel_start : UserStart [] twoProcessKernel := by
  refine ⟨kheapInit_poolOk _, heapCreate_inv (kheapInit_eq _) (by norm_num), ?_⟩
  intro slot process hproc e he
  have hmem := List.mem_of_getElem? hproc
  simp only [twoProcessKernel, List.mem_cons, Option.some.injEq, List.not_mem_nil, or_false] at hmem
  rcases hmem with rfl | rfl <;> rw [List.eq_of_mem_replicate he]

lemma twoProcessKernel_free (i : ℕ) (hi : i < 25600) :
    heapGetEntryType (twoProcessKernel.machine.heap.heap.table.entries i) =
      heapBlockTableEntryFree := by
  have hentries := (heapCreate_inv (kheapInit_eq fun _ => 0) (by norm_num)).free i
    (by rw [kheapInit_total]; exact hi) (by simp)
  rw [show twoProcessKernel.machine.heap.heap = (kheapInit fun _ => 0).2 from rfl, hentries]
  decide

/-- A first request of a process. -/
theorem userSound_firstRequest :
    ((run userStep ⟨twoProcessKernel, []⟩ [.processMalloc 0 100]).isSome ∧
        Throughout userStep UserSound ⟨twoProcessKernel, []⟩ [.processMalloc 0 100]) ↔
      Meets userStep UserAsks ⟨twoProcessKernel, []⟩ [.processMalloc 0 100] := by
  refine userSound_iff twoProcessKernel_start _ ⟨⟨⟨_, rfl⟩, by norm_num, 0, Nat.zero_le _, ?_, ?_⟩,
    fun _ _ => trivial⟩
  · decide
  · intro i _ hi
    exact twoProcessKernel_free i (lt_of_lt_of_le hi (by decide))

/-- `process_malloc` of no bytes hands out the address of a block that it leaves unmarked. -/
theorem processMalloc_zero_unmarked :
    UserStart [] twoProcessKernel ∧
      Meets userStep UserAllowed ⟨twoProcessKernel, []⟩ [.processMalloc 0 0] ∧
      ¬ ((run userStep ⟨twoProcessKernel, []⟩ [.processMalloc 0 0]).isSome ∧
        Throughout userStep UserSound ⟨twoProcessKernel, []⟩ [.processMalloc 0 0]) := by
  have hallowed : UserAllowed ⟨twoProcessKernel, []⟩ (.processMalloc 0 0) :=
    ⟨⟨_, rfl⟩, by norm_num, 0, Nat.zero_le _, Nat.zero_le _, fun i _ hi =>
      absurd hi (Nat.not_lt_zero i)⟩
  have hlast : ¬ LastTaken twoProcessKernel.machine.heap.heap := by
    rintro (htotal | htaken)
    · exact absurd htotal (by decide)
    · exact htaken (twoProcessKernel_free 25599 (by norm_num))
  have hasks : ¬ UserAsks ⟨twoProcessKernel, []⟩ (.processMalloc 0 0) := by
    rintro (⟨hpos, -⟩ | hlast' | ⟨-, hfull⟩)
    · omega
    · exact hlast hlast'
    · exact hfull _ rfl (by decide)
  refine ⟨twoProcessKernel_start, ⟨hallowed, fun _ _ => trivial⟩, ?_⟩
  rintro ⟨hrun, hsound⟩
  obtain ⟨r, hr⟩ := Option.isSome_iff_exists.mp hrun
  obtain ⟨r', hstep, -⟩ := run_cons.mp hr
  exact userStep_unsound twoProcessKernel_start.inv hallowed hasks hstep (hsound.2 r' hstep)

end MarrowOS
