import MarrowOS.Task.Allocations
import MarrowOS.Task.ArgumentWalk

/-!
# Requests of a process, one after the other

`process_malloc` answers a request for one block when a slot of the allocation table and a block of
the heap are free, and refuses it otherwise (`OwnsSpace.processMalloc_block`). What is granted
leaves the rest of the memory that is in use alone (`MallocGranted`).
-/

namespace MarrowOS

open ByteMem CInt Extents Fallible

variable {k : Kernel} {process : Process} {live : List Alloc} {ptr size : ℕ} {tables : List ℕ}
  {m : Machine KernelHeap}

/-! ## Requests to the heap -/

/-- The heap answers a request of moderate size, one way or the other. -/
lemma HeapOwns.kzalloc_ok (h : HeapOwns m.heap.heap live) (hmax : size ≤ 2 ^ 31) :
    ∃ ptr m', kzalloc kernelAllocator size m = .ok (ptr, m') := by
  cases hk : kernelAllocator.kmalloc size m.heap with
  | mk ptr heap =>
  unfold kzalloc
  rw [hk]
  dsimp only
  by_cases hptr : ptr = 0
  · rw [if_pos hptr]
    exact ⟨_, _, rfl⟩
  rw [if_neg hptr]
  have hend : ptr + size ≤ 2 ^ 32 := by
    rcases kmalloc_owns h (by omega) hk with
      ⟨h0, -⟩ | ⟨-, -, ⟨i, hi, heq, -⟩, -⟩ | ⟨-, -, -, hown, -⟩
    · exact absurd h0 hptr
    · have hfits := h.pool.fits
      omega
    · have hlt : ptr + 4096 ≤ 2 ^ 31 := hown.ptr_lt List.mem_cons_self
      omega
  rw [memset, if_neg (by omega)]
  exact ⟨_, _, rfl⟩

/-- Without a free block there is nothing to hand out. -/
lemma kzalloc_of_full (hpool : PoolOk m.heap.heap) (hsize : size < 2 ^ 32)
    (hfull : freeBlocks m.heap.heap = 0) : ∃ m', kzalloc kernelAllocator size m = .ok (0, m') := by
  rcases heapMalloc_cases hpool hsize with hnone | ⟨b, hb, hfree, -⟩
  · rcases kmalloc_eq hnone with ⟨overdrawn, heq⟩
    unfold kzalloc
    rw [heq]
    exact ⟨_, rfl⟩
  · rw [freeBlocks, ← not_ne_iff, Nat.count_ne_iff_exists] at hfull
    exact absurd ⟨b, hb, hfree b le_rfl hb (Or.inr rfl)⟩ hfull

/-! ## Requests of a process -/

/-- The byte is not in a page table of the process, and lies below the heap or in an allocation that
is live. -/
def InUse (heap : Heap) (live : List Alloc) (tables : List ℕ) (x : ℕ) : Prop :=
  ¬ InTables tables x ∧ (x < heap.saddr ∨ ∃ a ∈ live, a.Covers x)

lemma InUse.mono {heap heap' : Heap} {live' : List Alloc} {x : ℕ} (h : InUse heap live tables x)
    (hpool : SamePool heap heap') (hsub : ∀ a ∈ live, a ∈ live') : InUse heap' live' tables x := by
  refine ⟨h.1, ?_⟩
  rcases h.2 with hbelow | ⟨a, ha, hax⟩
  · left
    rw [hpool.1]
    exact hbelow
  · exact Or.inr ⟨a, hsub a ha, hax⟩

/-- The process got the pointer. -/
structure MallocGranted (process : Process) (size : ℕ) (k : Kernel) (live : List Alloc)
    (tables : List ℕ) (ptr : ℕ) (process' : Process) (k' : Kernel) : Prop where
  malloc : processMalloc process size k = .ok (ptr, process', k')
  ptr_ne : ptr ≠ 0
  slot : ∃ (i : ℕ) (a : ProcessAllocation), process.allocations[i]? = some a ∧ a.ptr = 0 ∧
    process' = { process with allocations := process.allocations.set i ⟨ptr, size⟩ }
  owns : OwnsSpace process' k' (⟨ptr, size⟩ :: live) tables
  kernel : k' = k.withMachine k'.machine
  pool : SamePool k.machine.heap.heap k'.machine.heap.heap
  same : ∀ x, InUse k.machine.heap.heap live tables x → k'.machine.mem x = k.machine.mem x

/-- What the heap hands out is recorded and mapped. -/
lemma OwnsSpace.processMalloc_granted (h : OwnsSpace process k live tables) (hpos : 1 ≤ size)
    (hmax : size ≤ 2 ^ 30) (hkz : kzalloc kernelAllocator size k.machine = .ok (ptr, m))
    (hptr : ptr ≠ 0) (hslot : HasFreeSlot process) :
    ∃ process' k', MallocGranted process size k live tables ptr process' k' ∧
      k'.machine.heap = m.heap := by
  rcases kzalloc_owns h.heap (by omega) hkz with
    ⟨h0, -⟩ | ⟨hzero, -⟩ | ⟨-, -, hown, hpool, hfill⟩
  · exact absurd h0 hptr
  · omega
  have haligned : ptr % 4096 = 0 := hown.ptr_aligned List.mem_cons_self
  have hlt : ptr + 4096 ≤ 2 ^ 31 := hown.ptr_lt List.mem_cons_self
  have hend : ptr + 4096 * blocksFor size < 2 ^ 32 := by
    unfold blocksFor
    omega
  have hout : ∀ x, ¬ (⟨ptr, size⟩ : Alloc).Covers x → m.mem x = k.machine.mem x := by
    intro x hx
    rw [hfill]
    apply fill_of_outside
    by_contra hin
    exact hx (Alloc.covers_of_lt (by omega) (by omega))
  have hsame := hown.sameOn_of_head hout
  rcases h.sameOn hsame with ⟨hspace, -⟩
  obtain ⟨i, a, hi, h0, -, hmalloc⟩ := processMalloc_of_free hkz hptr hslot haligned hend
  refine ⟨_, _, ⟨hmalloc, hptr, ⟨i, a, hi, h0, rfl⟩, ⟨hown, ?_, ?_, fun a ha => ?_⟩, rfl, hpool,
    fun x hx => ?_⟩, rfl⟩
  · exact hspace.pagingMapTo rfl (by omega)
  · exact List.mem_cons_of_mem _ h.directory
  · exact List.mem_cons_of_mem _ (h.tables a ha)
  · refine (hspace.pagingMapTo_outside rfl (by omega) hx.1).trans ?_
    rcases hx.2 with hbelow | ⟨a, ha, hax⟩
    · apply hout
      intro hcovers
      have hge : ptr = m.heap.heap.saddr + _ := hown.ptr_eq _ List.mem_cons_self
      have hsaddr := hpool.1
      have hle : ptr ≤ x := hcovers.1
      omega
    · exact hsame a ha x hax

/-- A request that is refused leaves the process as it was. -/
lemma processMalloc_null (hkz : kzalloc kernelAllocator size k.machine = .ok (ptr, m))
    (hrefused : ptr = 0 ∨ ¬ HasFreeSlot process) :
    ∃ k', processMalloc process size k = .ok (0, process, k') := by
  by_cases hptr : ptr = 0
  · refine ⟨k.withMachine m, ?_⟩
    rw [processMalloc, hkz]
    simp only [ok_bind, pure_eq_ok]
    rw [if_pos hptr]
  · exact ⟨_, processMalloc_of_full hkz hptr (hrefused.resolve_left hptr)⟩

/-- **A request for one block.** -/
theorem OwnsSpace.processMalloc_block (h : OwnsSpace process k live tables) (hpos : 1 ≤ size)
    (hone : size ≤ 4096) :
    (0 < freeSlots process ∧ 0 < freeBlocks k.machine.heap.heap ∧
      ∃ ptr process' k', MallocGranted process size k live tables ptr process' k' ∧
        freeSlots process' + 1 = freeSlots process ∧
        freeBlocks k'.machine.heap.heap + 1 = freeBlocks k.machine.heap.heap) ∨
    ((freeSlots process = 0 ∨ freeBlocks k.machine.heap.heap = 0) ∧
      ∃ k', processMalloc process size k = .ok (0, process, k')) := by
  have hpool := h.heap.pool
  by_cases hfree : 0 < freeBlocks k.machine.heap.heap
  · obtain ⟨b, hb, hlt, -, hkz⟩ := kzalloc_block hpool hpos hone hfree
    have hsaddr := hpool.pos
    by_cases hslot : HasFreeSlot process
    · left
      refine ⟨hasFreeSlot_iff.mp hslot, hfree, ?_⟩
      obtain ⟨process', k', hgranted, hheap⟩ :=
        h.processMalloc_granted hpos (by omega) hkz (by omega) hslot
      obtain ⟨i, a, hi, h0, heq⟩ := hgranted.slot
      refine ⟨_, process', k', hgranted, ?_, ?_⟩
      · rw [heq]
        exact freeSlots_record hi h0 hgranted.ptr_ne
      · rw [hheap]
        exact freeBlocks_take hlt hb
    · right
      have hnone : freeSlots process = 0 := Nat.eq_zero_of_not_pos (mt hasFreeSlot_iff.mpr hslot)
      exact ⟨Or.inl hnone, processMalloc_null hkz (Or.inr hslot)⟩
  · right
    have hfull : freeBlocks k.machine.heap.heap = 0 := Nat.eq_zero_of_not_pos hfree
    obtain ⟨m', hkz⟩ := @kzalloc_of_full size k.machine hpool (by omega) hfull
    exact ⟨Or.inr hfull, processMalloc_null hkz (Or.inl rfl)⟩

end MarrowOS
