import MarrowOS.Memory.KernelHeapTheorems
import MarrowOS.Memory.PagingTheorems
import MarrowOS.Task.Process

/-!
# What `process_malloc` and `process_free` do

`processMalloc_eq` and `processFree_eq` are the ordinary ways through the two functions, with
the heap, the memory and the allocation table they leave; `processMalloc_zero` is a request
that is rounded to no block at all.
-/

namespace MarrowOS

open ByteMem CInt Extents Fallible FirstSlot

variable {k : Kernel} {process : Process} {live : List Alloc} {a : Alloc} {size : ℕ}

/-! ## The allocation table -/

/-- Some slot of the allocation table is free. -/
def HasFreeSlot (process : Process) : Prop := ∃ a ∈ process.allocations, a.ptr = 0

instance (process : Process) : Decidable (HasFreeSlot process) :=
  inferInstanceAs (Decidable (∃ a ∈ process.allocations, a.ptr = 0))

lemma processFindFreeAllocationIndex_of_full (h : ¬ HasFreeSlot process) :
    processFindFreeAllocationIndex process < 0 := by
  have hnone : firstSlot (fun a : ProcessAllocation => a.ptr == 0) process.allocations = none := by
    refine firstSlot_eq_none.mpr fun i a ha => ?_
    have hne : a.ptr ≠ 0 := fun h₀ => h ⟨a, List.mem_of_getElem? ha, h₀⟩
    simpa using hne
  rw [processFindFreeAllocationIndex, hnone]
  decide

/-- The lowest free slot. -/
lemma processFindFreeAllocationIndex_of_free (h : HasFreeSlot process) :
    ∃ (i : ℕ) (a : ProcessAllocation), process.allocations[i]? = some a ∧ a.ptr = 0 ∧
      processFindFreeAllocationIndex process = i := by
  cases hfirst : firstSlot (fun a : ProcessAllocation => a.ptr == 0) process.allocations with
  | none =>
    obtain ⟨a, ha, h₀⟩ := h
    obtain ⟨i, hi⟩ := List.mem_iff_getElem?.mp ha
    have hne := firstSlot_eq_none.mp hfirst i a hi
    simp [h₀] at hne
  | some r =>
    obtain ⟨i, a⟩ := r
    obtain ⟨hi, ha, -⟩ := firstSlot_eq_some.mp hfirst
    exact ⟨i, a, hi, by simpa using ha, by rw [processFindFreeAllocationIndex, hfirst]⟩

/-! ## `process_malloc` -/

variable {m : Machine KernelHeap} {ptr : ℕ}

/-- A pointer that finds no slot goes back to the heap. -/
lemma processMalloc_of_full (hkz : kzalloc kernelAllocator size k.machine = .ok (ptr, m))
    (hptr : ptr ≠ 0) (hslot : ¬ HasFreeSlot process) :
    processMalloc process size k =
      .ok (0, process, k.withMachine (kfree kernelAllocator ptr m)) := by
  rw [processMalloc, hkz]
  simp only [ok_bind, pure_eq_ok]
  rw [if_neg hptr, if_pos (processFindFreeAllocationIndex_of_full hslot)]

/-- A pointer to whole blocks that finds a slot is mapped and handed out. -/
lemma processMalloc_of_free (hkz : kzalloc kernelAllocator size k.machine = .ok (ptr, m))
    (hptr : ptr ≠ 0) (hslot : HasFreeSlot process) (haligned : ptr % 4096 = 0)
    (hend : ptr + 4096 * blocksFor size < 2 ^ 32) :
    ∃ (i : ℕ) (a : ProcessAllocation), process.allocations[i]? = some a ∧ a.ptr = 0 ∧
      processFindFreeAllocationIndex process = i ∧
      processMalloc process size k = .ok (ptr,
        { process with allocations := process.allocations.set i ⟨ptr, size⟩ },
        k.withMachine { m with mem := (pagingMapTo (k.pageDirectory process) ptr ptr
          (ptr + 4096 * blocksFor size) 7 m.mem).2 }) := by
  obtain ⟨i, a, hi, ha, hindex⟩ := processFindFreeAllocationIndex_of_free hslot
  refine ⟨i, a, hi, ha, hindex, ?_⟩
  rw [processMalloc, hkz]
  simp only [ok_bind, pure_eq_ok]
  rw [if_neg hptr, hindex, if_neg (by omega), pagingAlignAddress_end haligned hend, if_neg]
  · rfl
  · rw [pagingMapTo_fst haligned haligned (by omega) (by omega)]
    omega

/-- A request the heap can satisfy: the process gets the pointer if its table has a free slot,
otherwise the blocks go back. -/
lemma processMalloc_eq (process : Process) (h : HeapInv k.machine.heap.heap live)
    (hpool : PoolOk k.machine.heap.heap)
    (hpos : 1 ≤ size) (hmax : size ≤ 2 ^ 32 - 4096)
    (hrun : HasFreeRun k.machine.heap.heap.table (blocksFor size)) :
    ∃ ptr heap, ptr ≠ 0 ∧ SamePool k.machine.heap.heap heap ∧
      HeapInv heap (⟨ptr, size⟩ :: live) ∧
      if HasFreeSlot process then
        ∃ (i : ℕ) (a : ProcessAllocation), process.allocations[i]? = some a ∧ a.ptr = 0 ∧
          processMalloc process size k = .ok (ptr,
            { process with allocations := process.allocations.set i ⟨ptr, size⟩ },
            k.withMachine ⟨⟨heap, k.machine.heap.overdrawn⟩,
              (pagingMapTo (k.pageDirectory process) ptr ptr (ptr + 4096 * blocksFor size) 7
                (fill k.machine.mem ptr size 0)).2⟩)
      else processMalloc process size k = .ok (0, process, k.withMachine
        ⟨⟨heapFree heap ptr, k.machine.heap.overdrawn⟩, fill k.machine.mem ptr size 0⟩) := by
  obtain ⟨ptr, heap, hptr, hsame, hinv, hkz⟩ := kzalloc_of_hasFreeRun h hpool hpos hmax hrun
  have hpool' := hsame.poolOk hpool
  have hmem : (⟨ptr, size⟩ : Alloc) ∈ ⟨ptr, size⟩ :: live := List.mem_cons_self
  have hend : ptr + 4096 * blocksFor size ≤ 2 ^ 31 := hinv.ptr_end_le hpool' hmem
  refine ⟨ptr, heap, hptr, hsame, hinv, ?_⟩
  split
  · rename_i hslot
    obtain ⟨i, a, hi, ha, -, heq⟩ :=
      processMalloc_of_free hkz hptr hslot (hinv.ptr_aligned hpool' hmem) (by omega)
    exact ⟨i, a, hi, ha, heq⟩
  · rename_i hslot
    exact processMalloc_of_full hkz hptr hslot

/-- A request that is rounded to no block is refused when the pool ends with a taken block. -/
lemma processMalloc_zero_of_lastTaken (hpool : PoolOk k.machine.heap.heap)
    (hzero : heapTotalBlocks size = 0) (hlast : LastTaken k.machine.heap.heap) :
    processMalloc process size k = .ok (0, process, k) := by
  have hmalloc := heapMalloc_zero_of_lastTaken hpool hzero hlast
  simp [processMalloc, kzalloc, kernelAllocator, hmalloc, Kernel.withMachine]

/-- Otherwise it is answered with the address of a free block, unless it is so large that
clearing it would run past the end of memory. -/
lemma processMalloc_zero_of_not_lastTaken (process : Process)
    (h : HeapInv k.machine.heap.heap live)
    (hpool : PoolOk k.machine.heap.heap) (hzero : heapTotalBlocks size = 0)
    (hlast : ¬ LastTaken k.machine.heap.heap) :
    ∃ b : ℕ, b < k.machine.heap.heap.table.total ∧
      heapGetEntryType (k.machine.heap.heap.table.entries b) = heapBlockTableEntryFree ∧
      if size ≠ 0 then processMalloc process size k = .error .outOfBounds
      else if HasFreeSlot process then
        ∃ (i : ℕ) (a : ProcessAllocation), process.allocations[i]? = some a ∧ a.ptr = 0 ∧
          processMalloc process size k = .ok (heapBlockToAddress k.machine.heap.heap b,
            { process with allocations :=
                process.allocations.set i ⟨heapBlockToAddress k.machine.heap.heap b, size⟩ }, k)
      else processMalloc process size k = .ok (0, process, k) := by
  obtain ⟨b, hb, hfree, hmalloc⟩ := heapMalloc_zero_of_not_lastTaken hpool hzero hlast
  refine ⟨b, hb, hfree, ?_⟩
  have haddr := hpool.heapBlockToAddress_eq hb
  have hpos := hpool.pos
  have haligned := hpool.aligned
  have hfits := hpool.fits
  have hback := h.heapFree_of_free hpool hb hfree
  by_cases hsize : size = 0
  · have hkz := kzalloc_zero hsize (by omega) (by omega) hmalloc
    have hblocks : blocksFor size = 0 := by rw [hsize, blocksFor]
    rw [if_neg (not_not.mpr hsize)]
    split
    · rename_i hslot
      obtain ⟨i, a, hi, ha, -, heq⟩ := processMalloc_of_free hkz (by omega) hslot (by omega)
        (by rw [hblocks]; omega)
      refine ⟨i, a, hi, ha, ?_⟩
      rw [heq, hblocks, Nat.mul_zero, Nat.add_zero,
        pagingMapTo_eq (by omega) (by omega) (by omega) le_rfl, Nat.sub_self, Nat.zero_div]
      rfl
    · rename_i hslot
      rw [processMalloc_of_full hkz (by omega) hslot, kfree]
      simp only [kernelAllocator, hback]
      rfl
  · rw [if_pos hsize, processMalloc, kzalloc_large (by omega) hzero hsize hmalloc, error_bind]

/-! ## `process_free` -/

/-- The process finds an allocation by its pointer when no other entry has it. -/
lemma processGetAllocationByAddr_eq {e : ProcessAllocation} (he : e ∈ process.allocations)
    (hunique : ∀ e' ∈ process.allocations, e'.ptr = e.ptr → e' = e) :
    processGetAllocationByAddr process e.ptr = some e := by
  cases hfind : processGetAllocationByAddr process e.ptr with
  | none =>
    have hne := List.find?_eq_none.mp hfind e he
    simp at hne
  | some e' =>
    have hptr := List.find?_some hfind
    rw [hunique e' (List.mem_of_find?_eq_some hfind) (by simpa using hptr)]

/-- Freeing an allocation of whole blocks unmaps them and gives them back. -/
lemma processFree_eq (hget : processGetAllocationByAddr process ptr = some ⟨ptr, size⟩)
    (haligned : ptr % 4096 = 0) (hend : ptr + 4096 * blocksFor size < 2 ^ 32) :
    processFree process ptr k = (processAllocationUnjoin process ptr,
      k.withMachine ⟨⟨heapFree k.machine.heap.heap ptr, k.machine.heap.overdrawn⟩,
        (pagingMapTo (k.pageDirectory process) ptr ptr (ptr + 4096 * blocksFor size) 0
          k.machine.mem).2⟩) := by
  rw [processFree, hget]
  simp only
  rw [pagingAlignAddress_end haligned hend, if_neg]
  · rfl
  · rw [pagingMapTo_fst haligned haligned (by omega) (by omega)]
    omega

end MarrowOS
