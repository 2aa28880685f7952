import MarrowOS.Memory.HeapSoundness
import MarrowOS.Memory.KernelHeap

/-!
# The kernel heap as an allocator

What `kmalloc` and `kfree` answer on a heap whose pool lies, block-aligned and above address
`0`, in the lower half of the address space, as the pool of `kheap_init` does. A request for no
block at all (`heapMalloc_zero`) succeeds exactly when the last block of the pool is free, and
then answers the address of a block it has not marked.
-/

namespace MarrowOS

open ByteMem CInt Extents Fallible

/-- Where the pool lies. -/
structure PoolOk (heap : Heap) : Prop where
  pos : 0 < heap.saddr
  aligned : heap.saddr % 4096 = 0
  fits : heap.saddr + 4096 * heap.table.total ≤ 2 ^ 31

variable {heap : Heap} {live : List Alloc} {a : Alloc} {size : ℕ}

lemma SamePool.poolOk {heap' : Heap} (h : SamePool heap heap') (hpool : PoolOk heap) :
    PoolOk heap' := by
  obtain ⟨haddr, htotal⟩ := h
  constructor
  · rw [haddr]
    exact hpool.pos
  · rw [haddr]
    exact hpool.aligned
  · rw [haddr, htotal]
    exact hpool.fits

lemma kheapInit_total (entries : ℤ → HeapBlockTableEntry) :
    (kheapInit entries).2.table.total = 25600 := by rfl

lemma kheapInit_fst (entries : ℤ → HeapBlockTableEntry) : (kheapInit entries).1 = 0 := by rfl

/-- `kheap_init` succeeds. -/
lemma kheapInit_eq (entries : ℤ → HeapBlockTableEntry) :
    kheapInit entries = (0, (kheapInit entries).2) :=
  Prod.ext (kheapInit_fst entries) rfl

/-- The pool of `kheap_init`. -/
theorem kheapInit_poolOk (entries : ℤ → HeapBlockTableEntry) : PoolOk (kheapInit entries).2 := by
  have hsaddr : (kheapInit entries).2.saddr = 0x01000000 := rfl
  refine ⟨?_, ?_, ?_⟩ <;> rw [hsaddr]
  · norm_num
  · rw [kheapInit_total]
    norm_num

lemma PoolOk.total_lt (hpool : PoolOk heap) : heap.table.total < 2 ^ 19 := by
  have := hpool.fits
  have := hpool.pos
  omega

/-- Block `b` starts `b` blocks into the pool. -/
lemma PoolOk.heapBlockToAddress_eq (hpool : PoolOk heap) {b : ℕ} (hb : b < heap.table.total) :
    heapBlockToAddress heap b = heap.saddr + 4096 * b := by
  have hfits := hpool.fits
  have hpos := hpool.pos
  unfold heapBlockToAddress
  simp only [marrowosHeapBlockSize]
  rw [i32_of_lt (by omega) (by omega), u32_of_lt (by omega) (by omega)]
  omega

/-! ## Live pointers -/

lemma HeapInv.ptr_eq_of_pool (h : HeapInv heap live) (hpool : PoolOk heap) (ha : a ∈ live) :
    a.ptr = heap.saddr + 4096 * (heap.extent a).start := by
  rw [h.ptr_eq a ha, hpool.heapBlockToAddress_eq (h.start_lt ha),
    ← hpool.heapBlockToAddress_eq (h.start_lt ha), ← h.ptr_eq a ha]

lemma HeapInv.ptr_pos (h : HeapInv heap live) (hpool : PoolOk heap) (ha : a ∈ live) :
    0 < a.ptr := by
  have := h.ptr_eq_of_pool hpool ha
  have := hpool.pos
  omega

lemma HeapInv.ptr_aligned (h : HeapInv heap live) (hpool : PoolOk heap) (ha : a ∈ live) :
    a.ptr % 4096 = 0 := by
  have := h.ptr_eq_of_pool hpool ha
  have := hpool.aligned
  omega

/-- The blocks of a live allocation end below `2 ^ 31`. -/
lemma HeapInv.ptr_end_le (h : HeapInv heap live) (hpool : PoolOk heap) (ha : a ∈ live) :
    a.ptr + 4096 * blocksFor a.size ≤ 2 ^ 31 := by
  have hptr := h.ptr_eq_of_pool hpool ha
  have hin : (heap.extent a).start + blocksFor a.size ≤ heap.table.total := h.inside a ha
  have hfits := hpool.fits
  omega

/-- No two live allocations have one address. -/
lemma HeapInv.ptr_pairwise (h : HeapInv heap live) :
    live.Pairwise fun a b => a.ptr ≠ b.ptr := by
  refine List.Pairwise.imp_of_mem (fun {a b} ha hb hapart hptr => ?_) h.apart
  have hstart : (heap.extent a).start = (heap.extent b).start := by
    rw [Heap.extent, Heap.extent, hptr]
  exact Extent.Apart.start_ne hapart (h.len_pos ha) (h.len_pos hb) hstart

/-- The invariant does not depend on the order of the live allocations. -/
lemma HeapInv.perm {live' : List Alloc} (h : HeapInv heap live) (hperm : live.Perm live') :
    HeapInv heap live' := by
  have hmem : ∀ a, a ∈ live' ↔ a ∈ live := fun a => hperm.symm.mem_iff
  refine ⟨h.total_le, fun a ha => h.size_pos a ((hmem a).mp ha),
    fun a ha => h.ptr_eq a ((hmem a).mp ha), fun a ha => h.inside a ((hmem a).mp ha), ?_,
    fun a ha => h.owned a ((hmem a).mp ha), fun i hi hno => ?_⟩
  · exact (hperm.pairwise_iff fun h => Extent.Apart.symm h).mp h.apart
  · exact h.free i hi fun a ha => hno a ((hmem a).mpr ha)

/-- Freeing the pointer that came last. -/
lemma HeapInv.heapFree_head (h : HeapInv heap (a :: live)) :
    HeapInv (heapFree heap a.ptr) live := by
  have hsame := heapFree_samePool heap a.ptr
  refine h.table.heapFree_head.inv fun c hc => ?_
  rw [hsame.extent, hsame.2]
  exact h.inside c (List.mem_cons_of_mem a hc)

/-! ## Requests for no block -/

/-- What a scan for no block holds after `k` entries: the start of the run of free blocks that
ends there, `-1` if there is none. -/
def EndRun (entries : ℤ → HeapBlockTableEntry) (k : ℕ) (start : ℤ) : Prop :=
  if k = 0 ∨ heapGetEntryType (entries ((k : ℤ) - 1)) ≠ heapBlockTableEntryFree then start = -1
  else 0 ≤ start ∧ start < k ∧ heapGetEntryType (entries start) = heapBlockTableEntryFree

/-- A scan for no block never stops early. -/
lemma heapGetStartBlockLoop_zero (entries : ℤ → HeapBlockTableEntry) :
    ∀ (n i cur : ℕ) (start : ℤ), i + n < 2 ^ 31 → cur ≤ i → EndRun entries i start →
      EndRun entries (i + n) (heapGetStartBlockLoop entries 0 n i cur start) := by
  intro n
  induction n with
  | zero => exact fun i cur start _ _ h => h
  | succ n ih =>
    intro i cur start hi hcur hstart
    have hlast : (((i + 1 : ℕ) : ℤ) - 1) = i := by omega
    rw [show i + (n + 1) = i + 1 + n by omega]
    by_cases hfree : heapGetEntryType (entries i) = heapBlockTableEntryFree
    · have hnext : i32 ((cur : ℤ) + 1) = ((cur + 1 : ℕ) : ℤ) := by
        rw [i32_of_lt (by omega) (by omega), Nat.cast_succ]
      have hlt : cur + 1 < 2 ^ 32 := by omega
      rw [heapGetStartBlockLoop, if_neg (not_not.mpr hfree), i32_of_lt (by omega) (by omega)]
      simp only [hnext, u32_natCast_of_lt hlt]
      rw [if_neg (Nat.succ_ne_zero cur)]
      refine ih (i + 1) (cur + 1) _ (by omega) (by omega) ?_
      rw [EndRun, hlast, if_neg (by simp [hfree])]
      unfold EndRun at hstart
      split
      · exact ⟨by omega, by omega, hfree⟩
      · rename_i hne
        split at hstart
        · exact absurd hstart hne
        · exact ⟨hstart.1, by omega, hstart.2.2⟩
    · rw [heapGetStartBlockLoop, if_pos hfree]
      refine ih (i + 1) 0 (-1) (by omega) (by omega) ?_
      rw [EndRun, hlast, if_pos (.inr hfree)]

/-- Whether the pool ends with a taken block. -/
def LastTaken (heap : Heap) : Prop :=
  heap.table.total = 0 ∨
    heapGetEntryType (heap.table.entries (heap.table.total - 1)) ≠ heapBlockTableEntryFree

instance (heap : Heap) : Decidable (LastTaken heap) := inferInstanceAs (Decidable (_ ∨ _))

lemma heapMarkBlocksTaken_zero (heap : Heap) (startBlock : ℤ) :
    heapMarkBlocksTaken heap startBlock 0 = heap := by
  have hn : (startBlock + 0 - 1 + 1 - startBlock).toNat = 0 := by omega
  rw [heapMarkBlocksTaken]
  simp only [hn]
  rfl

/-- A request for no block is refused when the pool ends with a taken block. -/
lemma heapMalloc_zero_of_lastTaken (hpool : PoolOk heap) (hzero : heapTotalBlocks size = 0)
    (hlast : LastTaken heap) : heapMalloc heap size = (0, heap) := by
  have htotal := hpool.total_lt
  have hscan := heapGetStartBlockLoop_zero heap.table.entries heap.table.total 0 0
    (-1) (by omega) le_rfl (by simp [EndRun])
  rw [Nat.zero_add, Nat.cast_zero, EndRun, if_pos (by exact hlast)] at hscan
  rw [heapMalloc, hzero, heapMallocBlocks, heapGetStartBlock, hscan]
  simp

/-- Otherwise it is answered with the address of a free block, and nothing is marked. -/
lemma heapMalloc_zero_of_not_lastTaken (hpool : PoolOk heap) (hzero : heapTotalBlocks size = 0)
    (hlast : ¬ LastTaken heap) :
    ∃ b : ℕ, b < heap.table.total ∧
      heapGetEntryType (heap.table.entries b) = heapBlockTableEntryFree ∧
      heapMalloc heap size = (heapBlockToAddress heap b, heap) := by
  have htotal := hpool.total_lt
  have hscan := heapGetStartBlockLoop_zero heap.table.entries heap.table.total 0 0
    (-1) (by omega) le_rfl (by simp [EndRun])
  rw [Nat.zero_add, Nat.cast_zero, EndRun, if_neg (by exact hlast)] at hscan
  rw [heapMalloc, hzero, heapMallocBlocks, heapGetStartBlock]
  generalize heapGetStartBlockLoop heap.table.entries 0 heap.table.total 0 0 (-1) = start at hscan
  obtain ⟨h₀, h₁, hfree⟩ := hscan
  obtain ⟨b, rfl⟩ := Int.eq_ofNat_of_zero_le h₀
  refine ⟨b, by omega, hfree, ?_⟩
  rw [if_neg (show ¬ (b : ℤ) = -1 by omega), if_neg (by omega), Nat.cast_zero,
    i32_of_lt (by omega) (by omega), heapMarkBlocksTaken_zero]

/-- Freeing a block that is free already changes nothing. -/
lemma HeapInv.heapFree_of_free (h : HeapInv heap live) (hpool : PoolOk heap) {b : ℕ}
    (hb : b < heap.table.total)
    (hfree : heapGetEntryType (heap.table.entries b) = heapBlockTableEntryFree) :
    heapFree heap (heapBlockToAddress heap b) = heap := by
  have hentry := h.free b hb fun a ha => h.not_has_of_free hfree ha
  have htotal := hpool.total_lt
  rw [heapFree, heapAddressToBlock_heapBlockToAddress heap (by omega)]
  exact heapMarkBlocksFree_of_free hentry

/-! ## `kzalloc` -/

variable {m : Machine KernelHeap}

/-- A request the heap can satisfy gets the first run that is long enough, cleared. -/
lemma kzalloc_run (hpool : PoolOk m.heap.heap) (hpos : 1 ≤ size) (hmax : size ≤ 2 ^ 32 - 4096)
    (hrun : HasFreeRun m.heap.heap.table (blocksFor size)) :
    ∃ b : ℕ, FreeRun m.heap.heap.table (blocksFor size) b ∧
      heapGetStartBlock m.heap.heap (blocksFor size) = b ∧
      kzalloc kernelAllocator size m = .ok (m.heap.heap.saddr + 4096 * b,
        ⟨⟨heapMarkBlocksTaken m.heap.heap b (blocksFor size), m.heap.overdrawn⟩,
          fill m.mem (m.heap.heap.saddr + 4096 * b) size 0⟩) := by
  have htotal := hpool.total_lt
  have hblocks := blocksFor_pos hpos
  obtain ⟨b, hb, hstart, heq⟩ := heapMalloc_eq (by omega) hpos hmax hrun
  have hfit := hb.1
  have hsaddr := hpool.pos
  have hfits := hpool.fits
  have hsize := le_blocksFor_mul size
  have hasked : HasFreeRun m.heap.heap.table (heapTotalBlocks size) := by
    rwa [heapTotalBlocks_eq hmax]
  refine ⟨b, hb, hstart, ?_⟩
  rw [hpool.heapBlockToAddress_eq (by omega)] at heq
  generalize heapMarkBlocksTaken m.heap.heap b (blocksFor size) = heap at heq ⊢
  simp only [kzalloc, kernelAllocator, heq, hasked, decide_true, Bool.not_true, Bool.and_false,
    Bool.or_false]
  rw [if_neg (by omega), memset, if_neg (by omega)]
  rfl

/-- In a heap that satisfied every request it is a new live pointer. -/
lemma kzalloc_of_hasFreeRun (h : HeapInv m.heap.heap live) (hpool : PoolOk m.heap.heap)
    (hpos : 1 ≤ size) (hmax : size ≤ 2 ^ 32 - 4096)
    (hrun : HasFreeRun m.heap.heap.table (blocksFor size)) :
    ∃ ptr heap, ptr ≠ 0 ∧ SamePool m.heap.heap heap ∧ HeapInv heap (⟨ptr, size⟩ :: live) ∧
      kzalloc kernelAllocator size m =
        .ok (ptr, ⟨⟨heap, m.heap.overdrawn⟩, fill m.mem ptr size 0⟩) := by
  obtain ⟨b, hb, -, hkz⟩ := kzalloc_run hpool hpos hmax hrun
  have hfit := hb.1
  have hblocks := blocksFor_pos hpos
  have hsaddr := hpool.pos
  have hinv := h.take hpos hb
  rw [hpool.heapBlockToAddress_eq (by omega)] at hinv
  exact ⟨_, _, by omega, heapMarkBlocksTaken_samePool _ _ _, hinv, hkz⟩

/-- A request that is rounded to no block and answered with a pointer. -/
lemma kmalloc_zero {ptr : ℕ} (hzero : heapTotalBlocks size = 0)
    (hmalloc : heapMalloc m.heap.heap size = (ptr, m.heap.heap)) :
    kernelAllocator.kmalloc size m.heap = (ptr, m.heap) := by
  have hrun : HasFreeRun m.heap.heap.table (heapTotalBlocks size) := by
    rw [hzero]
    exact ⟨0, Nat.zero_le _, Nat.zero_le _, fun i h₀ h₁ => by omega⟩
  simp only [kernelAllocator, hmalloc, hrun, decide_true, Bool.not_true, Bool.and_false,
    Bool.or_false]

/-- Zero bytes: there is nothing to clear. -/
lemma kzalloc_zero {ptr : ℕ} (hsize : size = 0) (hne : ptr ≠ 0) (hlt : ptr < 2 ^ 31)
    (hmalloc : heapMalloc m.heap.heap size = (ptr, m.heap.heap)) :
    kzalloc kernelAllocator size m = .ok (ptr, m) := by
  have hzero : heapTotalBlocks size = 0 := by rw [hsize]; rfl
  have hfits : ¬ 2 ^ 32 < ptr + size := by omega
  have hfill : fill m.mem ptr size 0 = m.mem := by rw [hsize, fill_zero]
  rw [kzalloc, kmalloc_zero hzero hmalloc]
  simp only [if_neg hne, memset, if_neg hfits, hfill, ok_bind, pure_eq_ok]

/-- The sizes that wrap around: clearing them runs past the end of memory. -/
lemma kzalloc_large {ptr : ℕ} (hptr : 4096 ≤ ptr) (hzero : heapTotalBlocks size = 0)
    (hsize : size ≠ 0) (hmalloc : heapMalloc m.heap.heap size = (ptr, m.heap.heap)) :
    kzalloc kernelAllocator size m = .error .outOfBounds := by
  have hlarge : 2 ^ 32 - 4096 < size := by
    by_contra hle
    have hpos := blocksFor_pos (show 1 ≤ size by omega)
    rw [heapTotalBlocks_eq (by omega)] at hzero
    omega
  have hover : 2 ^ 32 < ptr + size := by omega
  rw [kzalloc, kmalloc_zero hzero hmalloc]
  simp only [if_neg (show ¬ ptr = 0 by omega), memset, if_pos hover, error_bind]

end MarrowOS
