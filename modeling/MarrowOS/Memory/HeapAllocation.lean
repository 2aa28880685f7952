import Mathlib.Order.Interval.Finset.Nat
import MarrowOS.Memory.HeapOwnership
import Mathlib.Data.Nat.Count

/-!
# What `heap_malloc_blocks` answers

A request for `n` blocks is meant to get the first run of `n` free blocks, or nothing.

* `heapGetStartBlock_least`: with a run that is long enough it gets the first one.
* `refusesSafely_iff`: without one it is refused only if the table ends with a taken block. The scan
  does not look at its counter after the last entry: the free blocks at the end are the answer,
  and `heap_mark_blocks_taken` marks past them, outside the table.
-/

namespace MarrowOS

open CInt FirstFit

variable {heap : Heap} {n s : ℕ}

/-! ## A run that is long enough -/

/-- A run of free blocks has a first one. -/
lemma HasFreeRun.exists_least {table : HeapTable} (h : HasFreeRun table n) :
    ∃ s, FreeRun table n s ∧ ∀ t, FreeRun table n t → s ≤ t := by
  classical
  have hex : ∃ s, FreeRun table n s := by
    obtain ⟨s, -, hs⟩ := h
    exact ⟨s, hs⟩
  exact ⟨Nat.find hex, Nat.find_spec hex, fun t ht => Nat.find_min' hex ht⟩

lemma FreeRun.hasFreeRun {table : HeapTable} (h : FreeRun table n s) : HasFreeRun table n := by
  have hfit := h.1
  exact ⟨s, by omega, h⟩

/-- The scan finds the first run, if there is one. -/
lemma FreeRun.startBlock_eq (htable : heap.table.total < 2 ^ 32) (hn : 1 ≤ n)
    (hrun : FreeRun heap.table n s) (hleast : ∀ t, FreeRun heap.table n t → s ≤ t) :
    heapGetStartBlock heap n = i32 (s : ℤ) := by
  have hscan : scan (BlockFree heap.table.entries) n heap.table.total 0 0 = some s :=
    scan_eq_of_least hn hrun hleast
  rw [heapGetStartBlock_eq_scan htable, hscan, Option.elim_some]

/-- A size some run of free blocks is large enough for is not one that rounds up to `2 ^ 32`. -/
lemma PoolOk.size_le (hpool : PoolOk heap) {size : ℕ}
    (hrun : HasFreeRun heap.table (blocksFor size)) : size ≤ 2 ^ 32 - 4096 := by
  obtain ⟨s, -, hfit, -⟩ := hrun
  have htotal := hpool.total_lt
  have hsize := le_blocksFor_mul size
  omega

/-- **First fit and completeness.** Whenever some run of `n` blocks is free, the start block is the
first such run's; and `heap_malloc` of a size that some run is large enough for is not null. -/
theorem heapGetStartBlock_least (heap : Heap) (htable : heap.table.total ≤ 2 ^ 31) :
    (∀ n, 1 ≤ n → HasFreeRun heap.table n →
      ∃ s : ℕ, heapGetStartBlock heap n = s ∧ FreeRun heap.table n s ∧
        ∀ t, FreeRun heap.table n t → s ≤ t) ∧
    ∀ size, PoolOk heap → 1 ≤ size → HasFreeRun heap.table (blocksFor size) →
      (heapMalloc heap size).1 ≠ 0 := by
  constructor
  · intro n hn hrun
    obtain ⟨s, hs, hleast⟩ := hrun.exists_least
    have hfit := hs.1
    refine ⟨s, ?_, hs, hleast⟩
    rw [hs.startBlock_eq (by omega) hn hleast]
    exact i32_of_lt (by omega) (by omega)
  · intro size hpool hsize hrun
    have hblocks := blocksFor_pos hsize
    have htotal := hpool.total_lt
    have hpos := hpool.pos
    obtain ⟨b, hb, -, heq⟩ := heapMalloc_eq (by omega) hsize (hpool.size_le hrun) hrun
    have hfit := hb.1
    rw [heq, hpool.heapBlockToAddress_eq (by omega)]
    simp only [ne_eq]
    omega

/-- Three blocks in use, a hole of one block, and two free blocks behind a block in use. -/
def fragmentedHeap : Heap :=
  ⟨⟨fun i => if i = 3 ∨ i = 5 ∨ i = 6 then heapBlockTableEntryFree else heapBlockTableEntryTaken,
    8⟩, 0x01000000⟩

/-- The hole is too small for two blocks. -/
theorem heapGetStartBlock_fragmentedHeap :
    heapGetStartBlock fragmentedHeap 2 = 5 ∧ (heapMalloc fragmentedHeap 5000).1 ≠ 0 := by
  have hleast := heapGetStartBlock_least fragmentedHeap (by decide)
  constructor
  · obtain ⟨s, hs, hrun, hfirst⟩ := hleast.1 2 (by decide) (by decide)
    have hle := hfirst 5 (by decide)
    have hfive : ∀ t ≤ 5, FreeRun fragmentedHeap.table 2 t → t = 5 := by decide
    rw [hs, hfive s hle hrun]
    rfl
  · have hpool : PoolOk fragmentedHeap := ⟨by decide, by decide, by decide⟩
    exact hleast.2 5000 hpool (by decide) (by decide)

/-! ## One block -/

/-- How many blocks of the pool are free. -/
def freeBlocks (heap : Heap) : ℕ := Nat.count (BlockFree heap.table.entries) heap.table.total

/-- A free block is a run for a request of one block. -/
lemma hasFreeRun_one (h : 0 < freeBlocks heap) : HasFreeRun heap.table 1 := by
  have hne : freeBlocks heap ≠ 0 := by omega
  rw [freeBlocks, Nat.count_ne_iff_exists] at hne
  obtain ⟨s, hs, hfree⟩ := hne
  refine ⟨s, by omega, by omega, fun i h₀ h₁ => ?_⟩
  obtain rfl : s = i := by omega
  exact hfree

/-- Taking a free block leaves the others. -/
lemma freeBlocks_take (hs : s < heap.table.total) (hfree : BlockFree heap.table.entries s) :
    freeBlocks (heapMarkBlocksTaken heap s (1 : ℕ)) + 1 = freeBlocks heap := by
  have htaken : (heapMarkBlocksTaken heap s (1 : ℕ)).table.total = heap.table.total := rfl
  rw [freeBlocks, freeBlocks, htaken, Nat.count_eq_card_filter_range,
    Nat.count_eq_card_filter_range]
  have hmem : s ∈ (Finset.range heap.table.total).filter (BlockFree heap.table.entries) :=
    Finset.mem_filter.mpr ⟨Finset.mem_range.mpr hs, hfree⟩
  rw [← Finset.card_erase_add_one hmem]
  congr 2
  ext j
  rw [Finset.mem_erase, Finset.mem_filter, Finset.mem_filter, BlockFree,
    heapMarkBlocksTaken_entries heap Nat.one_pos]
  by_cases hj : j = s
  · subst hj
    rw [if_pos (by omega), heapGetEntryType_blockFlags]
    simp
  · rw [if_neg (by omega)]
    simp [hj]

/-- A request for at most one block gets the first free one. -/
lemma kzalloc_block {m : Machine KernelHeap} {size : ℕ} (hpool : PoolOk m.heap.heap)
    (hpos : 1 ≤ size) (hone : size ≤ 4096) (hfree : 0 < freeBlocks m.heap.heap) :
    ∃ b : ℕ, BlockFree m.heap.heap.table.entries b ∧ b < m.heap.heap.table.total ∧
      heapGetStartBlock m.heap.heap 1 = b ∧
      kzalloc kernelAllocator size m = .ok (m.heap.heap.saddr + 4096 * b,
        ⟨⟨heapMarkBlocksTaken m.heap.heap b (1 : ℕ), m.heap.overdrawn⟩,
          ByteMem.fill m.mem (m.heap.heap.saddr + 4096 * b) size 0⟩) := by
  have hblocks : blocksFor size = 1 := by
    unfold blocksFor
    omega
  have hrun : HasFreeRun m.heap.heap.table (blocksFor size) := by
    rw [hblocks]
    exact hasFreeRun_one hfree
  obtain ⟨b, hb, hstart, hkz⟩ := kzalloc_run hpool hpos (by omega) hrun
  rw [hblocks] at hb hstart hkz
  exact ⟨b, hb.2 b le_rfl (by omega), hb.1, hstart, hkz⟩

/-- Heaps that answer `n` more requests for one block: each leaves one that answers one less. -/
def Serves (P : ℕ → Heap → Prop) : Prop :=
  ∀ (n size : ℕ) (m : Machine KernelHeap), 1 ≤ size → size ≤ 4096 → P (n + 1) m.heap.heap →
    ∃ ptr m', kzalloc kernelAllocator size m = .ok (ptr, m') ∧ ptr ≠ 0 ∧ P n m'.heap.heap

/-- At least `n` blocks are free. -/
def HasBlocks (n : ℕ) (heap : Heap) : Prop := PoolOk heap ∧ n ≤ freeBlocks heap

lemma serves_hasBlocks : Serves HasBlocks := by
  rintro n size m hpos hone ⟨hpool, hfree⟩
  obtain ⟨b, hb, hlt, -, hkz⟩ := kzalloc_block hpool hpos hone (by omega)
  have hcount := freeBlocks_take hlt hb
  have hsaddr := hpool.pos
  have hsame := heapMarkBlocksTaken_samePool m.heap.heap b (1 : ℕ)
  exact ⟨_, _, hkz, by omega, hsame.poolOk hpool, by simp only; omega⟩

/-- The last `n` blocks are free, and no others. -/
def FreeTail (n : ℕ) (heap : Heap) : Prop :=
  PoolOk heap ∧ n ≤ heap.table.total ∧
    ∀ i < heap.table.total, BlockFree heap.table.entries i ↔ heap.table.total - n ≤ i

/-- The first blocks of the tail are the ones that are handed out. -/
lemma FreeTail.start {c : ℕ} (h : FreeTail (n + c) heap) (hc : 1 ≤ c) :
    heapGetStartBlock heap c = (heap.table.total - (n + c) : ℕ) := by
  rcases h with ⟨hpool, hle, hfree⟩
  have htotal := hpool.total_lt
  have hrun : FreeRun heap.table c (heap.table.total - (n + c)) := by
    refine ⟨by omega, fun i h₀ h₁ => (hfree i (by omega)).mpr h₀⟩
  apply heapGetStartBlock_eq (by omega) hc hrun
  intro t ht
  have hfit := ht.1
  exact (hfree t (by omega)).mp (ht.2 t le_rfl (by omega))

lemma FreeTail.startAddress (h : FreeTail (n + 1) heap) :
    heapBlockToAddress heap (heapGetStartBlock heap 1) =
      heap.saddr + 4096 * (heap.table.total - (n + 1)) := by
  have hle := h.2.1
  rw [h.start le_rfl, h.1.heapBlockToAddress_eq (by omega)]

/-- A request for no block gets the same block, and does not take it. -/
lemma FreeTail.heapMalloc_zero (h : FreeTail (n + 1) heap) :
    heapMalloc heap 0 = (heap.saddr + 4096 * (heap.table.total - (n + 1)), heap) := by
  rcases h with ⟨hpool, hle, hfree⟩
  have htotal := hpool.total_lt
  have htail : FreeFrom (BlockFree heap.table.entries) heap.table.total
      (heap.table.total - (n + 1)) :=
    ⟨by omega, fun i h₀ h₁ => (hfree i h₁).mpr h₀⟩
  have hnone : ∀ t, ¬ Run (BlockFree heap.table.entries) heap.table.total
      (heap.table.total + 1) t := fun t ht => by
    have hfit := ht.1
    omega
  have hscan : scan (BlockFree heap.table.entries) 0 heap.table.total 0 0 =
      some (heap.table.total - (n + 1)) := by
    rw [scan_zero (show 0 + heap.table.total < heap.table.total + 1 by omega)]
    rcases scan_cases_of_not_run (Nat.succ_pos _) hnone with ⟨s, hs, hfrom, hleast⟩ | ⟨-, hno⟩
    · have hle := hleast _ htail
      have hge := (hfree s hfrom.1).mp (hfrom.2 s le_rfl hfrom.1)
      rw [hs, Nat.le_antisymm hle hge]
    · exact absurd htail (hno _)
  have hstart : heapGetStartBlock heap 0 = (heap.table.total - (n + 1) : ℕ) := by
    rw [heapGetStartBlock_eq_scan (by omega), hscan, Option.elim_some]
    exact i32_of_lt (by omega) (by omega)
  have hzero : heapTotalBlocks 0 = 0 := rfl
  rw [heapMalloc, hzero, heapMallocBlocks, hstart, if_neg (by omega), Nat.cast_zero,
    i32_of_lt (by omega) (by omega), heapMarkBlocksTaken_zero,
    hpool.heapBlockToAddress_eq (by omega)]

lemma FreeTail.freeBlocks_eq (h : FreeTail n heap) : freeBlocks heap = n := by
  rcases h with ⟨-, hle, hfree⟩
  have htail : (Finset.range heap.table.total).filter (BlockFree heap.table.entries) =
      Finset.Ico (heap.table.total - n) heap.table.total := by
    ext i
    rw [Finset.mem_filter, Finset.mem_range, Finset.mem_Ico]
    constructor
    · rintro ⟨hi, hblock⟩
      exact ⟨(hfree i hi).mp hblock, hi⟩
    · rintro ⟨hge, hi⟩
      exact ⟨hi, (hfree i hi).mpr hge⟩
  rw [freeBlocks, Nat.count_eq_card_filter_range, htail, Nat.card_Ico]
  omega

lemma FreeTail.freeBlocks_pos (h : FreeTail (n + 1) heap) : 0 < freeBlocks heap := by
  rw [h.freeBlocks_eq]
  exact Nat.succ_pos n

/-- A request that the tail is long enough for gets its first blocks. -/
lemma FreeTail.kzalloc {m : Machine KernelHeap} {size : ℕ}
    (h : FreeTail (n + blocksFor size) m.heap.heap) (hpos : 1 ≤ size)
    (hmax : size ≤ 2 ^ 32 - 4096) :
    ∃ ptr m', kzalloc kernelAllocator size m = .ok (ptr, m') ∧ ptr ≠ 0 ∧ ptr < 2 ^ 31 ∧
      FreeTail n m'.heap.heap := by
  have hblocks := blocksFor_pos hpos
  have hstart := h.start hblocks
  rcases h with ⟨hpool, hle, hfree⟩
  have htotal := hpool.total_lt
  have hfits := hpool.fits
  have hrun : HasFreeRun m.heap.heap.table (blocksFor size) := by
    refine ⟨m.heap.heap.table.total - (n + blocksFor size), by omega, by omega, fun i h₀ h₁ => ?_⟩
    exact (hfree i (by omega)).mpr h₀
  obtain ⟨b, -, hb, hkz⟩ := kzalloc_run hpool hpos hmax hrun
  rw [hstart] at hb
  have hsaddr := hpool.pos
  have hsame := heapMarkBlocksTaken_samePool m.heap.heap b (blocksFor size)
  refine ⟨_, _, hkz, by omega, by omega, hsame.poolOk hpool, ?_, fun i hi => ?_⟩
  · exact (show n ≤ m.heap.heap.table.total by omega)
  · show BlockFree _ i ↔ m.heap.heap.table.total - n ≤ i
    have hi' : i < m.heap.heap.table.total := hi
    rw [BlockFree, heapMarkBlocksTaken_entries _ hblocks]
    by_cases heq : b ≤ i ∧ i < b + blocksFor size
    · rw [if_pos (by omega), heapGetEntryType_blockFlags]
      exact iff_of_false (by decide) (by omega)
    · rw [if_neg (by omega)]
      exact (hfree i hi').trans (by omega)

lemma serves_freeTail : Serves FreeTail := by
  intro n size m hpos hone h
  have hblocks : blocksFor size = 1 := by
    unfold blocksFor
    omega
  rw [← hblocks] at h
  obtain ⟨ptr, m', hkz, hne, -, htail⟩ := h.kzalloc hpos (by omega)
  exact ⟨ptr, m', hkz, hne, htail⟩

/-! ## No run that is long enough -/

/-- Entry `j` is not the same in the two heaps. -/
def Writes (heap heap' : Heap) (j : ℤ) : Prop := heap'.table.entries j ≠ heap.table.entries j

instance (heap heap' : Heap) (j : ℤ) : Decidable (Writes heap heap' j) :=
  inferInstanceAs (Decidable (_ ≠ _))

/-- A request for `n` blocks that no run of free blocks is long enough for is refused, and no
request writes outside the table or over a block in use. -/
def RefusesSafely (heap : Heap) (n : ℕ) : Prop :=
  (¬ HasFreeRun heap.table n →
    heapGetStartBlock heap n < 0 ∧ heapMallocBlocks heap n = (0, heap)) ∧
  ∀ j, Writes heap (heapMallocBlocks heap n).2 j →
    (0 ≤ j ∧ j < heap.table.total) ∧
      heapGetEntryType (heap.table.entries j) = heapBlockTableEntryFree

/-- The table ends with free blocks, from a block on that an `int` can number. -/
def EndsFree (table : HeapTable) : Prop :=
  ∃ t < 2 ^ 31, FreeFrom (BlockFree table.entries) table.total t

lemma heapMallocBlocks_of_neg (h : heapGetStartBlock heap n < 0) :
    heapMallocBlocks heap n = (0, heap) := by
  rw [heapMallocBlocks, if_pos h]

/-- The number of blocks to mark is an `int`: none are marked if that is negative. -/
lemma heapMarkBlocksTaken_entries_i32 (heap : Heap) {s n : ℕ} (hn : 0 < n) (hmax : n < 2 ^ 32)
    (j : ℤ) (hj : ¬ ((s : ℤ) ≤ j ∧ j < s + n)) :
    (heapMarkBlocksTaken heap s (i32 (n : ℤ))).table.entries j = heap.table.entries j := by
  by_cases hint : n < 2 ^ 31
  · rw [i32_of_lt (by omega) (by omega), heapMarkBlocksTaken_entries heap hn, if_neg hj]
  · have hneg : i32 (n : ℤ) = n - 2 ^ 32 := i32_of_large (by omega) (by omega)
    have hloop : ((s : ℤ) + i32 n - 1 + 1 - s).toNat = 0 := by omega
    rw [heapMarkBlocksTaken]
    simp only [hloop, Heap.withEntries_entries]
    rfl

/-- A request that some run is long enough for writes that run at most. -/
lemma FreeRun.refusesSafely (htable : heap.table.total < 2 ^ 32) (hn : 1 ≤ n) (hmax : n < 2 ^ 32)
    (hrun : FreeRun heap.table n s) (hleast : ∀ t, FreeRun heap.table n t → s ≤ t) :
    RefusesSafely heap n := by
  have hstart := hrun.startBlock_eq htable hn hleast
  have hfit := hrun.1
  refine ⟨fun hnone => absurd hrun.hasFreeRun hnone, fun j hj => ?_⟩
  by_cases hneg : heapGetStartBlock heap n < 0
  · rw [heapMallocBlocks_of_neg hneg] at hj
    exact absurd rfl hj
  · have hs : s < 2 ^ 31 := by
      by_contra hs
      rw [hstart, i32_of_large (by omega) (by omega)] at hneg
      omega
    rw [i32_of_lt (by omega) (by omega)] at hstart
    have hmalloc : (heapMallocBlocks heap n).2 = heapMarkBlocksTaken heap s (i32 (n : ℤ)) := by
      rw [heapMallocBlocks, if_neg hneg, hstart]
    rw [hmalloc] at hj
    have hin : (s : ℤ) ≤ j ∧ j < s + n := by
      by_contra hin
      exact hj (heapMarkBlocksTaken_entries_i32 heap hn hmax j hin)
    obtain ⟨i, rfl⟩ := Int.eq_ofNat_of_zero_le (by omega : 0 ≤ j)
    exact ⟨by omega, hrun.2 i (by omega) (by omega)⟩

/-- **Refusals.** A request is handled as it should be exactly when some run is long enough or the
table does not end with free blocks. -/
theorem refusesSafely_iff (heap : Heap) (n : ℕ) (htable : heap.table.total < 2 ^ 32) (hn : 1 ≤ n)
    (hmax : n < 2 ^ 32) :
    RefusesSafely heap n ↔ HasFreeRun heap.table n ∨ ¬ EndsFree heap.table := by
  by_cases hrun : HasFreeRun heap.table n
  · obtain ⟨s, hs, hleast⟩ := hrun.exists_least
    exact iff_of_true (hs.refusesSafely htable hn hmax hleast) (Or.inl hrun)
  have hnone : ∀ t, ¬ Run (BlockFree heap.table.entries) heap.table.total n t :=
    fun t ht => hrun (FreeRun.hasFreeRun ht)
  have hstart := @heapGetStartBlock_eq_scan heap n htable
  constructor
  · intro hsafe
    right
    rintro ⟨t, ht, hfrom⟩
    have hneg := (hsafe.1 hrun).1
    -- the scan answers with the free blocks at the end
    rcases scan_cases_of_not_run hn hnone with ⟨s, hs, -, hleast⟩ | ⟨-, hno⟩
    · have hle := hleast t hfrom
      rw [hstart, hs, Option.elim_some, i32_of_lt (by omega) (by omega)] at hneg
      omega
    · exact hno t hfrom
  · rintro (hhas | hend)
    · exact absurd hhas hrun
    have hneg : heapGetStartBlock heap n < 0 := by
      rw [hstart]
      rcases scan_cases_of_not_run hn hnone with ⟨s, hs, hfrom, -⟩ | ⟨hs, -⟩
      · -- the free blocks at the end start at a block no `int` can number
        have hlt := hfrom.1
        have hge : 2 ^ 31 ≤ s := by
          by_contra hge
          exact hend ⟨s, by omega, hfrom⟩
        rw [hs, Option.elim_some, i32_of_large (by omega) (by omega)]
        omega
      · rw [hs, Option.elim_none]
        decide
    have hmalloc := heapMallocBlocks_of_neg hneg
    refine ⟨fun _ => ⟨hneg, hmalloc⟩, fun j hj => ?_⟩
    rw [hmalloc] at hj
    exact absurd rfl hj

/-- Two blocks, both free, and what lies behind the table. -/
def twoBlockHeap : Heap := ⟨⟨fun _ => heapBlockTableEntryFree, 2⟩, 0x01000000⟩

/-- Three blocks are "found" in a table of two. -/
theorem refusesSafely_twoBlockHeap :
    ¬ HasFreeRun twoBlockHeap.table 3 ∧ heapGetStartBlock twoBlockHeap 3 = 0 ∧
      Writes twoBlockHeap (heapMallocBlocks twoBlockHeap 3).2 2 ∧
      ¬ RefusesSafely twoBlockHeap 3 := by
  have hnone : ¬ HasFreeRun twoBlockHeap.table 3 := by decide
  have hstart : heapGetStartBlock twoBlockHeap 3 = 0 := by decide
  refine ⟨hnone, hstart, by decide, fun h => ?_⟩
  have hneg := (h.1 hnone).1
  rw [hstart] at hneg
  exact absurd hneg (by decide)

/-- A table whose last block is in use refuses three blocks. -/
theorem refusesSafely_fragmentedHeap : RefusesSafely fragmentedHeap 3 := by
  apply (refusesSafely_iff fragmentedHeap 3 (by decide) (by decide) (by decide)).mpr
  right
  rintro ⟨t, -, hlt, hfree⟩
  have hlast := hfree 7 (Nat.le_of_lt_succ hlt) (by decide)
  exact absurd hlast (by decide)

end MarrowOS
