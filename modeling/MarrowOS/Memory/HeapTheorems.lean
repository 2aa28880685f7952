import MarrowOS.Lib.Extents
import MarrowOS.Lib.FirstFit
import MarrowOS.Memory.Heap
import Mathlib.Tactic.Linarith

/-!
# What the heap functions compute

One lemma for each function of `heap.c`, over tables of fewer than `2 ^ 31` entries:

* `heapTotalBlocks_eq`: the rounding of a size to a number of blocks;
* `heapGetStartBlock_eq`: first fit, when some run of free blocks is long enough;
* `heapMarkBlocksTaken_entries`, `heapMarkBlocksFree_entries`: what the two marking loops write.
-/

namespace MarrowOS

open CInt Extents FirstFit

/-! ## Sizes and blocks -/

/-- The number of blocks that hold `size` bytes. -/
def blocksFor (size : ℕ) : ℕ := (size + 4095) / 4096

lemma blocksFor_pos {size : ℕ} (h : 1 ≤ size) : 0 < blocksFor size := by
  unfold blocksFor
  omega

lemma le_blocksFor_mul (size : ℕ) : size ≤ blocksFor size * 4096 := by
  unfold blocksFor
  omega

lemma heapTotalBlocks_eq {size : ℕ} (h : size ≤ 2 ^ 32 - 4096) :
    heapTotalBlocks size = blocksFor size := by
  unfold heapTotalBlocks heapAlignValueToUpper blocksFor
  simp only [marrowosHeapBlockSize]
  split
  · omega
  · rw [u32_of_lt (by omega) (by omega)]
    omega

/-- The last few sizes round up to `2 ^ 32`, that is to no block at all. -/
lemma heapTotalBlocks_eq_zero {size : ℕ} (h₀ : 2 ^ 32 - 4096 < size) (h : size < 2 ^ 32) :
    heapTotalBlocks size = 0 := by
  unfold heapTotalBlocks heapAlignValueToUpper
  simp only [marrowosHeapBlockSize]
  rw [if_neg (by omega), u32]
  omega

/-! ## First fit -/

/-- The blocks `s, …, s + n - 1` are in the table and free. -/
def FreeRun (table : HeapTable) (n s : ℕ) : Prop :=
  s + n ≤ table.total ∧
    ∀ i : ℕ, s ≤ i → i < s + n → heapGetEntryType (table.entries i) = heapBlockTableEntryFree

instance (table : HeapTable) (n s : ℕ) : Decidable (FreeRun table n s) :=
  decidable_of_iff (s + n ≤ table.total ∧ ∀ k < n,
      heapGetEntryType (table.entries ((s + k : ℕ) : ℤ)) = heapBlockTableEntryFree) <| by
    refine and_congr_right fun _ => ⟨fun h i h₀ h₁ => ?_, fun h k hk => h _ (by omega) (by omega)⟩
    have hk := h (i - s) (by omega)
    rwa [Nat.add_sub_cancel' h₀] at hk

/-- Some run of `n` free blocks is left. -/
def HasFreeRun (table : HeapTable) (n : ℕ) : Prop := ∃ s ≤ table.total, FreeRun table n s

instance (table : HeapTable) (n : ℕ) : Decidable (HasFreeRun table n) :=
  inferInstanceAs (Decidable (∃ s ≤ table.total, FreeRun table n s))

/-- Block `i` of the table is free. -/
abbrev BlockFree (entries : ℤ → HeapBlockTableEntry) (i : ℕ) : Prop :=
  heapGetEntryType (entries i) = heapBlockTableEntryFree

/-- The value of `block_start` while the scan holds the `cur` blocks before entry `i`. -/
def heldStart (i cur : ℕ) : ℤ := if cur = 0 then -1 else i32 ((i - cur : ℕ) : ℤ)

lemma i32_natCast_ne_neg_one {n : ℕ} (h : n < 2 ^ 32 - 1) : i32 (n : ℤ) ≠ -1 := by
  by_cases hn : n < 2 ^ 31
  · rw [i32_of_lt (by omega) (by omega)]
    omega
  · rw [i32_of_large (by omega) (by omega)]
    omega

/-- At a free entry `block_start` is that of the blocks held, or of the entry itself. -/
lemma heldStart_next {i cur : ℕ} (hi : i < 2 ^ 32 - 1) (hcur : cur ≤ i) :
    (if heldStart i cur = -1 then i32 (i : ℤ) else heldStart i cur)
      = i32 ((i - cur : ℕ) : ℤ) := by
  unfold heldStart
  by_cases h0 : cur = 0
  · rw [if_pos h0, if_pos rfl, h0, Nat.sub_zero]
  · have hne : i32 ((i - cur : ℕ) : ℤ) ≠ -1 := i32_natCast_ne_neg_one (by omega)
    rw [if_neg h0, if_neg hne]

/-- The counters of the loop are those of the one-pass scan, as `int`s. -/
lemma heapGetStartBlockLoop_eq_scan (entries : ℤ → HeapBlockTableEntry) (total : ℕ) :
    ∀ (m i cur : ℕ), i + m < 2 ^ 32 → cur ≤ i →
      heapGetStartBlockLoop entries total m i (i32 (cur : ℤ)) (heldStart i cur)
        = (scan (BlockFree entries) total m i cur).elim (-1) fun s => i32 (s : ℤ) := by
  intro m
  induction m with
  | zero =>
    intro i cur _ _
    rw [heapGetStartBlockLoop, scan, heldStart]
    by_cases h0 : cur = 0
    · rw [if_pos h0, if_pos h0, Option.elim_none]
    · rw [if_neg h0, if_neg h0, Option.elim_some]
  | succ m ih =>
    intro i cur hi hcur
    by_cases hfree : BlockFree entries i
    · have hnext : i32 (i32 (cur : ℤ) + 1) = i32 ((cur + 1 : ℕ) : ℤ) := by
        rw [i32_i32_add, Nat.cast_succ]
      have hcount : u32 (i32 ((cur + 1 : ℕ) : ℤ)) = cur + 1 := by
        have hsum := u32_i32_add ((cur + 1 : ℕ) : ℤ) 0
        rw [add_zero, add_zero, u32_natCast_of_lt (by omega)] at hsum
        exact hsum
      have hheld : i32 ((i - cur : ℕ) : ℤ) = heldStart (i + 1) (cur + 1) := by
        rw [heldStart, if_neg (Nat.succ_ne_zero cur), Nat.add_sub_add_right]
      rw [heapGetStartBlockLoop, if_neg (not_not.mpr hfree), scan, if_pos hfree]
      simp only [heldStart_next (by omega) hcur, hnext, hcount]
      by_cases hlong : cur + 1 = total
      · rw [if_pos hlong, if_pos hlong, Option.elim_some]
      · rw [if_neg hlong, if_neg hlong, hheld]
        exact ih (i + 1) (cur + 1) (by omega) (by omega)
    · rw [heapGetStartBlockLoop, if_pos hfree, scan, if_neg hfree]
      -- the counters start again
      have hrec := ih (i + 1) 0 (by omega) (by omega)
      rwa [Nat.cast_zero, i32_of_lt (by omega) (by omega), heldStart, if_pos rfl] at hrec

/-- What `heap_get_start_block` answers is the start that the scan finds, as an `int`. -/
lemma heapGetStartBlock_eq_scan {heap : Heap} {total : ℕ} (htable : heap.table.total < 2 ^ 32) :
    heapGetStartBlock heap total =
      (scan (BlockFree heap.table.entries) total heap.table.total 0 0).elim (-enomem)
        fun s => i32 (s : ℤ) := by
  have hloop := heapGetStartBlockLoop_eq_scan heap.table.entries total heap.table.total 0 0
    (by omega) le_rfl
  rw [Nat.cast_zero, i32_of_lt (by omega) (by omega), heldStart, if_pos rfl] at hloop
  rw [heapGetStartBlock, hloop]
  cases hs : scan (BlockFree heap.table.entries) total heap.table.total 0 0 with
  | none => rfl
  | some s =>
    have hlt := (scan_free le_rfl (by omega) hs).1
    have hne : i32 (s : ℤ) ≠ -1 := i32_natCast_ne_neg_one (by omega)
    rw [Option.elim_some, Option.elim_some, if_neg hne]

/-- **First fit.** The answer is the least start of a run that is long enough. -/
theorem heapGetStartBlock_eq {heap : Heap} {total s : ℕ} (htable : heap.table.total < 2 ^ 31)
    (htotal : 0 < total) (hrun : FreeRun heap.table total s)
    (hleast : ∀ t, FreeRun heap.table total t → s ≤ t) :
    heapGetStartBlock heap total = s := by
  have hscan : scan (BlockFree heap.table.entries) total heap.table.total 0 0 = some s :=
    scan_eq_of_least htotal hrun hleast
  have hfit := hrun.1
  rw [heapGetStartBlock_eq_scan (by omega), hscan, Option.elim_some]
  exact i32_of_lt (by omega) (by omega)

/-! ## Marking -/

/-- The flags of block `i` of the allocation of `n` blocks from `s` on. -/
def blockFlags (s n i : ℕ) : HeapBlockTableEntry :=
  heapBlockTableEntryTaken ||| (if i = s then heapBlockIsFirst else 0)
    ||| (if i + 1 < s + n then heapBlockHasNext else 0)

lemma heapMarkBlocksTakenLoop_apply (endBlock : ℤ) :
    ∀ (n : ℕ) (i : ℤ) (entry : HeapBlockTableEntry) (entries : ℤ → HeapBlockTableEntry) (j : ℤ),
      heapMarkBlocksTakenLoop endBlock n i entry entries j =
        if j < i ∨ i + n ≤ j then entries j
        else if j = i then entry
        else if j ≠ endBlock then heapBlockTableEntryTaken ||| heapBlockHasNext
        else heapBlockTableEntryTaken := by
  intro n
  induction n with
  | zero =>
    intro i entry entries j
    rw [heapMarkBlocksTakenLoop, if_pos (by omega)]
  | succ n ih =>
    intro i entry entries j
    rw [heapMarkBlocksTakenLoop, ih]
    by_cases hji : j = i
    · subst hji
      rw [if_pos (by omega), Function.update_self, if_neg (by omega), if_pos rfl]
    · rw [Function.update_of_ne hji]
      by_cases hout : j < i ∨ i + (n + 1 : ℕ) ≤ j
      · rw [if_pos (by omega), if_pos hout]
      · rw [if_neg (by omega), if_neg hout, if_neg hji]
        by_cases hj1 : j = i + 1
        · rw [if_pos hj1]
          by_cases hend : j = endBlock
          · rw [if_neg (by omega), if_neg (by omega)]
          · rw [if_pos (by omega), if_pos hend]
        · rw [if_neg hj1]

/-- Marking writes the flags of the allocation, and nothing else. -/
theorem heapMarkBlocksTaken_entries (heap : Heap) {s n : ℕ} (hn : 0 < n) (j : ℤ) :
    (heapMarkBlocksTaken heap s n).table.entries j =
      if (s : ℤ) ≤ j ∧ j < s + n then blockFlags s n j.toNat else heap.table.entries j := by
  simp only [heapMarkBlocksTaken, Heap.withEntries_entries]
  rw [heapMarkBlocksTakenLoop_apply]
  by_cases hin : (s : ℤ) ≤ j ∧ j < s + n
  · rw [if_neg (by omega), if_pos hin]
    unfold blockFlags
    by_cases hjs : j = s
    · subst hjs
      by_cases h1 : 1 < n
      · rw [if_pos rfl, if_pos (by omega), Int.toNat_natCast, if_pos rfl, if_pos (by omega)]
      · rw [if_pos rfl, if_neg (by omega), Int.toNat_natCast, if_pos rfl, if_neg (by omega)]
        rfl
    · by_cases hend : j.toNat + 1 < s + n
      · rw [if_neg hjs, if_pos (by omega), if_neg (by omega), if_pos hend]
        rfl
      · rw [if_neg hjs, if_neg (by omega), if_neg (by omega), if_neg hend]
        rfl
  · rw [if_pos (by omega), if_neg hin]

lemma blockFlags_and_hasNext {s n i : ℕ} :
    blockFlags s n i &&& heapBlockHasNext = 0 ↔ ¬ i + 1 < s + n := by
  unfold blockFlags
  split_ifs <;> simp_all <;> decide

lemma blockFlags_and_isFirst {s n i : ℕ} : blockFlags s n i &&& heapBlockIsFirst = 0 ↔ i ≠ s := by
  unfold blockFlags
  split_ifs <;> simp_all <;> decide

lemma heapGetEntryType_blockFlags (s n i : ℕ) :
    heapGetEntryType (blockFlags s n i) = heapBlockTableEntryTaken := by
  unfold blockFlags
  split_ifs <;> decide

/-- The freeing loop follows the `HAS_NEXT` flags to the last block of the allocation, or to the
end of the table. -/
lemma heapMarkBlocksFreeLoop_owned {s n : ℕ} :
    ∀ (m i : ℕ) (entries : ℤ → HeapBlockTableEntry), i < s + n →
      (∀ j : ℕ, i ≤ j → j < s + n → j < i + m → entries j = blockFlags s n j) → ∀ j : ℤ,
      heapMarkBlocksFreeLoop m i entries j =
        if (i : ℤ) ≤ j ∧ j < s + n ∧ j < i + m then heapBlockTableEntryFree else entries j := by
  intro m
  induction m with
  | zero =>
    intro i entries _ _ j
    rw [heapMarkBlocksFreeLoop, if_neg (by omega)]
  | succ m ih =>
    intro i entries hi hflags j
    rw [heapMarkBlocksFreeLoop]
    have hflag := hflags i le_rfl hi (by omega)
    by_cases hlast : i + 1 < s + n
    · rw [if_neg]
      · have hrec := ih (i + 1) (Function.update entries i heapBlockTableEntryFree) hlast
          (fun j h₀ h₁ h₂ => by
            rw [Function.update_of_ne (by omega)]
            exact hflags j (by omega) h₁ (by omega)) j
        rw [Nat.cast_succ] at hrec
        rw [hrec, Function.update_apply]
        by_cases hj : j = i
        · rw [if_neg (by omega), if_pos hj, if_pos (by omega)]
        · by_cases hin : (i : ℤ) ≤ j ∧ j < s + n ∧ j < i + (m + 1 : ℕ)
          · rw [if_pos (by omega), if_pos hin]
          · rw [if_neg (by omega), if_neg hj, if_neg hin]
      · rw [hflag, blockFlags_and_hasNext, not_not]
        exact hlast
    · rw [if_pos]
      · rw [Function.update_apply]
        by_cases hj : j = i
        · rw [if_pos hj, if_pos (by omega)]
        · rw [if_neg hj, if_neg (by omega)]
      · rw [hflag, blockFlags_and_hasNext]
        exact hlast

/-- Freeing at the first block of an allocation frees its blocks as far as the table goes, and
nothing else. -/
theorem heapMarkBlocksFree_entries {heap : Heap} {s n : ℕ} (hn : 0 < n) (hs : s < heap.table.total)
    (hflags : ∀ j : ℕ, s ≤ j → j < s + n → j < heap.table.total →
      heap.table.entries j = blockFlags s n j) (j : ℤ) :
    (heapMarkBlocksFree heap s).table.entries j =
      if (s : ℤ) ≤ j ∧ j < s + n ∧ j < heap.table.total then heapBlockTableEntryFree
      else heap.table.entries j := by
  have hloop := heapMarkBlocksFreeLoop_owned ((heap.table.total : ℤ) - s).toNat s
    heap.table.entries (by omega) (fun j h₀ h₁ _ => hflags j h₀ h₁ (by omega)) j
  rw [heapMarkBlocksFree, Heap.withEntries_entries, hloop]
  by_cases hin : (s : ℤ) ≤ j ∧ j < s + n ∧ j < heap.table.total
  · rw [if_pos hin, if_pos (by omega)]
  · rw [if_neg hin, if_neg (by omega)]

/-- Freeing from block `i` on leaves the blocks before it alone. -/
lemma heapMarkBlocksFreeLoop_before : ∀ (n : ℕ) (i : ℤ) (entries : ℤ → HeapBlockTableEntry) (j : ℤ),
    j < i → heapMarkBlocksFreeLoop n i entries j = entries j := by
  intro n
  induction n with
  | zero => exact fun _ _ _ _ => rfl
  | succ n ih =>
    intro i entries j hj
    have hself : Function.update entries i heapBlockTableEntryFree j = entries j :=
      Function.update_of_ne (by omega) _ _
    rw [heapMarkBlocksFreeLoop]
    split
    · exact hself
    · rw [ih _ _ _ (by omega), hself]

/-- The first entry is freed whatever it holds. -/
lemma heapMarkBlocksFreeLoop_self (n : ℕ) (i : ℤ) (entries : ℤ → HeapBlockTableEntry) :
    heapMarkBlocksFreeLoop (n + 1) i entries i = heapBlockTableEntryFree := by
  rw [heapMarkBlocksFreeLoop]
  split
  · exact Function.update_self _ _ _
  · rw [heapMarkBlocksFreeLoop_before _ _ _ _ (by omega)]
    exact Function.update_self _ _ _

/-- Freeing at index `i` changes nothing when the index lies behind the table, or its entry is
clear already. -/
def FreesNothingAt (heap : Heap) (i : ℤ) : Prop :=
  heap.table.total ≤ i ∨ heap.table.entries i = heapBlockTableEntryFree

instance (heap : Heap) (i : ℤ) : Decidable (FreesNothingAt heap i) :=
  inferInstanceAs (Decidable (_ ∨ _))

/-- Those are the only indexes: the entry of any other is written, also in front of the table. -/
theorem heapMarkBlocksFree_eq_self_iff {heap : Heap} {i : ℤ} :
    heapMarkBlocksFree heap i = heap ↔ FreesNothingAt heap i := by
  by_cases hin : i < heap.table.total
  · obtain ⟨m, hm⟩ : ∃ m, (heap.table.total - i).toNat = m + 1 :=
      ⟨(heap.table.total - i).toNat - 1, by omega⟩
    constructor
    · intro heq
      right
      have hentry := congrArg (fun h : Heap => h.table.entries i) heq
      simp only [heapMarkBlocksFree, Heap.withEntries_entries, hm] at hentry
      rw [← hentry, heapMarkBlocksFreeLoop_self]
    · rintro (hle | hfree)
      · omega
      have hloop : heapMarkBlocksFreeLoop (m + 1) i heap.table.entries = heap.table.entries := by
        rw [heapMarkBlocksFreeLoop, hfree, if_pos (by decide), ← hfree, Function.update_eq_self]
      rw [heapMarkBlocksFree, hm, hloop]
      rfl
  · have hzero : (heap.table.total - i).toNat = 0 := by omega
    refine iff_of_true ?_ (Or.inl (by omega))
    rw [heapMarkBlocksFree, hzero]
    rfl

/-- Freeing at a block that is already free changes nothing. -/
theorem heapMarkBlocksFree_of_free {heap : Heap} {i : ℤ}
    (hfree : heap.table.entries i = heapBlockTableEntryFree) :
    heapMarkBlocksFree heap i = heap := heapMarkBlocksFree_eq_self_iff.mpr (Or.inr hfree)

/-- Every entry is left as it is, or cleared. -/
lemma heapMarkBlocksFreeLoop_clears : ∀ (n : ℕ) (i : ℤ) (entries : ℤ → HeapBlockTableEntry)
    (j : ℤ), heapMarkBlocksFreeLoop n i entries j = entries j ∨
      heapMarkBlocksFreeLoop n i entries j = heapBlockTableEntryFree := by
  intro n
  induction n with
  | zero => exact fun _ _ _ => Or.inl rfl
  | succ n ih =>
    intro i entries j
    have hself : Function.update entries i heapBlockTableEntryFree j = entries j ∨
        Function.update entries i heapBlockTableEntryFree j = heapBlockTableEntryFree := by
      by_cases hj : j = i
      · rw [hj]
        exact Or.inr (Function.update_self ..)
      · exact Or.inl (Function.update_of_ne hj ..)
    rw [heapMarkBlocksFreeLoop]
    by_cases hlast : entries i &&& heapBlockHasNext = 0
    · simp only [if_pos hlast]
      exact hself
    · simp only [if_neg hlast]
      rcases ih (i + 1) (Function.update entries i heapBlockTableEntryFree) j with hsame | hfree
      · rw [hsame]
        exact hself
      · exact Or.inr hfree

/-- What frees nothing goes on to free nothing, whatever is freed meanwhile. -/
lemma FreesNothingAt.heapMarkBlocksFree {heap : Heap} {i : ℤ} (h : FreesNothingAt heap i) (j : ℤ) :
    FreesNothingAt (MarrowOS.heapMarkBlocksFree heap j) i := by
  refine h.imp_right fun hfree => ?_
  rcases heapMarkBlocksFreeLoop_clears (heap.table.total - j).toNat j heap.table.entries i with
    hsame | hclear
  · exact hsame.trans hfree
  · exact hclear

/-- Nothing is left to free where it was freed before: the entry is clear, and with it the flag that
led to the next block. -/
lemma freesNothingAt_heapMarkBlocksFree (heap : Heap) (i : ℤ) :
    FreesNothingAt (heapMarkBlocksFree heap i) i := by
  by_cases hin : i < heap.table.total
  · obtain ⟨m, hm⟩ : ∃ m, (heap.table.total - i).toNat = m + 1 :=
      ⟨(heap.table.total - i).toNat - 1, by omega⟩
    right
    rw [heapMarkBlocksFree, Heap.withEntries_entries, hm, heapMarkBlocksFreeLoop_self]
  · exact Or.inl (not_lt.mp hin)

/-! ## Addresses -/

/-- The number of the block an address of the pool lies in. -/
def Heap.blockOf (heap : Heap) (ptr : ℕ) : ℕ := u32 (ptr - heap.saddr) / 4096

lemma Heap.blockOf_heapBlockToAddress (heap : Heap) {b : ℕ} (hb : b < 2 ^ 19) :
    heap.blockOf (heapBlockToAddress heap b) = b := by
  unfold Heap.blockOf heapBlockToAddress
  simp only [marrowosHeapBlockSize]
  rw [i32_of_lt (by omega) (by omega)]
  simp only [u32]
  omega

lemma heapAddressToBlock_heapBlockToAddress (heap : Heap) {b : ℕ} (hb : b < 2 ^ 19) :
    heapAddressToBlock heap (heapBlockToAddress heap b) = b := by
  unfold heapAddressToBlock heapBlockToAddress
  simp only [marrowosHeapBlockSize]
  rw [i32_of_lt (show (0 : ℤ) ≤ (b : ℤ) * (4096 : ℕ) by omega) (by omega)]
  have hmod : i32 ((u32 (heap.saddr + (b : ℤ) * (4096 : ℕ)) : ℤ) - heap.saddr)
      = (b : ℤ) * (4096 : ℕ) := by
    have hdvd : ((u32 (heap.saddr + (b : ℤ) * (4096 : ℕ)) : ℤ) - heap.saddr) % 2 ^ 32
        = ((b : ℤ) * (4096 : ℕ)) % 2 ^ 32 := by
      simp only [u32]
      omega
    unfold i32
    rw [← Int.emod_bmod, show ((2 ^ 32 : ℕ) : ℤ) = 2 ^ 32 by norm_num, hdvd,
      show (2 ^ 32 : ℤ) = ((2 ^ 32 : ℕ) : ℤ) by norm_num, Int.emod_bmod]
    exact i32_of_lt (by omega) (by omega)
  rw [hmod]
  exact Int.mul_tdiv_cancel _ (by norm_num)

/-! ## Freeing again -/

/-- Freeing a pointer again changes nothing, whatever was freed in between. -/
theorem heapFree_again (heap : Heap) (ptr : ℕ) :
    heapFree (heapFree heap ptr) ptr = heapFree heap ptr ∧
      ∀ ptr', heapFree (heapFree (heapFree heap ptr) ptr') ptr =
        heapFree (heapFree heap ptr) ptr' := by
  have hfreed := freesNothingAt_heapMarkBlocksFree heap (heapAddressToBlock heap ptr)
  refine ⟨heapMarkBlocksFree_eq_self_iff.mpr hfreed, fun ptr' => ?_⟩
  exact heapMarkBlocksFree_eq_self_iff.mpr (hfreed.heapMarkBlocksFree _)

end MarrowOS
