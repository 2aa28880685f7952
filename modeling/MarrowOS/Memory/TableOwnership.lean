import MarrowOS.Memory.HeapTheorems

/-!
# Who owns which block of the table

`TableOwns` is what the block table says of the live allocations. A request that runs into the end
of the pool is answered with the last free run, however short; it holds of such a heap too: the
allocation owns its blocks as far as the pool goes, and nobody else can reach past the end before it
is freed. `TableOwns.take` and `TableOwns.heapFree` are the step lemmas.
-/

namespace MarrowOS

open CInt Extents FirstFit

/-- The blocks an allocation owns: as many as its size needs, from the block of its address. -/
def Heap.extent (heap : Heap) (a : Alloc) : Extent := ⟨heap.blockOf a.ptr, blocksFor a.size⟩

lemma Heap.extent_heapBlockToAddress (heap : Heap) {b : ℕ} (size : ℕ) (hb : b < 2 ^ 19) :
    heap.extent ⟨heapBlockToAddress heap b, size⟩ = ⟨b, blocksFor size⟩ := by
  rw [Heap.extent, heap.blockOf_heapBlockToAddress hb]

/-- The heap has the same pool as before. -/
def SamePool (heap heap' : Heap) : Prop :=
  heap'.saddr = heap.saddr ∧ heap'.table.total = heap.table.total

lemma SamePool.refl (heap : Heap) : SamePool heap heap := ⟨rfl, rfl⟩

lemma SamePool.trans {h₁ h₂ h₃ : Heap} (h : SamePool h₁ h₂) (h' : SamePool h₂ h₃) :
    SamePool h₁ h₃ :=
  ⟨h'.1.trans h.1, h'.2.trans h.2⟩

lemma SamePool.extent {heap' : Heap} (h : SamePool heap heap') : heap'.extent = heap.extent := by
  funext a
  simp only [Heap.extent, Heap.blockOf, h.1]

lemma SamePool.heapBlockToAddress {heap' : Heap} (h : SamePool heap heap') :
    heapBlockToAddress heap' = heapBlockToAddress heap := by
  funext b
  simp only [MarrowOS.heapBlockToAddress, h.1]

lemma heapMarkBlocksTaken_samePool (heap : Heap) (startBlock totalBlocks : ℤ) :
    SamePool heap (heapMarkBlocksTaken heap startBlock totalBlocks) := ⟨rfl, rfl⟩

lemma heapFree_samePool (heap : Heap) (ptr : ℕ) : SamePool heap (heapFree heap ptr) := ⟨rfl, rfl⟩

/-! ## The invariant -/

/-- The table describes the live allocations, as far as the pool goes. -/
structure TableOwns (heap : Heap) (live : List Alloc) : Prop where
  /-- a block's offset is an `int` -/
  total_le : heap.table.total ≤ 2 ^ 19
  size_pos : ∀ a ∈ live, 1 ≤ a.size
  ptr_eq : ∀ a ∈ live, a.ptr = heapBlockToAddress heap (heap.extent a).start
  start_lt : ∀ a ∈ live, (heap.extent a).start < heap.table.total
  apart : AllApart heap.extent live
  owned : ∀ a ∈ live, ∀ i, (heap.extent a).Has i → i < heap.table.total →
    heap.table.entries i = blockFlags (heap.extent a).start (heap.extent a).len i
  free : ∀ i : ℕ, i < heap.table.total → (∀ a ∈ live, ¬ (heap.extent a).Has i) →
    heap.table.entries i = heapBlockTableEntryFree

variable {heap : Heap} {live rest : List Alloc} {a b : Alloc} {i size ptr : ℕ}

lemma TableOwns.len_pos (h : TableOwns heap live) (ha : a ∈ live) : 0 < (heap.extent a).len :=
  blocksFor_pos (h.size_pos a ha)

lemma TableOwns.has_start (h : TableOwns heap live) (ha : a ∈ live) :
    (heap.extent a).Has (heap.extent a).start := Extent.has_start (h.len_pos ha)

/-- A block that is free belongs to nobody. -/
lemma TableOwns.not_has_of_free (h : TableOwns heap live) (hi : i < heap.table.total)
    (hfree : heapGetEntryType (heap.table.entries i) = heapBlockTableEntryFree)
    (ha : a ∈ live) : ¬ (heap.extent a).Has i := by
  intro hhas
  rw [h.owned a ha i hhas hi, heapGetEntryType_blockFlags] at hfree
  exact absurd hfree (by decide)

/-- Live allocations at one address are the same. -/
lemma TableOwns.eq_of_ptr (h : TableOwns heap live) (ha : a ∈ live) (hb : b ∈ live)
    (hptr : a.ptr = b.ptr) : a = b := by
  have hstart : (heap.extent a).start = (heap.extent b).start := by
    simp only [Heap.extent, hptr]
  refine h.apart.owner_unique ha hb (h.has_start ha) ?_
  rw [hstart]
  exact h.has_start hb

/-! ## The scan -/

/-- What a scan holds before entry `i`: the `cur` free blocks that end there. -/
def ScanRun (entries : ℤ → HeapBlockTableEntry) (i cur : ℕ) (start : ℤ) : Prop :=
  if cur = 0 then start = -1
  else start = ((i - cur : ℕ) : ℤ) ∧ ∀ j : ℕ, i - cur ≤ j → j < i →
    heapGetEntryType (entries j) = heapBlockTableEntryFree

/-- Whatever is asked for, the scan answers with the start of a run of free blocks that is long
enough or goes on to the end. -/
lemma heapGetStartBlockLoop_run (entries : ℤ → HeapBlockTableEntry) (total : ℕ) :
    ∀ (n i cur : ℕ) (start : ℤ), i + n < 2 ^ 31 → cur ≤ i → ScanRun entries i cur start →
      heapGetStartBlockLoop entries total n i cur start = -1 ∨
        ∃ b : ℕ, heapGetStartBlockLoop entries total n i cur start = b ∧ b < i + n ∧
          ∀ j : ℕ, b ≤ j → j < i + n → (j < b + total ∨ j = b) →
            heapGetEntryType (entries j) = heapBlockTableEntryFree := by
  intro n i cur start hi hcur hrun
  have hstart : start = heldStart i cur := by
    unfold ScanRun at hrun
    unfold heldStart
    by_cases h0 : cur = 0
    · rw [if_pos h0] at hrun
      rw [if_pos h0, hrun]
    · rw [if_neg h0] at hrun
      rw [if_neg h0, hrun.1, i32_of_lt (by omega) (by omega)]
  have hheld : ∀ j, i - cur ≤ j → j < i → BlockFree entries j := by
    intro j h₀ h₁
    unfold ScanRun at hrun
    rw [if_neg (by omega)] at hrun
    exact hrun.2 j h₀ h₁
  have hloop := heapGetStartBlockLoop_eq_scan entries total n i cur (by omega) hcur
  rw [i32_of_lt (by omega) (by omega), ← hstart] at hloop
  rw [hloop]
  cases hs : scan (BlockFree entries) total n i cur with
  | none => exact Or.inl (Option.elim_none ..)
  | some s =>
    obtain ⟨hlt, hfree⟩ := scan_free hcur hheld hs
    rw [Option.elim_some]
    exact Or.inr ⟨s, i32_of_lt (by omega) (by omega), hlt, hfree⟩

/-- What `heap_malloc` answers: nothing, or a run of free blocks that is long enough or goes on to
the end of the pool. -/
lemma heapMalloc_answers (htotal : heap.table.total ≤ 2 ^ 19) (hsize : size < 2 ^ 32) :
    (heapGetStartBlock heap (heapTotalBlocks size) < 0 ∧ heapMalloc heap size = (0, heap)) ∨
    ∃ b : ℕ, b < heap.table.total ∧
      (∀ j : ℕ, b ≤ j → j < heap.table.total → (j < b + heapTotalBlocks size ∨ j = b) →
        heapGetEntryType (heap.table.entries j) = heapBlockTableEntryFree) ∧
      heapGetStartBlock heap (heapTotalBlocks size) = b ∧
      heapMalloc heap size =
        (heapBlockToAddress heap b, heapMarkBlocksTaken heap b (heapTotalBlocks size)) := by
  have hblocks : heapTotalBlocks size < 2 ^ 31 := by
    by_cases hmax : size ≤ 2 ^ 32 - 4096
    · rw [heapTotalBlocks_eq hmax, blocksFor]
      omega
    · rw [heapTotalBlocks_eq_zero (by omega) hsize]
      decide
  have hscan := heapGetStartBlockLoop_run heap.table.entries (heapTotalBlocks size)
    heap.table.total 0 0 (-1) (by omega) le_rfl (by rw [ScanRun, if_pos rfl])
  rw [Nat.zero_add, Nat.cast_zero] at hscan
  rcases hscan with hnone | ⟨b, hb, hlt, hfree⟩
  · left
    have hstart : heapGetStartBlock heap (heapTotalBlocks size) = -enomem := by
      rw [heapGetStartBlock, hnone]
      rfl
    refine ⟨by rw [hstart]; decide, ?_⟩
    rw [heapMalloc, heapMallocBlocks, hstart]
    rfl
  · right
    have hstart : heapGetStartBlock heap (heapTotalBlocks size) = b := by
      rw [heapGetStartBlock, hb]
      exact if_neg (by omega)
    refine ⟨b, hlt, hfree, hstart, ?_⟩
    rw [heapMalloc, heapMallocBlocks, hstart, if_neg (by omega), i32_of_lt (by omega) (by omega)]

/-! ## Taking and freeing -/

/-- The blocks of a run that is taken. -/
lemma heapMarkBlocksTaken_of_has {s n j : ℕ} (hn : 0 < n) (hj : (⟨s, n⟩ : Extent).Has j) :
    (heapMarkBlocksTaken heap s n).table.entries j = blockFlags s n j := by
  have hin : (s : ℤ) ≤ j ∧ (j : ℤ) < s + n :=
    ⟨Int.ofNat_le.mpr hj.1, by exact_mod_cast hj.2⟩
  rw [heapMarkBlocksTaken_entries heap hn, if_pos hin, Int.toNat_natCast]

/-- The other blocks. -/
lemma heapMarkBlocksTaken_of_not_has {s n j : ℕ} (hn : 0 < n) (hj : ¬ (⟨s, n⟩ : Extent).Has j) :
    (heapMarkBlocksTaken heap s n).table.entries j = heap.table.entries j := by
  have hout : ¬ ((s : ℤ) ≤ j ∧ (j : ℤ) < s + n) := fun hin =>
    hj ⟨Int.ofNat_le.mp hin.1, by exact_mod_cast hin.2⟩
  rw [heapMarkBlocksTaken_entries heap hn, if_neg hout]

/-- Taking a run of free blocks, cut off at the end of the pool, keeps the table right. -/
lemma TableOwns.take (h : TableOwns heap live) (hpos : 1 ≤ size) (hi : i < heap.table.total)
    (hfree : ∀ j : ℕ, i ≤ j → j < heap.table.total → j < i + blocksFor size →
      heapGetEntryType (heap.table.entries j) = heapBlockTableEntryFree) :
    TableOwns (heapMarkBlocksTaken heap i (blocksFor size))
      (⟨heapBlockToAddress heap i, size⟩ :: live) := by
  have hn := blocksFor_pos hpos
  have hnew := heap.extent_heapBlockToAddress size (hi.trans_le h.total_le)
  have hsame := heapMarkBlocksTaken_samePool heap i (blocksFor size)
  have htotal := hsame.2
  -- a run that is cut off contains the last block, and so does everything that reaches behind it
  have hapart : ∀ c ∈ live, ∀ j, i ≤ j → j < i + blocksFor size → ¬ (heap.extent c).Has j := by
    intro c hc j h₀ h₁ hhas
    by_cases hin : j < heap.table.total
    · exact h.not_has_of_free hin (hfree j h₀ hin h₁) hc hhas
    · have hstart := h.start_lt c hc
      have hlast : (heap.extent c).Has (heap.table.total - 1) := by
        unfold Extent.Has at hhas ⊢
        omega
      exact h.not_has_of_free (by omega) (hfree _ (by omega) (by omega) (by omega)) hc hlast
  constructor
  · exact h.total_le
  · exact List.forall_mem_cons.mpr ⟨hpos, h.size_pos⟩
  · rw [hsame.heapBlockToAddress, hsame.extent]
    exact List.forall_mem_cons.mpr ⟨by rw [hnew], h.ptr_eq⟩
  · rw [hsame.extent, htotal]
    exact List.forall_mem_cons.mpr ⟨by rw [hnew]; exact hi, h.start_lt⟩
  · rw [hsame.extent]
    refine AllApart.cons h.apart fun c hc j hj => ?_
    rw [hnew] at hj
    exact hapart c hc j hj.1 hj.2
  · rw [hsame.extent, htotal]
    refine List.forall_mem_cons.mpr ⟨?_, ?_⟩
    · intro j hj _
      -- a block of the new run
      rw [hnew] at hj ⊢
      exact heapMarkBlocksTaken_of_has hn hj
    · intro c hc j hj hin
      -- a block of another allocation
      rw [heapMarkBlocksTaken_of_not_has hn fun hin => hapart c hc j hin.1 hin.2 hj]
      exact h.owned c hc j hj hin
  · rw [hsame.extent, htotal]
    intro j hj hno
    have hnoNew := hno _ List.mem_cons_self
    rw [hnew] at hnoNew
    rw [heapMarkBlocksTaken_of_not_has hn hnoNew]
    exact h.free j hj fun c hc => hno c (List.mem_cons_of_mem _ hc)

/-- Freeing a live pointer frees the blocks it owns. -/
lemma TableOwns.heapFree_entries (h : TableOwns heap live) (ha : a ∈ live) (j : ℤ) :
    (heapFree heap a.ptr).table.entries j =
      if ((heap.extent a).start : ℤ) ≤ j ∧ j < (heap.extent a).start + (heap.extent a).len ∧
          j < heap.table.total then heapBlockTableEntryFree
      else heap.table.entries j := by
  have hstart := h.start_lt a ha
  rw [heapFree, h.ptr_eq a ha,
    heapAddressToBlock_heapBlockToAddress heap (hstart.trans_le h.total_le)]
  exact heapMarkBlocksFree_entries (h.len_pos ha) hstart
    (fun j h₀ h₁ h₂ => h.owned a ha j ⟨h₀, h₁⟩ h₂) j

/-- The other allocations keep their blocks. -/
theorem TableOwns.heapFree (h : TableOwns heap live) (ha : a ∈ live)
    (hrest : ∀ c, c ∈ rest ↔ c ∈ live ∧ c ≠ a) (hapart : AllApart heap.extent rest) :
    TableOwns (heapFree heap a.ptr) rest := by
  have hentries := h.heapFree_entries ha
  have hsame := heapFree_samePool heap a.ptr
  have htotal := hsame.2
  have hlive : ∀ c ∈ rest, c ∈ live := fun c hc => ((hrest c).mp hc).1
  constructor
  · exact h.total_le
  · exact fun c hc => h.size_pos c (hlive c hc)
  · rw [hsame.heapBlockToAddress, hsame.extent]
    exact fun c hc => h.ptr_eq c (hlive c hc)
  · rw [hsame.extent, htotal]
    exact fun c hc => h.start_lt c (hlive c hc)
  · rw [hsame.extent]
    exact hapart
  · rw [hsame.extent, htotal]
    intro c hc j hj hin
    rcases (hrest c).mp hc with ⟨hc, hne⟩
    rw [hentries, if_neg]
    · exact h.owned c hc j hj hin
    · rintro ⟨h₀, h₁, -⟩
      exact h.apart.apart_of_ne hc ha hne j hj ⟨by omega, by omega⟩
  · rw [hsame.extent, htotal]
    intro j hj hno
    rw [hentries]
    by_cases hin : ((heap.extent a).start : ℤ) ≤ (j : ℤ) ∧
        (j : ℤ) < (heap.extent a).start + (heap.extent a).len ∧ (j : ℤ) < heap.table.total
    · rw [if_pos hin]
    · rw [if_neg hin]
      refine h.free j hj fun c hc hhas => ?_
      by_cases hca : c = a
      · rw [hca] at hhas
        exact hin ⟨by exact_mod_cast hhas.1, by exact_mod_cast hhas.2, by exact_mod_cast hj⟩
      · exact hno c ((hrest c).mpr ⟨hc, hca⟩) hhas

/-- Freeing the pointer at the head of the list. -/
lemma TableOwns.heapFree_head (h : TableOwns heap (a :: live)) :
    TableOwns (MarrowOS.heapFree heap a.ptr) live := by
  rcases List.pairwise_cons.mp h.apart with ⟨hapart, hrest⟩
  refine h.heapFree List.mem_cons_self (fun c => ?_) hrest
  rw [List.mem_cons]
  constructor
  · intro hc
    refine ⟨Or.inr hc, fun hca => ?_⟩
    rw [hca] at hc
    exact hapart a hc _ (h.has_start List.mem_cons_self) (h.has_start List.mem_cons_self)
  · rintro ⟨hca | hc, hne⟩
    · exact absurd hca hne
    · exact hc

/-- Freeing a pointer anywhere in the list. -/
lemma TableOwns.heapFree_filter (h : TableOwns heap live) (ha : a ∈ live) :
    TableOwns (MarrowOS.heapFree heap a.ptr) (live.filter (·.ptr ≠ a.ptr)) := by
  refine h.heapFree ha (fun c => ?_) (h.apart.filter _)
  rw [List.mem_filter, decide_eq_true_eq]
  constructor
  · rintro ⟨hc, hne⟩
    exact ⟨hc, fun hca => hne (by rw [hca])⟩
  · rintro ⟨hc, hne⟩
    exact ⟨hc, fun hptr => hne (h.eq_of_ptr hc ha hptr)⟩

end MarrowOS
