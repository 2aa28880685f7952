import MarrowOS.Memory.HeapOwnership
import Mathlib.Data.Finset.Card
import Mathlib.Data.Finset.Range

/-!
# Blocks that stay taken

A heap on which pointers were freed twice has no owners any more. What is still true of it is that a
block stays taken until a pointer outside the blocks that were free is freed: the `HAS_NEXT` flags
behind a block that was free never lead to one that was taken. `Spares` is this invariant, from the
heap at which one starts to look, and `Spares.kmalloc` and `Spares.kfree` are its step lemmas.
-/

namespace MarrowOS

open CInt Extents

/-- The blocks of the pool that are taken. -/
def takenBlocks (heap : Heap) : Finset ℕ :=
  (Finset.range heap.table.total).filter fun i =>
    heapGetEntryType (heap.table.entries i) = heapBlockTableEntryTaken

/-- Every entry of the table is that of a taken block, or cleared. -/
structure TidyHeap (heap : Heap) : Prop where
  pool : PoolOk heap
  cleared : ∀ i : ℕ, i < heap.table.total → i ∉ takenBlocks heap →
    heap.table.entries i = heapBlockTableEntryFree

/-- What was taken in the first heap is taken in the second, and the byte in front of the table is
what it was. -/
structure Grows (heap heap' : Heap) : Prop where
  tidy : TidyHeap heap'
  pool : SamePool heap heap'
  taken : takenBlocks heap ⊆ takenBlocks heap'
  front : heap'.table.entries (-1) = heap.table.entries (-1)

/-- Besides, no `HAS_NEXT` flag behind a block that was free leads to one that was taken. -/
structure Spares (heap heap' : Heap) : Prop extends Grows heap heap' where
  next : ∀ i : ℕ, heap'.table.entries i &&& heapBlockHasNext ≠ 0 → i + 1 ∈ takenBlocks heap →
    i ∈ takenBlocks heap

/-- The pointer is to a block that was free. -/
def ToFree (heap : Heap) (ptr : ℕ) : Prop :=
  ∃ i, i < heap.table.total ∧ i ∉ takenBlocks heap ∧ ptr = heap.saddr + 4096 * i

/-- The pointer is to a block that was free in the first heap and is taken in the second. -/
def NewlyTaken (heap heap' : Heap) (ptr : ℕ) : Prop :=
  ∃ i, i ∈ takenBlocks heap' ∧ i ∉ takenBlocks heap ∧ ptr = heap.saddr + 4096 * i

variable {heap heap' heap₁ heap₂ : Heap} {k k' : KernelHeap} {live : List Alloc} {i ptr size : ℕ}

lemma mem_takenBlocks : i ∈ takenBlocks heap ↔ i < heap.table.total ∧
    heapGetEntryType (heap.table.entries i) = heapBlockTableEntryTaken := by
  rw [takenBlocks, Finset.mem_filter, Finset.mem_range]

lemma not_mem_takenBlocks_of_free
    (hfree : heapGetEntryType (heap.table.entries i) = heapBlockTableEntryFree) :
    i ∉ takenBlocks heap := by
  intro hmem
  have htaken := (mem_takenBlocks.mp hmem).2
  rw [hfree] at htaken
  cases htaken

/-- A heap that has its owners is tidy. -/
lemma HeapOwns.tidy (h : HeapOwns heap live) : TidyHeap heap := by
  refine ⟨h.pool, fun i hi hno => h.free i hi fun a ha hhas => hno ?_⟩
  rw [mem_takenBlocks, h.owned a ha i hhas hi]
  exact ⟨hi, heapGetEntryType_blockFlags ..⟩

lemma TidyHeap.spares (h : TidyHeap heap) : Spares heap heap := by
  refine ⟨⟨h, SamePool.refl _, Finset.Subset.refl _, rfl⟩, fun i hnext hmem => ?_⟩
  by_contra hno
  have hlt := (mem_takenBlocks.mp hmem).1
  rw [h.cleared i (by omega) hno] at hnext
  exact hnext rfl

lemma Grows.trans (h : Grows heap heap₁) (h' : Grows heap₁ heap₂) : Grows heap heap₂ :=
  ⟨h'.tidy, h.pool.trans h'.pool, h.taken.trans h'.taken, h'.front.trans h.front⟩

lemma NewlyTaken.later (h : NewlyTaken heap heap₁ ptr) (hgrows : Grows heap₁ heap₂) :
    NewlyTaken heap heap₂ ptr := by
  rcases h with ⟨i, hi, hno, hptr⟩
  exact ⟨i, hgrows.taken hi, hno, hptr⟩

lemma NewlyTaken.earlier (h : NewlyTaken heap₁ heap₂ ptr) (hgrows : Grows heap heap₁) :
    NewlyTaken heap heap₂ ptr := by
  rcases h with ⟨i, hi, hno, hptr⟩
  rw [hgrows.pool.1] at hptr
  exact ⟨i, hi, fun hmem => hno (hgrows.taken hmem), hptr⟩

lemma NewlyTaken.toFree (h : NewlyTaken heap heap₁ ptr) (hgrows : Grows heap heap₁) :
    ToFree heap ptr := by
  rcases h with ⟨i, hi, hno, hptr⟩
  refine ⟨i, ?_, hno, hptr⟩
  rw [← hgrows.pool.2]
  exact (mem_takenBlocks.mp hi).1

/-- Where something was newly taken, there are more blocks taken than before. -/
lemma NewlyTaken.ssubset (h : NewlyTaken heap heap₁ ptr) (hgrows : Grows heap heap₁) :
    takenBlocks heap ⊂ takenBlocks heap₁ := by
  rcases h with ⟨i, hi, hno, -⟩
  exact Finset.ssubset_iff_of_subset hgrows.taken |>.mpr ⟨i, hi, hno⟩

/-! ## Allocating -/

/-- Marking a run of free blocks, cut off at the end of the pool. -/
lemma Spares.mark {b n : ℕ} (h : Spares heap heap') (hn : 0 < n)
    (hfree : ∀ j : ℕ, b ≤ j → j < heap'.table.total → j < b + n →
      heapGetEntryType (heap'.table.entries j) = heapBlockTableEntryFree) :
    Spares heap (heapMarkBlocksTaken heap' b n) := by
  have hsame := heapMarkBlocksTaken_samePool heap' b n
  have hentries := heapMarkBlocksTaken_entries heap' (s := b) hn
  have htotal := hsame.2
  -- a block of the run is not one of those that were taken
  have hrun : ∀ j : ℕ, b ≤ j → j < b + n → j ∉ takenBlocks heap := by
    intro j h₀ h₁ hmem
    have hmem' := h.taken hmem
    exact not_mem_takenBlocks_of_free (hfree j h₀ (mem_takenBlocks.mp hmem').1 h₁) hmem'
  refine ⟨⟨⟨hsame.poolOk h.tidy.pool, ?_⟩, h.pool.trans hsame, ?_, ?_⟩, ?_⟩
  · intro j hj hno
    rw [htotal] at hj
    rw [mem_takenBlocks, htotal, hentries] at hno
    rw [hentries]
    by_cases hin : (b : ℤ) ≤ j ∧ (j : ℤ) < b + n
    · rw [if_pos hin, heapGetEntryType_blockFlags] at hno
      exact absurd ⟨hj, rfl⟩ hno
    · rw [if_neg hin] at hno ⊢
      exact h.tidy.cleared j hj fun hmem => hno (mem_takenBlocks.mp hmem)
  · intro j hmem
    have hmem' := mem_takenBlocks.mp (h.taken hmem)
    rw [mem_takenBlocks, htotal,
      heapMarkBlocksTaken_of_not_has hn fun hin => hrun j hin.1 hin.2 hmem]
    exact hmem'
  · rw [hentries, if_neg (by omega)]
    exact h.front
  · intro j hnext hmem
    rw [hentries] at hnext
    by_cases hin : (b : ℤ) ≤ j ∧ (j : ℤ) < b + n
    · rw [if_pos hin, Int.toNat_natCast, ne_eq, blockFlags_and_hasNext, not_not] at hnext
      exact absurd hmem (hrun (j + 1) (by omega) hnext)
    · rw [if_neg hin] at hnext
      exact h.next j hnext hmem

/-- A request leaves what was taken alone, and is answered with a block that was free. -/
theorem Spares.kmalloc (h : Spares heap k.heap) (hsize : size < 2 ^ 32)
    (hk : kernelAllocator.kmalloc size k = (ptr, k')) :
    Spares heap k'.heap ∧ (ptr ≠ 0 → ToFree heap ptr) := by
  rcases heapMalloc_cases h.tidy.pool hsize with hnone | ⟨b, hb, hfree, hmalloc⟩
  · rcases kmalloc_eq hnone with ⟨overdrawn, heq⟩
    rw [heq] at hk
    rw [← (Prod.mk.inj hk).1, ← (Prod.mk.inj hk).2]
    exact ⟨h, fun hne => absurd rfl hne⟩
  · rcases kmalloc_eq hmalloc with ⟨overdrawn, heq⟩
    rw [heq] at hk
    rw [← (Prod.mk.inj hk).1, ← (Prod.mk.inj hk).2]
    constructor
    · by_cases hzero : heapTotalBlocks size = 0
      · show Spares heap (heapMarkBlocksTaken k.heap b (heapTotalBlocks size : ℕ))
        rw [hzero, Nat.cast_zero, heapMarkBlocksTaken_zero]
        exact h
      · exact h.mark (Nat.pos_of_ne_zero hzero) fun j h₀ h₁ h₂ => hfree j h₀ h₁ (Or.inl h₂)
    · intro _
      have hblock := not_mem_takenBlocks_of_free (hfree b le_rfl hb (Or.inr rfl))
      refine ⟨b, ?_, fun hmem => hblock (h.taken hmem), ?_⟩
      · rw [← h.pool.2]
        exact hb
      · rw [← h.pool.1]

/-- The blocks behind the answer to a request for some bytes are newly taken. -/
lemma TidyHeap.kmalloc (h : TidyHeap k.heap) (hpos : 1 ≤ size) (hmax : size ≤ 2 ^ 32 - 4096)
    (hk : kernelAllocator.kmalloc size k = (ptr, k')) (hne : ptr ≠ 0) :
    NewlyTaken k.heap k'.heap ptr := by
  rcases heapMalloc_cases h.pool (show size < 2 ^ 32 by omega) with hnone | ⟨b, hb, hfree, hmalloc⟩
  · rcases kmalloc_eq hnone with ⟨overdrawn, heq⟩
    rw [heq] at hk
    exact absurd (Prod.mk.inj hk).1.symm hne
  · rcases kmalloc_eq hmalloc with ⟨overdrawn, heq⟩
    rw [heq] at hk
    rw [← (Prod.mk.inj hk).1, ← (Prod.mk.inj hk).2]
    have hblocks := blocksFor_pos hpos
    rw [heapTotalBlocks_eq hmax]
    refine ⟨b, ?_, not_mem_takenBlocks_of_free (hfree b le_rfl hb (Or.inr rfl)), rfl⟩
    rw [mem_takenBlocks,
      heapMarkBlocksTaken_of_has hblocks ⟨le_rfl, Nat.lt_add_of_pos_right hblocks⟩]
    exact ⟨hb, heapGetEntryType_blockFlags ..⟩

/-! ## Freeing -/

/-- The loop does not get to a block of `taken` when no flag leads there. -/
lemma heapMarkBlocksFreeLoop_spares {taken : Finset ℕ} :
    ∀ (n i : ℕ) (entries : ℤ → HeapBlockTableEntry),
      (∀ j : ℕ, entries j &&& heapBlockHasNext ≠ 0 → j + 1 ∈ taken → j ∈ taken) → i ∉ taken →
      ∀ j ∈ taken, heapMarkBlocksFreeLoop n i entries (j : ℕ) = entries (j : ℕ) := by
  intro n
  induction n with
  | zero => exact fun _ _ _ _ _ _ => rfl
  | succ n ih =>
    intro i entries hnext hi j hj
    have hself : Function.update entries i heapBlockTableEntryFree (j : ℕ) = entries (j : ℕ) := by
      apply Function.update_of_ne
      intro heq
      rw [Int.ofNat_inj.mp heq] at hj
      exact hi hj
    rw [heapMarkBlocksFreeLoop]
    by_cases hlast : entries i &&& heapBlockHasNext = 0
    · simp only [if_pos hlast]
      exact hself
    · simp only [if_neg hlast]
      have hrec := ih (i + 1) (Function.update entries i heapBlockTableEntryFree) ?_
        (fun hmem => hi (hnext i hlast hmem)) j hj
      · rw [Nat.cast_succ] at hrec
        rw [hrec, hself]
      · intro m hm hmem
        by_cases heq : (m : ℤ) = i
        · rw [heq, Function.update_self] at hm
          exact absurd rfl hm
        · rw [Function.update_of_ne heq] at hm
          exact hnext m hm hmem

/-- Freeing the address of a block. -/
lemma heapFree_block (hpool : PoolOk heap) (hi : i < heap.table.total) (j : ℤ) :
    (heapFree heap (heap.saddr + 4096 * i)).table.entries j =
      heapMarkBlocksFreeLoop ((heap.table.total : ℤ) - i).toNat i heap.table.entries j := by
  have htotal := hpool.total_lt
  rw [heapFree, ← hpool.heapBlockToAddress_eq hi,
    heapAddressToBlock_heapBlockToAddress heap (by omega)]
  rfl

/-- Freeing a block that was free leaves what was taken alone. -/
theorem Spares.kfree (h : Spares heap k.heap) (hptr : ToFree heap ptr) :
    Spares heap (kernelAllocator.kfree ptr k).heap := by
  show Spares heap (heapFree k.heap ptr)
  rcases hptr with ⟨i, hi, hno, hptr⟩
  have hsame := heapFree_samePool k.heap ptr
  have hentries := heapFree_block (i := i) h.tidy.pool (by rwa [h.pool.2])
  rw [h.pool.1, ← hptr] at hentries
  have hclears := heapMarkBlocksFreeLoop_clears ((k.heap.table.total : ℤ) - i).toNat i
    k.heap.table.entries
  refine ⟨⟨⟨hsame.poolOk h.tidy.pool, ?_⟩, h.pool.trans hsame, ?_, ?_⟩, ?_⟩
  · intro j hj hnot
    rw [mem_takenBlocks, hsame.2, hentries] at hnot
    rw [hentries]
    rcases hclears j with heq | hfree
    · rw [heq] at hnot ⊢
      exact h.tidy.cleared j (by rwa [hsame.2] at hj) fun hmem => hnot (mem_takenBlocks.mp hmem)
    · exact hfree
  · intro j hmem
    rw [mem_takenBlocks, hsame.2, hentries,
      heapMarkBlocksFreeLoop_spares _ i _ h.next hno j hmem]
    exact mem_takenBlocks.mp (h.taken hmem)
  · rw [hentries, heapMarkBlocksFreeLoop_before _ _ _ _ (by omega)]
    exact h.front
  · intro j hnext hmem
    rw [hentries] at hnext
    rcases hclears j with heq | hfree
    · rw [heq] at hnext
      exact h.next j hnext hmem
    · rw [hfree] at hnext
      exact absurd rfl hnext

/-! ## Freeing a null pointer -/

/-- A loop that leaves an entry on its way as it was stopped before that entry. -/
lemma heapMarkBlocksFreeLoop_stops : ∀ (n : ℕ) (i : ℤ) (entries : ℤ → HeapBlockTableEntry) (m : ℤ),
    i ≤ m → heapMarkBlocksFreeLoop n i entries m = entries m →
    ∀ j, m < j → heapMarkBlocksFreeLoop n i entries j = entries j := by
  intro n
  induction n with
  | zero => exact fun _ _ _ _ _ _ _ => rfl
  | succ n ih =>
    intro i entries m hm hsame j hj
    have hself : Function.update entries i heapBlockTableEntryFree j = entries j :=
      Function.update_of_ne (by omega) _ _
    rw [heapMarkBlocksFreeLoop] at hsame ⊢
    by_cases hlast : entries i &&& heapBlockHasNext = 0
    · simp only [if_pos hlast]
      exact hself
    · simp only [if_neg hlast] at hsame ⊢
      by_cases him : i = m
      · rw [him, heapMarkBlocksFreeLoop_before _ _ _ _ (by omega), Function.update_self] at hsame
        rw [him, ← hsame] at hlast
        exact absurd rfl hlast
      · have hkept : Function.update entries i heapBlockTableEntryFree m = entries m :=
          Function.update_of_ne (fun heq => him heq.symm) _ _
        rw [ih _ _ m (by omega) (hsame.trans hkept.symm) j hj, hself]

/-- Either the byte in front of the table was overwritten, or what was taken is taken. -/
def SparesOrWrites (heap heap' : Heap) : Prop :=
  Spares heap heap' ∨ PoolOk heap' ∧ SamePool heap heap' ∧
    heap'.table.entries (-1) ≠ heap.table.entries (-1)

/-- A null pointer is to a block far in front of the table. -/
theorem Spares.kfree_null (h : Spares heap k.heap) :
    SparesOrWrites heap (kernelAllocator.kfree 0 k).heap := by
  show SparesOrWrites heap (heapFree k.heap 0)
  have hsame := heapFree_samePool k.heap 0
  have hfits := h.tidy.pool.fits
  have hpos := h.tidy.pool.pos
  have haligned := h.tidy.pool.aligned
  have hblock : heapAddressToBlock k.heap 0 ≤ -1 := by
    unfold heapAddressToBlock
    simp only [marrowosHeapBlockSize]
    have hbytes : ((0 : ℕ) : ℤ) - k.heap.saddr = -((k.heap.saddr / 4096 : ℕ) : ℤ) * (4096 : ℕ) := by
      omega
    rw [i32_of_range (by omega) (by omega), hbytes, Int.mul_tdiv_cancel _ (by norm_num)]
    omega
  by_cases hwritten : (heapFree k.heap 0).table.entries (-1) = k.heap.table.entries (-1)
  · left
    have hrest := heapMarkBlocksFreeLoop_stops _ _ _ (-1) hblock hwritten
    have hentries : ∀ j : ℕ, (heapFree k.heap 0).table.entries j = k.heap.table.entries j :=
      fun j => hrest j (by omega)
    have htaken : takenBlocks (heapFree k.heap 0) = takenBlocks k.heap := by
      ext j
      rw [mem_takenBlocks, mem_takenBlocks, hentries, hsame.2]
    refine ⟨⟨⟨hsame.poolOk h.tidy.pool, ?_⟩, h.pool.trans hsame, ?_, ?_⟩, ?_⟩
    · intro j hj hno
      rw [htaken] at hno
      rw [hentries]
      exact h.tidy.cleared j hj hno
    · rw [htaken]
      exact h.taken
    · rw [hwritten]
      exact h.front
    · intro j hnext hmem
      rw [hentries] at hnext
      exact h.next j hnext hmem
  · right
    refine ⟨hsame.poolOk h.tidy.pool, h.pool.trans hsame, ?_⟩
    rw [← h.front]
    exact hwritten

lemma SparesOrWrites.kfree (h : SparesOrWrites heap k.heap) (hptr : ToFree heap ptr) :
    SparesOrWrites heap (kernelAllocator.kfree ptr k).heap := by
  rcases h with h | ⟨hpool, hsame, hwritten⟩
  · exact Or.inl (h.kfree hptr)
  · right
    rcases hptr with ⟨i, hi, -, hptr⟩
    have hfree := heapFree_samePool k.heap ptr
    refine ⟨hfree.poolOk hpool, hsame.trans hfree, ?_⟩
    have hentries := heapFree_block (i := i) hpool (by rwa [hsame.2]) (-1)
    rw [hsame.1, ← hptr, heapMarkBlocksFreeLoop_before _ _ _ _ (by omega)] at hentries
    show (heapFree k.heap ptr).table.entries (-1) ≠ heap.table.entries (-1)
    rw [hentries]
    exact hwritten

end MarrowOS
