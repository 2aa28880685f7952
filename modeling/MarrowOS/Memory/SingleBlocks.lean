import MarrowOS.Memory.FreshAddressSpace
import MarrowOS.Memory.HeldBlocks

/-!
# Blocks taken one by one

The path parser asks for no more than a block at a time. `TakenSingly` says which blocks were taken
this way since some heap, as the list of their pointers; freeing them in any order leads back to
that heap (`TakenSingly.kfreeAll`).
-/

namespace MarrowOS

open CInt

/-- The table byte of an allocation of one block. -/
@[simp] abbrev singleBlock : HeapBlockTableEntry := heapBlockTableEntryTaken ||| heapBlockIsFirst

/-- The pointer is the address of block `j`. -/
def PointsTo (heap : Heap) (ptr : ℕ) (j : ℤ) : Prop := (ptr : ℤ) = heap.saddr + 4096 * j

/-- The second heap is the first one with a block taken for each of the pointers. -/
structure TakenSingly (heap heap' : Heap) (ptrs : List ℕ) : Prop where
  pool : SamePool heap heap'
  nodup : ptrs.Nodup
  toFree : ∀ p ∈ ptrs, ToFree heap p
  taken : ∀ p ∈ ptrs, ∀ j, PointsTo heap p j → heap'.table.entries j = singleBlock
  rest : ∀ j, (∀ p ∈ ptrs, ¬ PointsTo heap p j) → heap'.table.entries j = heap.table.entries j

variable {heap heap' : Heap} {k k' : KernelHeap} {ptrs ptrs' : List ℕ} {ptr size : ℕ}

lemma TakenSingly.refl (heap : Heap) : TakenSingly heap heap [] :=
  ⟨SamePool.refl heap, List.nodup_nil, fun _ hp => absurd hp List.not_mem_nil,
    fun _ hp => absurd hp List.not_mem_nil, fun _ _ => rfl⟩

lemma TakenSingly.perm (h : TakenSingly heap heap' ptrs) (hperm : ptrs.Perm ptrs') :
    TakenSingly heap heap' ptrs' := by
  have hmem : ∀ p, p ∈ ptrs' ↔ p ∈ ptrs := fun p => hperm.symm.mem_iff
  refine ⟨h.pool, hperm.nodup_iff.mp h.nodup, ?_, ?_, ?_⟩
  · exact fun p hp => h.toFree p ((hmem p).mp hp)
  · exact fun p hp => h.taken p ((hmem p).mp hp)
  · exact fun j hj => h.rest j fun p hp => hj p ((hmem p).mpr hp)

lemma TakenSingly.sameTable (h : TakenSingly heap heap' []) : SameTable heap heap' :=
  ⟨h.pool, fun j _ => h.rest j fun _ hp => absurd hp List.not_mem_nil⟩

/-! ## One request -/

/-- A request for at most one block is refused when none is free, and takes a free one else. -/
lemma kmalloc_single (hpool : PoolOk k.heap) (hpos : 1 ≤ size) (hmax : size ≤ 4096) :
    ((kernelAllocator.kmalloc size k).1 = 0 ∧ freeBlocks k.heap = 0 ∧
        (kernelAllocator.kmalloc size k).2.heap = k.heap) ∨
      ∃ b : ℕ, b < k.heap.table.total ∧ BlockFree k.heap.table.entries b ∧
        (kernelAllocator.kmalloc size k).1 = k.heap.saddr + 4096 * b ∧
        (kernelAllocator.kmalloc size k).2.heap = heapMarkBlocksTaken k.heap b (1 : ℕ) := by
  have hblocks : heapTotalBlocks size = 1 := by
    rw [heapTotalBlocks_eq (by omega)]
    unfold blocksFor
    omega
  rcases heapMalloc_cases hpool (show size < 2 ^ 32 by omega) with hnone | ⟨b, hb, hfree, hmalloc⟩
  · left
    rcases kmalloc_eq hnone with ⟨overdrawn, heq⟩
    rw [heq]
    refine ⟨rfl, ?_, rfl⟩
    by_contra hne
    rcases kzalloc_block (m := ⟨k, fun _ => 0⟩) hpool hpos hmax (Nat.pos_of_ne_zero hne) with
      ⟨b, -, -, -, hkz⟩
    unfold kzalloc at hkz
    simp only [heq] at hkz
    have hptr : 0 = k.heap.saddr + 4096 * b := (Prod.mk.inj (Except.ok.inj hkz)).1
    have hpos := hpool.pos
    omega
  · right
    rcases kmalloc_eq hmalloc with ⟨overdrawn, heq⟩
    rw [heq, hblocks]
    exact ⟨b, hb, hfree b le_rfl hb (Or.inr rfl), rfl, rfl⟩

/-- Taking a block that is free. -/
lemma TakenSingly.take {b : ℕ} (h : TakenSingly heap heap' ptrs) (hb : b < heap'.table.total)
    (hfree : BlockFree heap'.table.entries b) :
    TakenSingly heap (heapMarkBlocksTaken heap' b (1 : ℕ)) ((heap'.saddr + 4096 * b) :: ptrs) := by
  have hsame := heapMarkBlocksTaken_samePool heap' b (1 : ℕ)
  have hentries := heapMarkBlocksTaken_entries heap' (s := b) Nat.one_pos
  rw [h.pool.1]
  -- a block that was taken before is not free now
  have hother : ∀ p ∈ ptrs, ¬ PointsTo heap p b := by
    intro p hp hpoints
    rw [BlockFree, h.taken p hp b hpoints] at hfree
    exact absurd hfree (by decide)
  refine ⟨h.pool.trans hsame, ?_, ?_, ?_, ?_⟩
  · apply List.nodup_cons.mpr
    refine ⟨fun hmem => hother _ hmem ?_, h.nodup⟩
    exact Nat.cast_add ..
  · refine List.forall_mem_cons.mpr ⟨⟨b, by rwa [← h.pool.2], ?_, rfl⟩, h.toFree⟩
    rw [BlockFree, h.rest b hother] at hfree
    exact not_mem_takenBlocks_of_free hfree
  · intro p hp j hj
    rw [hentries]
    rcases List.mem_cons.mp hp with heq | hp
    · unfold PointsTo at hj
      have hjb : j = b := by omega
      rw [if_pos (by omega), hjb, Int.toNat_natCast, blockFlags, if_pos rfl, if_neg (by omega)]
      rfl
    · rw [if_neg]
      · exact h.taken p hp j hj
      · rintro ⟨h₀, h₁⟩
        have hjb : j = b := by omega
        rw [hjb] at hj
        exact hother p hp hj
  · intro j hj
    rw [hentries, if_neg]
    · exact h.rest j fun p hp => hj p (List.mem_cons_of_mem _ hp)
    · rintro ⟨h₀, h₁⟩
      apply hj _ List.mem_cons_self
      unfold PointsTo
      omega

/-- What a request for at most one block does. -/
theorem TakenSingly.kmalloc (h : TakenSingly heap k.heap ptrs) (htidy : TidyHeap heap)
    (hpos : 1 ≤ size) (hmax : size ≤ 4096) (hk : kernelAllocator.kmalloc size k = (ptr, k')) :
    (ptr = 0 ∧ freeBlocks k.heap = 0 ∧ k'.heap = k.heap) ∨
      (ptr ≠ 0 ∧ freeBlocks k'.heap + 1 = freeBlocks k.heap ∧
        TakenSingly heap k'.heap (ptr :: ptrs)) := by
  have hpool := h.pool.poolOk htidy.pool
  rcases kmalloc_single hpool hpos hmax with ⟨h0, hfull, hsame⟩ | ⟨b, hb, hfree, hptr, hheap⟩
  · rw [hk] at h0 hsame
    exact Or.inl ⟨h0, hfull, hsame⟩
  · right
    rw [hk] at hptr hheap
    simp only at hptr hheap
    rw [hptr, hheap]
    have hsaddr := hpool.pos
    exact ⟨by omega, freeBlocks_take hb hfree, h.take hb hfree⟩

/-! ## Freeing -/

/-- Freeing the pointer at the head of the list. -/
theorem TakenSingly.heapFree_head (h : TakenSingly heap heap' (ptr :: ptrs))
    (htidy : TidyHeap heap) : TakenSingly heap (heapFree heap' ptr) ptrs := by
  rcases h.toFree ptr List.mem_cons_self with ⟨i, hi, hno, hptr⟩
  have hpoints : PointsTo heap ptr i := by
    rw [PointsTo, hptr]
    exact Nat.cast_add ..
  have hflags := h.taken ptr List.mem_cons_self i hpoints
  have hsame := heapFree_samePool heap' ptr
  have htotal := h.pool.2
  have hentries : ∀ j, (heapFree heap' ptr).table.entries j =
      Function.update heap'.table.entries i heapBlockTableEntryFree j := by
    intro j
    have hblock := heapFree_block (h.pool.poolOk htidy.pool) (show i < heap'.table.total by omega) j
    rw [h.pool.1, ← hptr] at hblock
    obtain ⟨n, hn⟩ : ∃ n, ((heap'.table.total : ℤ) - i).toNat = n + 1 :=
      ⟨((heap'.table.total : ℤ) - i).toNat - 1, by omega⟩
    rw [hblock, hn, heapMarkBlocksFreeLoop, hflags, if_pos (by decide)]
  rcases List.nodup_cons.mp h.nodup with ⟨hnot, hnodup⟩
  refine ⟨h.pool.trans hsame, hnodup, fun p hp => h.toFree p (List.mem_cons_of_mem _ hp), ?_, ?_⟩
  · intro p hp j hj
    have hne : j ≠ i := by
      intro heq
      unfold PointsTo at hj hpoints
      have hsamePtr : p = ptr := by omega
      rw [hsamePtr] at hp
      exact hnot hp
    rw [hentries, Function.update_of_ne hne]
    exact h.taken p (List.mem_cons_of_mem _ hp) j hj
  · intro j hj
    rw [hentries]
    by_cases heq : j = i
    · rw [heq, Function.update_self, htidy.cleared i hi hno]
    · rw [Function.update_of_ne heq]
      apply h.rest j
      intro p hp hpoints'
      rcases List.mem_cons.mp hp with hsamePtr | hp
      · unfold PointsTo at hpoints hpoints'
        omega
      · exact hj p hp hpoints'

/-- Freeing the pointers, in the order of the list. -/
theorem TakenSingly.kfreeAll {freed : List ℕ} (htidy : TidyHeap heap)
    (h : TakenSingly heap k.heap (freed ++ ptrs)) :
    TakenSingly heap (freed.foldl (fun k p => kernelAllocator.kfree p k) k).heap ptrs := by
  induction freed generalizing k with
  | nil => exact h
  | cons p freed ih => exact ih (h.heapFree_head htidy)

end MarrowOS
