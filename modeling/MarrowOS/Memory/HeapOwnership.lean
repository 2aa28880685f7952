import MarrowOS.Memory.KernelHeapTheorems

/-!
# Who owns which block of the kernel heap

`HeapOwns` is `TableOwns` on a pool that lies where the kernel's does: a pointer is then the address
of its first block and not null, so that `kmalloc` answers null only when it refuses.

`kmalloc_owns` and `heapFree_head` are the step lemmas, for every heap and every size.
-/

namespace MarrowOS

open ByteMem CInt Extents Fallible FirstFit

/-- The table describes the live allocations, as far as the pool goes. -/
structure HeapOwns (heap : Heap) (live : List Alloc) : Prop where
  pool : PoolOk heap
  size_pos : ∀ a ∈ live, 1 ≤ a.size
  ptr_eq : ∀ a ∈ live, a.ptr = heap.saddr + 4096 * (heap.extent a).start
  start_lt : ∀ a ∈ live, (heap.extent a).start < heap.table.total
  apart : AllApart heap.extent live
  owned : ∀ a ∈ live, ∀ i, (heap.extent a).Has i → i < heap.table.total →
    heap.table.entries i = blockFlags (heap.extent a).start (heap.extent a).len i
  free : ∀ i : ℕ, i < heap.table.total → (∀ a ∈ live, ¬ (heap.extent a).Has i) →
    heap.table.entries i = heapBlockTableEntryFree

variable {heap heap' : Heap} {live live' : List Alloc} {a b : Alloc} {i size ptr : ℕ}

/-- With the pool where the kernel has it, the blocks have addresses above null. -/
lemma TableOwns.owns (h : TableOwns heap live) (hpool : PoolOk heap) : HeapOwns heap live := by
  refine ⟨hpool, h.size_pos, fun a ha => ?_, h.start_lt, h.apart, h.owned, h.free⟩
  rw [← hpool.heapBlockToAddress_eq (h.start_lt a ha)]
  exact h.ptr_eq a ha

lemma HeapOwns.table (h : HeapOwns heap live) : TableOwns heap live := by
  refine ⟨h.pool.total_lt.le, h.size_pos, fun a ha => ?_, h.start_lt, h.apart, h.owned, h.free⟩
  rw [h.pool.heapBlockToAddress_eq (h.start_lt a ha)]
  exact h.ptr_eq a ha

lemma HeapOwns.len_pos (h : HeapOwns heap live) (ha : a ∈ live) : 0 < (heap.extent a).len :=
  h.table.len_pos ha

lemma HeapOwns.perm (h : HeapOwns heap live) (hperm : live.Perm live') : HeapOwns heap live' := by
  have hmem : ∀ a, a ∈ live' ↔ a ∈ live := fun a => hperm.symm.mem_iff
  refine ⟨h.pool, fun a ha => h.size_pos a ((hmem a).mp ha),
    fun a ha => h.ptr_eq a ((hmem a).mp ha), fun a ha => h.start_lt a ((hmem a).mp ha), ?_,
    fun a ha => h.owned a ((hmem a).mp ha),
    fun i hi hno => h.free i hi fun a ha => hno a ((hmem a).mpr ha)⟩
  exact (hperm.pairwise_iff fun h => Extent.Apart.symm h).mp h.apart

/-- A block that is free belongs to nobody. -/
lemma HeapOwns.not_has_of_free (h : HeapOwns heap live) (hi : i < heap.table.total)
    (hfree : heapGetEntryType (heap.table.entries i) = heapBlockTableEntryFree)
    (ha : a ∈ live) : ¬ (heap.extent a).Has i := h.table.not_has_of_free hi hfree ha

/-- A heap that satisfied every request. -/
lemma HeapInv.owns (h : HeapInv heap live) (hpool : PoolOk heap) : HeapOwns heap live :=
  h.table.owns hpool

/-! ## Allocation -/

/-- What `heap_malloc` answers: nothing, or a run of free blocks that is long enough or goes on to
the end of the pool. -/
lemma heapMalloc_cases (hpool : PoolOk heap) (hsize : size < 2 ^ 32) :
    heapMalloc heap size = (0, heap) ∨ ∃ b : ℕ, b < heap.table.total ∧
      (∀ j : ℕ, b ≤ j → j < heap.table.total → (j < b + heapTotalBlocks size ∨ j = b) →
        heapGetEntryType (heap.table.entries j) = heapBlockTableEntryFree) ∧
      heapMalloc heap size =
        (heap.saddr + 4096 * b, heapMarkBlocksTaken heap b (heapTotalBlocks size)) := by
  rcases heapMalloc_answers hpool.total_lt.le hsize with ⟨-, hnone⟩ | ⟨b, hb, hfree, -, hmalloc⟩
  · exact Or.inl hnone
  · rw [hpool.heapBlockToAddress_eq hb] at hmalloc
    exact Or.inr ⟨b, hb, hfree, hmalloc⟩

/-! ## Taking and freeing -/

lemma PoolOk.extent_eq (hpool : PoolOk heap) (hi : i < heap.table.total) (size : ℕ) :
    heap.extent ⟨heap.saddr + 4096 * i, size⟩ = ⟨i, blocksFor size⟩ := by
  have htotal := hpool.total_lt
  rw [← hpool.heapBlockToAddress_eq hi]
  exact heap.extent_heapBlockToAddress size (by omega)

/-- Taking a run of free blocks, cut off at the end of the pool, keeps the table right. -/
lemma HeapOwns.take (h : HeapOwns heap live) (hpos : 1 ≤ size) (hi : i < heap.table.total)
    (hfree : ∀ j : ℕ, i ≤ j → j < heap.table.total → j < i + blocksFor size →
      heapGetEntryType (heap.table.entries j) = heapBlockTableEntryFree) :
    HeapOwns (heapMarkBlocksTaken heap i (blocksFor size))
      (⟨heap.saddr + 4096 * i, size⟩ :: live) := by
  have hown := h.table.take hpos hi hfree
  rw [h.pool.heapBlockToAddress_eq hi] at hown
  exact hown.owns ((heapMarkBlocksTaken_samePool heap i (blocksFor size)).poolOk h.pool)

/-- Freeing the pointer at the head of the list. -/
theorem HeapOwns.heapFree_head (h : HeapOwns heap (a :: live)) :
    HeapOwns (heapFree heap a.ptr) live :=
  h.table.heapFree_head.owns ((heapFree_samePool heap a.ptr).poolOk h.pool)

/-- Taking a run of free blocks and freeing it again changes nothing. -/
lemma HeapOwns.heapFree_take (h : HeapOwns heap live) (hpos : 1 ≤ size)
    (hrun : FreeRun heap.table (blocksFor size) i) :
    heapFree (heapMarkBlocksTaken heap i (blocksFor size)) (heap.saddr + 4096 * i) = heap := by
  have hfit := hrun.1
  have hblocks := blocksFor_pos hpos
  have hi : i < heap.table.total := by omega
  have hown := h.take hpos hi fun j h₀ h₁ h₂ => hrun.2 j h₀ h₂
  have hsame := heapMarkBlocksTaken_samePool heap i (blocksFor size)
  have hentries := hown.table.heapFree_entries List.mem_cons_self
  rw [hsame.extent, h.pool.extent_eq hi, hsame.2] at hentries
  have hself : heapFree (heapMarkBlocksTaken heap i (blocksFor size)) (heap.saddr + 4096 * i) =
      heap.withEntries (heapFree (heapMarkBlocksTaken heap i (blocksFor size))
        (heap.saddr + 4096 * i)).table.entries := rfl
  have hsaved : heap.withEntries heap.table.entries = heap := rfl
  rw [hself, ← hsaved]
  congr 1
  funext j
  rw [hsaved, hentries]
  by_cases hj : (i : ℤ) ≤ j ∧ j < i + blocksFor size
  · rw [if_pos ⟨hj.1, hj.2, by omega⟩]
    obtain ⟨j', rfl⟩ := Int.eq_ofNat_of_zero_le (show 0 ≤ j by omega)
    have hfree := hrun.2 j' (by omega) (by omega)
    exact (h.free j' (by omega) fun a ha => h.not_has_of_free (by omega) hfree ha).symm
  · rw [if_neg fun hin => hj ⟨hin.1, hin.2.1⟩, heapMarkBlocksTaken_entries heap hblocks, if_neg hj]

/-! ## Pointers nobody owns -/

/-- The pointer is the address of a block that no live allocation owns. -/
def Unowned (heap : Heap) (live : List Alloc) (ptr : ℕ) : Prop :=
  ∃ i, i < heap.table.total ∧ ptr = heap.saddr + 4096 * i ∧ ∀ a ∈ live, ¬ (heap.extent a).Has i

lemma Unowned.samePool (h : Unowned heap live ptr) (hsame : SamePool heap heap') :
    Unowned heap' live ptr := by
  rcases h with ⟨i, hi, hptr, hno⟩
  refine ⟨i, ?_, ?_, ?_⟩
  · rw [hsame.2]
    exact hi
  · rw [hsame.1]
    exact hptr
  · rw [hsame.extent]
    exact hno

lemma Unowned.mono (h : Unowned heap live ptr) (hsub : ∀ a ∈ live', a ∈ live) :
    Unowned heap live' ptr := by
  rcases h with ⟨i, hi, hptr, hno⟩
  exact ⟨i, hi, hptr, fun a ha => hno a (hsub a ha)⟩

/-- The pointer at the head is not owned by the rest. -/
lemma HeapOwns.unowned_head (h : HeapOwns heap (a :: live)) : Unowned heap live a.ptr := by
  refine ⟨(heap.extent a).start, h.start_lt a List.mem_cons_self, h.ptr_eq a List.mem_cons_self,
    fun c hc => ?_⟩
  exact (List.pairwise_cons.mp h.apart).1 c hc _ (Extent.has_start (h.len_pos List.mem_cons_self))

/-- Freeing a pointer nobody owns changes nothing. -/
lemma HeapOwns.heapFree_unowned (h : HeapOwns heap live) (hptr : Unowned heap live ptr) :
    heapFree heap ptr = heap := by
  rcases hptr with ⟨i, hi, hptr, hno⟩
  have htotal := h.pool.total_lt
  rw [hptr, ← h.pool.heapBlockToAddress_eq hi, heapFree,
    heapAddressToBlock_heapBlockToAddress heap (by omega)]
  exact heapMarkBlocksFree_of_free (h.free i hi hno)

/-! ## The bytes of an allocation -/

/-- The byte lies in one of the blocks. -/
def Alloc.Covers (a : Alloc) (x : ℕ) : Prop := a.ptr ≤ x ∧ x < a.ptr + 4096 * blocksFor a.size

/-- The bytes that were asked for lie in the blocks. -/
lemma Alloc.covers_of_lt {x : ℕ} (h₀ : ptr ≤ x) (h₁ : x < ptr + size) :
    (⟨ptr, size⟩ : Alloc).Covers x :=
  ⟨h₀, h₁.trans_le (Nat.add_le_add_left ((le_blocksFor_mul size).trans_eq (Nat.mul_comm _ _)) ptr)⟩

/-- The memories agree on the blocks of the allocations. -/
def SameOn (live : List Alloc) (mem mem' : Mem) : Prop :=
  ∀ a ∈ live, ∀ x, a.Covers x → mem' x = mem x

lemma SameOn.refl (live : List Alloc) (mem : Mem) : SameOn live mem mem := fun _ _ _ _ => rfl

lemma SameOn.trans {m₁ m₂ m₃ : Mem} (h : SameOn live m₁ m₂) (h' : SameOn live m₂ m₃) :
    SameOn live m₁ m₃ := fun a ha x hx => (h' a ha x hx).trans (h a ha x hx)

lemma SameOn.mono {mem mem' : Mem} (h : SameOn live mem mem') (hsub : ∀ a ∈ live', a ∈ live) :
    SameOn live' mem mem' := fun a ha => h a (hsub a ha)

/-- No byte belongs to two live allocations. -/
lemma HeapOwns.covers_unique (h : HeapOwns heap live) (ha : a ∈ live) (hb : b ∈ live) {x : ℕ}
    (hax : a.Covers x) (hbx : b.Covers x) : a = b := by
  have hptra := h.ptr_eq a ha
  have hptrb := h.ptr_eq b hb
  have hhas : ∀ c : Alloc, c.ptr = heap.saddr + 4096 * (heap.extent c).start → c.Covers x →
      (heap.extent c).Has ((x - heap.saddr) / 4096) := by
    intro c hptr hcx
    have hlen : (heap.extent c).len = blocksFor c.size := rfl
    unfold Alloc.Covers at hcx
    unfold Extent.Has
    omega
  exact h.apart.owner_unique ha hb (hhas a hptra hax) (hhas b hptrb hbx)

/-- What is written to the blocks of the pointer at the head is not seen by the rest. -/
lemma HeapOwns.sameOn_of_head (h : HeapOwns heap (a :: live)) {mem mem' : Mem}
    (hout : ∀ x, ¬ a.Covers x → mem' x = mem x) : SameOn live mem mem' := by
  intro c hc x hx
  apply hout
  intro hax
  rcases List.pairwise_cons.mp h.apart with ⟨hapart, -⟩
  have heq := h.covers_unique List.mem_cons_self (List.mem_cons_of_mem a hc) hax hx
  subst heq
  exact hapart a hc _ (Extent.has_start (h.len_pos List.mem_cons_self))
    (Extent.has_start (h.len_pos List.mem_cons_self))

lemma HeapOwns.ptr_pos (h : HeapOwns heap live) (ha : a ∈ live) : 0 < a.ptr := by
  have hptr := h.ptr_eq a ha
  have hpos := h.pool.pos
  omega

lemma HeapOwns.ptr_aligned (h : HeapOwns heap live) (ha : a ∈ live) : a.ptr % 4096 = 0 := by
  have hptr := h.ptr_eq a ha
  have haligned := h.pool.aligned
  omega

/-- An allocation starts below `2 ^ 31`. -/
lemma HeapOwns.ptr_lt (h : HeapOwns heap live) (ha : a ∈ live) : a.ptr + 4096 ≤ 2 ^ 31 := by
  have hptr := h.ptr_eq a ha
  have hstart := h.start_lt a ha
  have hfits := h.pool.fits
  omega

/-! ## `kzalloc` -/

variable {m m' : Machine KernelHeap}

lemma kmalloc_eq {k : KernelHeap} (hmalloc : heapMalloc k.heap size = (ptr, heap)) :
    ∃ overdrawn, kernelAllocator.kmalloc size k = (ptr, ⟨heap, overdrawn⟩) := by
  simp only [kernelAllocator, hmalloc]
  exact ⟨_, rfl⟩

/-- What `kmalloc` does, for every size: it refuses, or answers a request that is rounded to no
block with a pointer nobody owns, or hands out blocks that nobody owned. -/
theorem kmalloc_owns {k k' : KernelHeap} (h : HeapOwns k.heap live) (hsize : size < 2 ^ 32)
    (hk : kernelAllocator.kmalloc size k = (ptr, k')) :
    (ptr = 0 ∧ k'.heap = k.heap) ∨
    (heapTotalBlocks size = 0 ∧ 4096 ≤ ptr ∧ Unowned k.heap live ptr ∧ k'.heap = k.heap) ∨
    (ptr ≠ 0 ∧ 1 ≤ size ∧ size ≤ 2 ^ 32 - 4096 ∧ HeapOwns k'.heap (⟨ptr, size⟩ :: live) ∧
      SamePool k.heap k'.heap) := by
  have hpos := h.pool.pos
  have haligned := h.pool.aligned
  rcases heapMalloc_cases h.pool hsize with hnone | ⟨i, hi, hfree, hmalloc⟩
  · rcases kmalloc_eq hnone with ⟨overdrawn, heq⟩
    rw [heq] at hk
    rw [← (Prod.mk.inj hk).1, ← (Prod.mk.inj hk).2]
    exact Or.inl ⟨rfl, rfl⟩
  · rcases kmalloc_eq hmalloc with ⟨overdrawn, heq⟩
    rw [heq] at hk
    rw [← (Prod.mk.inj hk).1, ← (Prod.mk.inj hk).2]
    right
    by_cases hzero : heapTotalBlocks size = 0
    · left
      have hown : ∀ a ∈ live, ¬ (k.heap.extent a).Has i := fun a ha =>
        h.not_has_of_free hi (hfree i le_rfl hi (Or.inr rfl)) ha
      refine ⟨hzero, by omega, ⟨i, hi, rfl, hown⟩, ?_⟩
      show heapMarkBlocksTaken k.heap i (heapTotalBlocks size : ℕ) = k.heap
      rw [hzero, Nat.cast_zero, heapMarkBlocksTaken_zero]
    · right
      have hsize0 : 1 ≤ size := by
        by_contra hlt
        rw [show size = 0 by omega] at hzero
        exact hzero rfl
      have hmax : size ≤ 2 ^ 32 - 4096 := by
        by_contra hlarge
        exact hzero (heapTotalBlocks_eq_zero (by omega) hsize)
      rw [heapTotalBlocks_eq hmax] at hfree ⊢
      refine ⟨by omega, hsize0, hmax, ?_, heapMarkBlocksTaken_samePool _ _ _⟩
      exact h.take hsize0 hi fun j h₀ h₁ h₂ => hfree j h₀ h₁ (Or.inl h₂)

/-- What `kzalloc` does: it refuses, or answers a request for zero bytes with a pointer nobody
owns, or hands out cleared blocks that nobody owned. -/
theorem kzalloc_owns (h : HeapOwns m.heap.heap live) (hsize : size < 2 ^ 32)
    (hkz : kzalloc kernelAllocator size m = .ok (ptr, m')) :
    (ptr = 0 ∧ m'.heap.heap = m.heap.heap ∧ m'.mem = m.mem) ∨
    (size = 0 ∧ ptr ≠ 0 ∧ Unowned m.heap.heap live ptr ∧ m'.heap.heap = m.heap.heap ∧
      m'.mem = m.mem) ∨
    (ptr ≠ 0 ∧ 1 ≤ size ∧ HeapOwns m'.heap.heap (⟨ptr, size⟩ :: live) ∧
      SamePool m.heap.heap m'.heap.heap ∧ m'.mem = fill m.mem ptr size 0) := by
  unfold kzalloc at hkz
  cases hk : kernelAllocator.kmalloc size m.heap with
  | mk p k' =>
  rw [hk] at hkz
  have hcases := kmalloc_owns h hsize hk
  by_cases hp : p = 0
  · simp only [if_pos hp] at hkz
    rw [← (Prod.mk.inj (Except.ok.inj hkz)).1, ← (Prod.mk.inj (Except.ok.inj hkz)).2]
    rcases hcases with ⟨-, hheap⟩ | ⟨-, hle, -⟩ | ⟨hne, -⟩
    · exact Or.inl ⟨rfl, hheap, rfl⟩
    · omega
    · exact absurd hp hne
  · simp only [if_neg hp] at hkz
    rcases bind_eq_ok.mp hkz with ⟨mem, hmem, hret⟩
    unfold memset at hmem
    by_cases hover : 2 ^ 32 < p + size
    · rw [if_pos hover] at hmem
      exact absurd hmem (by simp)
    rw [if_neg hover] at hmem
    rw [← (Prod.mk.inj (Except.ok.inj hret)).1, ← (Prod.mk.inj (Except.ok.inj hret)).2]
    rw [← Except.ok.inj hmem]
    right
    rcases hcases with ⟨h0, -⟩ | ⟨hzero, hle, hown, hheap⟩ | ⟨hne, hsize0, -, hown, hsame⟩
    · exact absurd h0 hp
    · left
      -- the sizes that wrap around to no block are those that cannot be cleared
      have hsize0 : size = 0 := by
        by_contra hne
        have hlarge : 2 ^ 32 - 4096 < size := by
          by_contra hle'
          have hblocks := blocksFor_pos (show 1 ≤ size by omega)
          rw [heapTotalBlocks_eq (by omega)] at hzero
          omega
        omega
      subst hsize0
      exact ⟨rfl, hp, hown, hheap, fill_zero⟩
    · exact Or.inr ⟨hp, hsize0, hown, hsame, rfl⟩

/-! ## One request -/

variable {k k' : KernelHeap}

/-- The blocks behind the pointer that a request for `size` bytes was answered with. -/
def requestBlocks (ptr size : ℕ) : List Alloc :=
  if heapTotalBlocks size = 0 then [] else [⟨ptr, size⟩]

/-- A request that is granted. -/
lemma HeapOwns.kmalloc (h : HeapOwns k.heap live) (hsize : size < 2 ^ 32)
    (hk : kernelAllocator.kmalloc size k = (ptr, k')) (hne : ptr ≠ 0) :
    HeapOwns k'.heap (requestBlocks ptr size ++ live) ∧ SamePool k.heap k'.heap ∧
      (heapTotalBlocks size = 0 → Unowned k'.heap live ptr) := by
  unfold requestBlocks
  rcases kmalloc_owns h hsize hk with ⟨h0, -⟩ | ⟨hzero, -, hun, heq⟩ | ⟨-, hpos, hmax, hown, hsame⟩
  · exact absurd h0 hne
  · rw [heq, if_pos hzero]
    exact ⟨h, SamePool.refl _, fun _ => hun⟩
  · have hblocks : heapTotalBlocks size ≠ 0 := by
      rw [heapTotalBlocks_eq hmax]
      exact (blocksFor_pos hpos).ne'
    rw [if_neg hblocks]
    exact ⟨hown, hsame, fun hzero => absurd hzero hblocks⟩

/-- A request that is refused. -/
lemma HeapOwns.kmalloc_refused (h : HeapOwns k.heap live) (hsize : size < 2 ^ 32)
    (hk : kernelAllocator.kmalloc size k = (0, k')) : k'.heap = k.heap := by
  rcases kmalloc_owns h hsize hk with ⟨-, heq⟩ | ⟨-, hle, -⟩ | ⟨hne, -⟩
  · exact heq
  · omega
  · exact absurd rfl hne

/-- Freeing what a request was answered with. -/
lemma HeapOwns.heapFree_request (h : HeapOwns heap (requestBlocks ptr size ++ live))
    (hun : heapTotalBlocks size = 0 → Unowned heap live ptr) :
    HeapOwns (heapFree heap ptr) live := by
  unfold requestBlocks at h
  by_cases hzero : heapTotalBlocks size = 0
  · rw [if_pos hzero] at h
    rw [HeapOwns.heapFree_unowned h (hun hzero)]
    exact h
  · rw [if_neg hzero] at h
    have hfree := HeapOwns.heapFree_head h
    exact hfree

lemma requestBlocks_of_pos (hpos : 1 ≤ size) (hmax : size ≤ 2 ^ 32 - 4096) (ptr : ℕ) :
    requestBlocks ptr size = [⟨ptr, size⟩] := by
  rw [requestBlocks, if_neg]
  rw [heapTotalBlocks_eq hmax]
  exact (blocksFor_pos hpos).ne'

/-- A request for a fixed number of bytes. -/
lemma HeapOwns.kmalloc_fixed (h : HeapOwns k.heap live) (hpos : 1 ≤ size)
    (hmax : size ≤ 4096) (hne : (kernelAllocator.kmalloc size k).1 ≠ 0) :
    HeapOwns (kernelAllocator.kmalloc size k).2.heap
        (⟨(kernelAllocator.kmalloc size k).1, size⟩ :: live) ∧
      SamePool k.heap (kernelAllocator.kmalloc size k).2.heap := by
  rcases h.kmalloc (by omega) (Prod.eta _).symm hne with ⟨hown, hsame, -⟩
  rw [requestBlocks_of_pos hpos (by omega)] at hown
  exact ⟨hown, hsame⟩

/-! ## The block table -/

/-- The two block tables are the same. -/
def SameTable (heap heap' : Heap) : Prop :=
  SamePool heap heap' ∧ ∀ i : ℕ, i < heap.table.total → heap'.table.entries i = heap.table.entries i

/-- The live allocations determine the table. -/
lemma HeapOwns.sameTable {heap heap' : Heap} {live : List Alloc} (h : HeapOwns heap live)
    (h' : HeapOwns heap' live) (hpool : SamePool heap heap') : SameTable heap heap' := by
  refine ⟨hpool, fun i hi => ?_⟩
  have hi' : i < heap'.table.total := by rwa [hpool.2]
  by_cases hown : ∃ a ∈ live, (heap.extent a).Has i
  · rcases hown with ⟨a, ha, hhas⟩
    have hhas' : (heap'.extent a).Has i := by rwa [hpool.extent]
    rw [h.owned a ha i hhas hi, h'.owned a ha i hhas' hi', hpool.extent]
  · push Not at hown
    rw [h.free i hi hown, h'.free i hi' (by rwa [hpool.extent])]

/-- Blocks that are left behind show in the table. -/
lemma HeapOwns.not_sameTable {heap heap' : Heap} {left : List Alloc} (h : HeapOwns heap live)
    (h' : HeapOwns heap' (left ++ live)) (hleft : left ≠ []) : ¬ SameTable heap heap' := by
  rintro ⟨hpool, hentries⟩
  rcases List.exists_mem_of_ne_nil left hleft with ⟨a, ha⟩
  have hmem : a ∈ left ++ live := List.mem_append_left _ ha
  have hstart := h'.start_lt a hmem
  have hhas := Extent.has_start (h'.len_pos hmem)
  have htaken := h'.owned a hmem _ hhas hstart
  have hno : ∀ c ∈ live, ¬ (heap.extent c).Has (heap'.extent a).start := by
    intro c hc
    have hapart := (List.pairwise_append.mp h'.apart).2.2 a ha c hc
    rw [← hpool.extent]
    exact hapart _ hhas
  rw [hpool.2] at hstart
  rw [hentries _ hstart, h.free _ hstart hno] at htaken
  have htype := congrArg heapGetEntryType htaken
  rw [heapGetEntryType_blockFlags] at htype
  exact absurd htype (by decide)

end MarrowOS
