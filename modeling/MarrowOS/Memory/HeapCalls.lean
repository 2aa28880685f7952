import MarrowOS.Memory.KernelHeapTheorems

/-!
# Runs with any requests

The kernel asks for more than is left, and for no bytes at all, and it frees pointers again that it
has freed before. `heapCallStep` is a call of that kind, and `TableOwns` holds in every state of a
run of them (`tableOwns_of_run`).
-/

namespace MarrowOS

open CInt Extents Runs

variable {heap : Heap} {a : Alloc} {ptr : ℕ}

/-- The address of a block that no live allocation has. -/
def FreePointer (s : HeapRun) (ptr : ℕ) : Prop :=
  s.heap.blockOf ptr < s.heap.table.total ∧
    ptr = heapBlockToAddress s.heap (s.heap.blockOf ptr) ∧
    ∀ a ∈ s.live, ¬ ((s.heap.extent a).start ≤ s.heap.blockOf ptr ∧
      s.heap.blockOf ptr < (s.heap.extent a).start + (s.heap.extent a).len)

instance (s : HeapRun) (ptr : ℕ) : Decidable (FreePointer s ptr) :=
  inferInstanceAs (Decidable (_ ∧ _ ∧ _))

/-- A request of any size, or the release of a pointer that is live or is free already. A request
that is answered with blocks makes a live allocation. -/
def heapCallStep (s : HeapRun) : HeapOp → Option HeapRun
  | .malloc size =>
    if size < 2 ^ 32 then
      let (ptr, heap) := heapMalloc s.heap size
      if heapGetStartBlock s.heap (heapTotalBlocks size) < 0 ∨ heapTotalBlocks size = 0 then
        some ⟨heap, s.live⟩
      else some ⟨heap, ⟨ptr, size⟩ :: s.live⟩
    else none
  | .free ptr =>
    if (∃ a ∈ s.live, a.ptr = ptr) ∨ FreePointer s ptr then
      some ⟨heapFree s.heap ptr, s.live.filter (·.ptr ≠ ptr)⟩
    else none

variable {s s' : HeapRun}

/-- No live allocation is at the address of a free block. -/
lemma FreePointer.ne (h : FreePointer s ptr) (hown : TableOwns s.heap s.live) (ha : a ∈ s.live) :
    a.ptr ≠ ptr := by
  intro hptr
  have hstart : (s.heap.extent a).start = s.heap.blockOf ptr := by
    rw [← hptr]
    rfl
  have hhas := hown.has_start ha
  rw [hstart] at hhas
  exact h.2.2 a ha hhas

/-- Freeing it changes nothing. -/
lemma FreePointer.heapFree (h : FreePointer s ptr) (hown : TableOwns s.heap s.live) :
    heapFree s.heap ptr = s.heap := by
  rcases h with ⟨hlt, hptr, hno⟩
  have hblock : heapAddressToBlock s.heap ptr = s.heap.blockOf ptr := by
    have haddress :=
      heapAddressToBlock_heapBlockToAddress s.heap (hlt.trans_le hown.total_le)
    rwa [← hptr] at haddress
  rw [MarrowOS.heapFree, hblock]
  exact heapMarkBlocksFree_of_free (hown.free _ hlt hno)

/-- A call keeps the table right. -/
lemma heapCallStep_owns {op : HeapOp} (h : TableOwns s.heap s.live)
    (hstep : heapCallStep s op = some s') : TableOwns s'.heap s'.live := by
  cases op with
  | malloc size =>
    simp only [heapCallStep, Option.ite_none_right_eq_some] at hstep
    rcases hstep with ⟨hsize, hstep⟩
    rcases heapMalloc_answers h.total_le hsize with ⟨hstart, hnone⟩ | ⟨b, hb, hfree, hstart, hsome⟩
    · rw [if_pos (Or.inl hstart), hnone] at hstep
      rw [← Option.some.inj hstep]
      exact h
    by_cases hzero : heapTotalBlocks size = 0
    · -- nothing is marked for a request that is rounded to no block
      rw [if_pos (Or.inr hzero), hsome, hzero, Nat.cast_zero, heapMarkBlocksTaken_zero] at hstep
      rw [← Option.some.inj hstep]
      exact h
    · have hmax : size ≤ 2 ^ 32 - 4096 := by
        by_contra hlarge
        exact hzero (heapTotalBlocks_eq_zero (by omega) hsize)
      have hpos : 1 ≤ size := by
        by_contra hlt
        rw [show size = 0 by omega] at hzero
        exact hzero rfl
      rw [if_neg (by rw [hstart]; omega), hsome] at hstep
      rw [heapTotalBlocks_eq hmax] at hstep hfree
      have hown := h.take hpos hb fun j h₀ h₁ h₂ => hfree j h₀ h₁ (Or.inl h₂)
      rw [← Option.some.inj hstep]
      dsimp only
      exact hown
  | free ptr =>
    simp only [heapCallStep, Option.ite_none_right_eq_some] at hstep
    rcases hstep with ⟨hptr, hstep⟩
    rw [← Option.some.inj hstep]
    rcases hptr with ⟨a, ha, rfl⟩ | hptr
    · exact h.heapFree_filter ha
    · have hlive : s.live.filter (·.ptr ≠ ptr) = s.live :=
        List.filter_eq_self.mpr fun a ha => decide_eq_true (hptr.ne h ha)
      simp only [hlive, hptr.heapFree h]
      exact h

/-- In every state of a run the table says who owns which block. -/
theorem tableOwns_of_run {heap₀ : Heap} {start «end» : ℕ} {table : HeapTable}
    (hcreate : heapCreate heap₀ start «end» table = (0, heap)) (hpool : table.total ≤ 2 ^ 19)
    {ops : List HeapOp} (hrun : run heapCallStep ⟨heap, []⟩ ops = some s) :
    TableOwns s.heap s.live := by
  have hstart : TableOwns heap [] := (heapCreate_inv hcreate hpool).table
  exact (throughout_of_meets (I := fun s : HeapRun => TableOwns s.heap s.live)
    (fun s op s' hs _ hstep => heapCallStep_owns hs hstep) hstart
      (meets_of_forall (fun _ _ => trivial) ⟨heap, []⟩ ops)).last hrun

end MarrowOS
