import Mathlib.Data.List.GetD
import Mathlib.Data.Nat.ModEq
import Mathlib.Logic.Function.Basic
import Mathlib.Tactic.Lemma

/-!
# Ring buffers without a count

A ring of `n` cells that keeps neither a length nor a flag: a cell that holds nothing holds
`empty`. `Holds n empty cells start queue` says that the cells hold the elements of `queue` from
cell `start` on, around the end of the ring, and `empty` everywhere else. Positions count on
past the end of the ring; the cell of a position is the position modulo `n`.
-/

namespace Ring

variable {α : Type*} {n start : ℕ} {empty a : α} {cells : ℕ → α} {queue : List α}

/-- The ring holds `queue` from position `start` on. -/
structure Holds (n : ℕ) (empty : α) (cells : ℕ → α) (start : ℕ) (queue : List α) : Prop where
  fits : queue.length ≤ n
  cell : ∀ i < n, cells ((start + i) % n) = queue.getD i empty

/-- An empty ring. -/
lemma holds_nil (start : ℕ) : Holds n empty (fun _ => empty) start [] :=
  ⟨Nat.zero_le n, fun _ _ => rfl⟩

/-- Two positions less than a turn apart have different cells. -/
lemma cell_injective {i j : ℕ} (hi : i < n) (hj : j < n)
    (h : (start + i) % n = (start + j) % n) : i = j := by
  have hmod : i ≡ j [MOD n] := Nat.ModEq.add_left_cancel' start h
  rw [Nat.ModEq, Nat.mod_eq_of_lt hi, Nat.mod_eq_of_lt hj] at hmod
  exact hmod

/-- Every cell is at some position of a turn. -/
lemma exists_position (start : ℕ) {j : ℕ} (hj : j < n) : ∃ i < n, (start + i) % n = j := by
  have hstart : start % n < n := Nat.mod_lt start (by omega)
  refine ⟨(j + (n - start % n)) % n, Nat.mod_lt _ (by omega), ?_⟩
  calc (start + (j + (n - start % n)) % n) % n
      = (start % n + (j + (n - start % n))) % n := by simp [Nat.add_mod]
    _ = (j + n) % n := by congr 1; omega
    _ = j := by rw [Nat.add_mod_right, Nat.mod_eq_of_lt hj]

/-- The first cell holds the first element. -/
lemma Holds.first (h : Holds n empty cells start queue) (hn : 0 < n) :
    cells (start % n) = queue.getD 0 empty := h.cell 0 hn

/-- The ring holds nothing but `empty` exactly when the queue is empty. -/
lemma Holds.exists_ne_empty_iff (h : Holds n empty cells start queue)
    (hne : ∀ a ∈ queue, a ≠ empty) : (∃ j < n, cells j ≠ empty) ↔ queue ≠ [] := by
  constructor
  · rintro ⟨j, hj, hcell⟩ rfl
    rcases exists_position start hj with ⟨i, hi, rfl⟩
    exact hcell (h.cell i hi)
  · intro hqueue
    rcases List.exists_cons_of_ne_nil hqueue with ⟨a, queue, rfl⟩
    have hn : 0 < n := lt_of_lt_of_le (Nat.succ_pos _) h.fits
    refine ⟨start % n, Nat.mod_lt start hn, ?_⟩
    rw [h.first hn]
    exact hne a List.mem_cons_self

/-- **Push.** Storing behind the last element appends. -/
lemma Holds.push (h : Holds n empty cells start queue) (hlt : queue.length < n) (a : α) :
    Holds n empty (Function.update cells ((start + queue.length) % n) a) start (queue ++ [a]) := by
  refine ⟨by rw [List.length_append]; exact hlt, fun i hi => ?_⟩
  by_cases hlast : i = queue.length
  · rw [hlast, Function.update_self]
    simp
  · have hcell : (start + i) % n ≠ (start + queue.length) % n :=
      fun heq => hlast (cell_injective hi hlt heq)
    rw [Function.update_of_ne hcell, h.cell i hi]
    rcases Nat.lt_or_gt_of_ne hlast with hi' | hi'
    · rw [List.getD_append _ _ _ _ hi']
    · rw [List.getD_eq_default _ _ (by omega), List.getD_eq_default _ _ (by simp; omega)]

/-- **Pop.** Clearing the cell of the first element removes it. -/
lemma Holds.pop (h : Holds n empty cells start (a :: queue)) :
    Holds n empty (Function.update cells (start % n) empty) (start + 1) queue := by
  have hlen : queue.length + 1 ≤ n := h.fits
  refine ⟨by omega, fun i hi => ?_⟩
  by_cases hlast : i + 1 = n
  · -- the cleared cell is the last one of the turn
    have hcell : (start + 1 + i) % n = start % n := by
      rw [show start + 1 + i = start + n by omega, Nat.add_mod_right]
    rw [hcell, Function.update_self, List.getD_eq_default _ _ (by omega)]
  · have hcell : (start + 1 + i) % n ≠ start % n := by
      intro heq
      rw [Nat.add_assoc] at heq
      have hzero : 1 + i = 0 := cell_injective (by omega) (by omega) heq
      omega
    rw [Function.update_of_ne hcell, show start + 1 + i = start + (i + 1) by omega,
      h.cell (i + 1) (by omega)]
    exact List.getD_cons_succ

end Ring
