import Mathlib.Data.Fintype.Pigeonhole
import Mathlib.Logic.Function.Iterate
import Mathlib.Tactic.Lemma

/-!
# Walks along pointers

From a place `x` a walk goes on to `next x`, until it reaches one that is `last`. If it can only
pass through finitely many places, it ends exactly when it never comes back to one that it has left
(`ends_iff_neverReturns`).
-/

namespace Walks

variable {α : Type*} {next : α → α} {last : α → Prop} {x : α}

/-- The walk comes to its end. -/
def Ends (next : α → α) (last : α → Prop) (x : α) : Prop := ∃ n, last (next^[n] x)

/-- The walk never comes back to a place that it has left. -/
def NeverReturns (next : α → α) (last : α → Prop) (x : α) : Prop :=
  ∀ i p, 0 < p → ¬ last (next^[i] x) → next^[i + p] x ≠ next^[i] x

/-- A walk that comes back goes round and round. -/
lemma iterate_round {i p : ℕ} (h : next^[i + p] x = next^[i] x) (n : ℕ) :
    next^[i + n * p] x = next^[i] x := by
  induction n with
  | zero => rw [Nat.zero_mul, Nat.add_zero]
  | succ n ih =>
    have hsum : i + (n + 1) * p = p + (i + n * p) := by
      rw [Nat.succ_mul]
      omega
    rw [hsum, Function.iterate_add_apply, ih, ← Function.iterate_add_apply, Nat.add_comm p i, h]

/-- The end is not left again. -/
lemma last_iterate (hlast : ∀ a, last a → last (next a)) {i : ℕ} (h : last (next^[i] x)) (n : ℕ) :
    last (next^[i + n] x) := by
  induction n with
  | zero => exact h
  | succ n ih =>
    rw [← Nat.add_assoc, Function.iterate_succ_apply']
    exact hlast _ ih

lemma NeverReturns.of_ends (hlast : ∀ a, last a → last (next a)) (h : Ends next last x) :
    NeverReturns next last x := by
  intro i p hp hi heq
  rcases h with ⟨n, hn⟩
  have hround := iterate_round heq n
  apply hi
  rw [← hround]
  -- the walk has ended by then
  have hle : n ≤ i + n * p := by
    have hmul := Nat.le_mul_of_pos_right n hp
    omega
  have hpast := last_iterate hlast hn (i + n * p - n)
  rw [Nat.add_sub_of_le hle] at hpast
  exact hpast

/-- Two visits of one place. -/
lemma NeverReturns.ends (h : NeverReturns next last x)
    (hfin : (Set.range fun i => next^[i] x).Finite) : Ends next last x := by
  have hfinite := hfin.to_subtype
  obtain ⟨i, j, hne, heq⟩ := Finite.exists_ne_map_eq_of_infinite
    fun i : ℕ => (⟨next^[i] x, i, rfl⟩ : Set.range fun i => next^[i] x)
  have hvisit : next^[i] x = next^[j] x := congrArg Subtype.val heq
  by_contra hnot
  rcases Nat.lt_or_gt_of_ne hne with hlt | hlt
  · apply h i (j - i) (by omega) fun hi => hnot ⟨i, hi⟩
    rw [Nat.add_sub_of_le hlt.le]
    exact hvisit.symm
  · apply h j (i - j) (by omega) fun hj => hnot ⟨j, hj⟩
    rw [Nat.add_sub_of_le hlt.le]
    exact hvisit

/-- **Ending and not returning** are the same for a walk through finitely many places. -/
theorem ends_iff_neverReturns (hlast : ∀ a, last a → last (next a))
    (hfin : (Set.range fun i => next^[i] x).Finite) :
    Ends next last x ↔ NeverReturns next last x :=
  ⟨NeverReturns.of_ends hlast, fun h => h.ends hfin⟩

end Walks
