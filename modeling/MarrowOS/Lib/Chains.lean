import Mathlib.Data.Nat.Notation
import Mathlib.Tactic.ByContra
import Mathlib.Tactic.Lemma

/-!
# Chains in a table

A table has one entry for each place; the entry is the next place of the chain, or one of the
marks that say why there is none. `chainAt link k a` is the place `k` steps on from `a`, for a
reader who goes on with the entries `link` accepts, and `consulted` is where it looks.

Two readers of one table need not agree on what is a mark. `follows_iff` says when the second one
gets where the first one does without looking at an entry that is no place's.
-/

namespace Chains

variable {α : Type*} (entry : α → α) (link link' : α → Prop) [DecidablePred link]
  [DecidablePred link']

/-- The place `k` steps on. -/
def chainAt : (k : ℕ) → (a : α) → Option α
  | 0, a => some a
  | k + 1, a => if link (entry a) then chainAt k (entry a) else none

/-- The places whose entries are looked at on the way. -/
def consulted : (k : ℕ) → (a : α) → List α
  | 0, _ => []
  | k + 1, a => a :: if link (entry a) then consulted k (entry a) else []

/-- The entries that are followed are places, and where none is, the chain does not go on to its
place number `k`. -/
def ReadAlike : (k : ℕ) → (a : α) → Prop
  | 0, _ => True
  | k + 1, a =>
    if link' (entry a) then link (entry a) ∧ ReadAlike k (entry a)
    else link (entry a) → chainAt entry link k (entry a) = none

variable {entry link link'} {k : ℕ} {a : α}

@[simp] lemma chainAt_zero : chainAt entry link 0 a = some a := rfl

lemma chainAt_succ_of_link (h : link (entry a)) :
    chainAt entry link (k + 1) a = chainAt entry link k (entry a) := if_pos h

lemma chainAt_succ_of_not_link (h : ¬ link (entry a)) : chainAt entry link (k + 1) a = none :=
  if_neg h

/-- An entry that is followed though it is no place's is the end of the walk, or is looked at. -/
lemma not_follows_of_not_link (hlink' : link' (entry a)) (hlink : ¬ link (entry a)) :
    ¬ (chainAt entry link' (k + 1) a = chainAt entry link (k + 1) a ∧
      ∀ x ∈ consulted entry link' (k + 1) a, link x) := by
  rintro ⟨hchain, hplaces⟩
  rw [chainAt_succ_of_not_link hlink, chainAt_succ_of_link hlink'] at hchain
  cases k with
  | zero => cases hchain
  | succ k =>
    apply hlink
    apply hplaces
    rw [consulted, if_pos hlink', consulted]
    exact List.mem_cons_of_mem _ List.mem_cons_self

/-- **Two readers of one table.** The second gets where the first does, and looks only at the
entries of places, exactly when it reads the entries on its way alike. -/
theorem follows_iff (ha : link a) :
    (chainAt entry link' k a = chainAt entry link k a ∧
        ∀ x ∈ consulted entry link' k a, link x) ↔ ReadAlike entry link link' k a := by
  induction k generalizing a with
  | zero =>
    apply iff_of_true _ trivial
    exact ⟨rfl, fun x hx => absurd hx List.not_mem_nil⟩
  | succ k ih =>
    rw [ReadAlike]
    by_cases hlink' : link' (entry a)
    · rw [if_pos hlink']
      by_cases hlink : link (entry a)
      · -- both go on
        rw [chainAt_succ_of_link hlink, chainAt_succ_of_link hlink', consulted, if_pos hlink',
          List.forall_mem_cons, ← ih hlink]
        exact ⟨fun h => ⟨hlink, h.1, h.2.2⟩, fun h => ⟨h.2.1, ha, h.2.2⟩⟩
      · exact iff_of_false (not_follows_of_not_link hlink' hlink) fun h => hlink h.1
    · -- the second reader stops
      rw [if_neg hlink', chainAt_succ_of_not_link hlink', consulted, if_neg hlink']
      have hplaces : ∀ x ∈ [a], link x := by
        intro x hx
        rw [List.mem_singleton.mp hx]
        exact ha
      by_cases hlink : link (entry a)
      · rw [chainAt_succ_of_link hlink]
        exact ⟨fun h _ => h.1.symm, fun h => ⟨(h hlink).symm, hplaces⟩⟩
      · rw [chainAt_succ_of_not_link hlink]
        exact ⟨fun _ h => absurd h hlink, fun _ => ⟨rfl, hplaces⟩⟩

end Chains
