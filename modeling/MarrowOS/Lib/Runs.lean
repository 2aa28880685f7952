import Mathlib.Data.Nat.Notation
import Mathlib.Tactic.ByContra
import Mathlib.Tactic.Lemma

/-!
# Runs of a partial step function

A system is given by `step : S → A → Option S`: `none` when the action is not possible in
the state. `run` performs a list of actions; `Throughout` says that a property holds of
every state the run passes through, and `Meets` that a condition holds before every step.

`throughout_of_meets` is the induction rule for invariants that only hold while the steps
meet a condition; `throughout_iff_meets` is its converse for a condition that is exact.
-/

namespace Runs

variable {S A : Type*} (step : S → A → Option S)

/-- Perform the actions in order, stopping at the first impossible one. -/
def run : S → List A → Option S
  | s, [] => some s
  | s, a :: as => (step s a).bind fun s' => run s' as

/-- `C` holds before every step of the run. -/
def Meets (C : S → A → Prop) : S → List A → Prop
  | _, [] => True
  | s, a :: as => C s a ∧ ∀ s', step s a = some s' → Meets C s' as

/-- `P` holds of every state the run passes through, the first one included. -/
def Throughout (P : S → Prop) : S → List A → Prop
  | s, [] => P s
  | s, a :: as => P s ∧ ∀ s', step s a = some s' → Throughout P s' as

variable {step}

lemma run_cons {s s'' : S} {a : A} {as : List A} :
    run step s (a :: as) = some s'' ↔ ∃ s', step s a = some s' ∧ run step s' as = some s'' := by
  simp [run, Option.bind_eq_some_iff]

/-- A run of two parts passes through the state between them. -/
lemma run_append {s s'' : S} {as bs : List A} :
    run step s (as ++ bs) = some s'' ↔
      ∃ s', run step s as = some s' ∧ run step s' bs = some s'' := by
  induction as generalizing s with
  | nil => simp [run]
  | cons a as ih =>
    rw [List.cons_append, run_cons]
    constructor
    · rintro ⟨t, ht, hrun⟩
      obtain ⟨u, hu, hrest⟩ := ih.mp hrun
      exact ⟨u, run_cons.mpr ⟨t, ht, hu⟩, hrest⟩
    · rintro ⟨u, hu, hrest⟩
      obtain ⟨t, ht, htu⟩ := run_cons.mp hu
      exact ⟨t, ht, ih.mpr ⟨u, htu, hrest⟩⟩

lemma Throughout.head {P : S → Prop} {s : S} {as : List A} (h : Throughout step P s as) : P s := by
  cases as with
  | nil => exact h
  | cons a as => exact h.1

/-- What holds throughout a run holds where it ends. -/
lemma Throughout.last {P : S → Prop} {s s' : S} {as : List A} (h : Throughout step P s as)
    (hrun : run step s as = some s') : P s' := by
  induction as generalizing s with
  | nil =>
    obtain rfl : s = s' := by simpa [run] using hrun
    exact h
  | cons a as ih =>
    obtain ⟨t, ht, hrest⟩ := run_cons.mp hrun
    exact ih (h.2 t ht) hrest

lemma Throughout.imp {P Q : S → Prop} (hPQ : ∀ s, P s → Q s) {s : S} {as : List A}
    (h : Throughout step P s as) : Throughout step Q s as := by
  induction as generalizing s with
  | nil => exact hPQ s h
  | cons a as ih => exact ⟨hPQ s h.1, fun s' hs' => ih (h.2 s' hs')⟩

/-- A condition that holds of every step. -/
lemma meets_of_forall {C : S → A → Prop} (h : ∀ s a, C s a) (s : S) (as : List A) :
    Meets step C s as := by
  induction as generalizing s with
  | nil => trivial
  | cons a as ih => exact ⟨h s a, fun s' _ => ih s'⟩

/-- Two conditions that each hold before every step. -/
lemma Meets.and {C D : S → A → Prop} {s : S} {as : List A} (hC : Meets step C s as)
    (hD : Meets step D s as) : Meets step (fun s a => C s a ∧ D s a) s as := by
  induction as generalizing s with
  | nil => trivial
  | cons a as ih => exact ⟨⟨hC.1, hD.1⟩, fun s' hs' => ih (hC.2 s' hs') (hD.2 s' hs')⟩

/-- The condition over a run whose first step is known. -/
lemma meets_cons_of_step {C : S → A → Prop} {s s' : S} {a : A} {as : List A}
    (h : step s a = some s') : Meets step C s (a :: as) ↔ C s a ∧ Meets step C s' as := by
  constructor
  · rintro ⟨hC, hrest⟩
    exact ⟨hC, hrest s' h⟩
  · rintro ⟨hC, hrest⟩
    refine ⟨hC, fun t ht => ?_⟩
    obtain rfl : s' = t := Option.some.inj (h.symm.trans ht)
    exact hrest

/-- **Invariant rule.** If every step that meets `C` keeps the invariant `I`, then a run
from a state in `I` whose steps all meet `C` stays in `I`. -/
theorem throughout_of_meets {I : S → Prop} {C : S → A → Prop}
    (hstep : ∀ s a s', I s → C s a → step s a = some s' → I s') {s : S} {as : List A}
    (hs : I s) (hC : Meets step C s as) : Throughout step I s as := by
  induction as generalizing s with
  | nil => exact hs
  | cons a as ih =>
    exact ⟨hs, fun s' hs' => ih (hstep s a s' hs hC.1 hs') (hC.2 s' hs')⟩

/-- **Progress rule.** If every action is possible in a state of `I` and leads to another, then
every run from a state of `I` ends, in a state of `I`. -/
theorem run_isSome_of_step {I : S → Prop} (hstep : ∀ s a, I s → ∃ s', step s a = some s' ∧ I s')
    {s : S} (hs : I s) (as : List A) : ∃ t, run step s as = some t ∧ I t := by
  induction as generalizing s with
  | nil => exact ⟨s, rfl, hs⟩
  | cons a as ih =>
    obtain ⟨s', hs', hI⟩ := hstep s a hs
    obtain ⟨t, ht, hIt⟩ := ih hI
    exact ⟨t, run_cons.mpr ⟨s', hs', ht⟩, hIt⟩

/-- **Exactness rule.** If moreover a step that does not meet `C` leaves the invariant, the
runs that stay in the invariant are exactly those whose steps all meet `C`. -/
theorem throughout_iff_meets {I : S → Prop} {C : S → A → Prop}
    (hstep : ∀ s a s', I s → C s a → step s a = some s' → I s')
    (hexact : ∀ s a s', I s → ¬ C s a → step s a = some s' → ¬ I s') {s t : S} {as : List A}
    (hs : I s) (hrun : run step s as = some t) :
    Throughout step I s as ↔ Meets step C s as := by
  refine ⟨fun h => ?_, throughout_of_meets hstep hs⟩
  induction as generalizing s with
  | nil => trivial
  | cons a as ih =>
    obtain ⟨s', hs', hrest⟩ := run_cons.mp hrun
    have hI : I s' := (h.2 s' hs').head
    have hC : C s a := by
      by_contra hC
      exact hexact s a s' hs hC hs' hI
    refine ⟨hC, fun u hu => ?_⟩
    obtain rfl : s' = u := Option.some.inj (hs'.symm.trans hu)
    exact ih hI hrest (h.2 s' hs')

/-- **Exactness rule for a safety property.** The invariant `I` implies `P`. If an allowed step
that meets `C` is possible and keeps `I`, and one that does not meet `C` is impossible or loses
`P`, then of the runs of allowed steps those that end and have `P` throughout are exactly those
whose steps all meet `C`. -/
theorem isSome_and_throughout_iff_meets {I P : S → Prop} {D C : S → A → Prop}
    (hIP : ∀ s, I s → P s)
    (hstep : ∀ s a, I s → D s a → C s a → ∃ s', step s a = some s' ∧ I s')
    (hexact : ∀ s a s', I s → D s a → ¬ C s a → step s a = some s' → ¬ P s')
    {s : S} {as : List A} (hs : I s) (hD : Meets step D s as) :
    ((run step s as).isSome ∧ Throughout step P s as) ↔ Meets step C s as := by
  induction as generalizing s with
  | nil => simp [run, Throughout, Meets, hIP s hs]
  | cons a as ih =>
    constructor
    · rintro ⟨hrun, h⟩
      obtain ⟨t, ht⟩ := Option.isSome_iff_exists.mp hrun
      obtain ⟨s', hs', hrest⟩ := run_cons.mp ht
      have hC : C s a := by
        by_contra hC
        exact hexact s a s' hs hD.1 hC hs' (h.2 s' hs').head
      obtain ⟨u, hu, hI⟩ := hstep s a hs hD.1 hC
      obtain rfl : s' = u := Option.some.inj (hs'.symm.trans hu)
      exact (meets_cons_of_step hs').mpr ⟨hC, (ih hI (hD.2 s' hs')).mp
        ⟨Option.isSome_iff_exists.mpr ⟨t, hrest⟩, h.2 s' hs'⟩⟩
    · rintro ⟨hC, hmeets⟩
      obtain ⟨s', hs', hI⟩ := hstep s a hs hD.1 hC
      obtain ⟨hrun, h⟩ := (ih hI (hD.2 s' hs')).mpr (hmeets s' hs')
      refine ⟨by simpa [run, hs'] using hrun, hIP s hs, fun u hu => ?_⟩
      obtain rfl : s' = u := Option.some.inj (hs'.symm.trans hu)
      exact h

end Runs
