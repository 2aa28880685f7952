import Mathlib.Tactic.Lemma

/-!
# Computations that may fault

A C function that can run into undefined behaviour is an `Except ε` computation. These rules
run one step of such a computation, and take a finished one apart. `FaultsIn` bounds the faults
of a computation by those of its parts.
-/

namespace Fallible

variable {ε α β : Type}

@[simp] lemma ok_bind (a : α) (f : α → Except ε β) : (Except.ok a >>= f) = f a := rfl

@[simp] lemma error_bind (e : ε) (f : α → Except ε β) : (Except.error e >>= f) = .error e := rfl

@[simp] lemma pure_eq_ok (a : α) : (pure a : Except ε α) = .ok a := rfl

@[simp] lemma throw_eq_error (e : ε) : (throw e : Except ε α) = .error e := rfl

/-- A sequence ends normally when both of its parts do. -/
lemma bind_eq_ok {x : Except ε α} {f : α → Except ε β} {b : β} :
    (x >>= f) = .ok b ↔ ∃ a, x = .ok a ∧ f a = .ok b := by
  cases x with
  | error e => simp
  | ok a => simp

/-- A mapped computation ends normally when the computation does. -/
lemma map_eq_ok {x : Except ε α} {f : α → β} {b : β} :
    x.map f = .ok b ↔ ∃ a, x = .ok a ∧ f a = b := by
  cases x with
  | error e => simp [Except.map]
  | ok a => simp [Except.map]

/-- A computation ends normally with the value that is left without the faults. -/
lemma eq_ok_of_toOption {x : Except ε α} {a : α} (h : x.toOption = some a) : x = .ok a := by
  cases x with
  | error e => cases h
  | ok b => exact congrArg Except.ok (Option.some.inj h)

/-- A computation of whose value something is known ends normally. -/
lemma exists_ok_of_toOption_map {x : Except ε α} {f : α → β} {b : β}
    (h : x.toOption.map f = some b) : ∃ a, x = .ok a ∧ f a = b := by
  rcases Option.map_eq_some_iff.mp h with ⟨a, ha, heq⟩
  exact ⟨a, eq_ok_of_toOption ha, heq⟩

/-- A result of three values, value by value. -/
lemma ok_triple_inj {γ : Type} {a a' : α} {b b' : β} {c c' : γ}
    (h : (Except.ok (a, b, c) : Except ε (α × β × γ)) = .ok (a', b', c')) :
    a = a' ∧ b = b' ∧ c = c' := by
  cases h
  exact ⟨rfl, rfl, rfl⟩

/-! ## Which faults there are -/

/-- Every fault of the computation is one of `S`. -/
def FaultsIn (S : ε → Prop) (x : Except ε α) : Prop := ∀ e, x = .error e → S e

variable {S T : ε → Prop}

@[simp] lemma faultsIn_ok (a : α) : FaultsIn S (.ok a : Except ε α) := fun e h => by cases h

lemma faultsIn_error {e : ε} (h : S e) : FaultsIn S (.error e : Except ε α) := by
  intro e' he
  cases he
  exact h

lemma FaultsIn.mono {x : Except ε α} (h : FaultsIn S x) (hST : ∀ e, S e → T e) : FaultsIn T x :=
  fun e he => hST e (h e he)

/-- A sequence has the faults of its two parts. -/
lemma FaultsIn.bind {x : Except ε α} {f : α → Except ε β} (hx : FaultsIn S x)
    (hf : ∀ a, x = .ok a → FaultsIn S (f a)) : FaultsIn S (x >>= f) := by
  cases x with
  | error e => exact faultsIn_error (hx e rfl)
  | ok a => exact hf a rfl

lemma FaultsIn.map {x : Except ε α} {f : α → β} (hx : FaultsIn S x) : FaultsIn S (x.map f) := by
  cases x with
  | error e => exact faultsIn_error (hx e rfl)
  | ok a => exact faultsIn_ok (f a)

/-- A fault that is not one of `S` does not happen. -/
lemma FaultsIn.ne_error {x : Except ε α} {e : ε} (hx : FaultsIn S x) (he : ¬ S e) :
    x ≠ .error e := fun h => he (hx e h)

end Fallible
