import Mathlib.Data.List.Pairwise
import Mathlib.Data.Nat.Notation
import Mathlib.Tactic.ByContra
import Mathlib.Tactic.Lemma

/-!
# Families of disjoint extents

An `Extent` is a range of consecutive block numbers. A family of extents is a list `l` with a
map `e : α → Extent`; it is apart when no block belongs to two members. These are the facts an
allocator's bookkeeping rests on: the owner of a block is unique, and the family stays apart
when a member goes or one that touches no owned block comes.
-/

namespace Extents

/-- The blocks `start, …, start + len - 1`. -/
structure Extent where
  start : ℕ
  len : ℕ
deriving DecidableEq, Repr

/-- Block `i` belongs to the extent. -/
def Extent.Has (e : Extent) (i : ℕ) : Prop := e.start ≤ i ∧ i < e.start + e.len

instance (e : Extent) (i : ℕ) : Decidable (e.Has i) := inferInstanceAs (Decidable (_ ∧ _))

/-- No block belongs to both. -/
def Extent.Apart (e f : Extent) : Prop := ∀ i, e.Has i → ¬ f.Has i

lemma Extent.Apart.symm {e f : Extent} (h : e.Apart f) : f.Apart e := fun i hf he => h i he hf

lemma Extent.has_start {e : Extent} (h : 0 < e.len) : e.Has e.start := ⟨Nat.le_refl _, by omega⟩

/-- Non-empty extents that are apart start at different blocks. -/
lemma Extent.Apart.start_ne {e f : Extent} (h : e.Apart f) (he : 0 < e.len) (hf : 0 < f.len) :
    e.start ≠ f.start := by
  intro heq
  exact h e.start (Extent.has_start he) (heq ▸ Extent.has_start hf)

variable {α : Type*} {e : α → Extent} {l : List α} {a b : α} {i : ℕ}

/-- The members of the family are pairwise apart. -/
def AllApart (e : α → Extent) (l : List α) : Prop := l.Pairwise fun a b => (e a).Apart (e b)

lemma allApart_nil : AllApart e [] := List.Pairwise.nil

/-- A member that touches no owned block keeps the family apart. -/
lemma AllApart.cons (h : AllApart e l) (ha : ∀ b ∈ l, (e a).Apart (e b)) : AllApart e (a :: l) :=
  List.Pairwise.cons ha h

lemma AllApart.filter (h : AllApart e l) (p : α → Bool) : AllApart e (l.filter p) :=
  List.Pairwise.filter p h

/-- Distinct members are apart. -/
lemma AllApart.apart_of_ne (h : AllApart e l) (ha : a ∈ l) (hb : b ∈ l) (hab : a ≠ b) :
    (e a).Apart (e b) :=
  have : Std.Symm fun a b => (e a).Apart (e b) := ⟨fun _ _ => Extent.Apart.symm⟩
  List.Pairwise.forall h ha hb hab

/-- The owner of a block is unique. -/
lemma AllApart.owner_unique (h : AllApart e l) (ha : a ∈ l) (hb : b ∈ l) (hai : (e a).Has i)
    (hbi : (e b).Has i) : a = b := by
  by_contra hab
  exact h.apart_of_ne ha hb hab i hai hbi

end Extents
