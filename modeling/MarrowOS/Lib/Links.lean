import Mathlib.Data.List.Basic
import Mathlib.Data.List.Nodup
import Mathlib.Tactic.ByContra
import Mathlib.Tactic.Lemma

/-!
# Linked sequences

The nodes of a linked list are the elements of a type `α` with a null element `nil`; the
links are functions `α → α`. `Segment nil next a l b` says that following `next` from `a`
visits exactly the nodes of `l`, in order and none of them null, and then stands at `b`.
`Backlinked prev p l` says that the `prev` links of `l` point to the predecessor in `l`,
that of the first node to `p`.
-/

namespace Links

variable {α : Type*} {nil : α} {next next' prev prev' : α → α} {a b c p x y : α} {l l₁ l₂ : List α}

/-- Following `next` from `a` visits exactly `l` and arrives at `b`. -/
def Segment (nil : α) (next : α → α) : α → List α → α → Prop
  | a, [], b => a = b
  | a, x :: l, b => a = x ∧ x ≠ nil ∧ Segment nil next (next x) l b

/-- The back links of `l` name the predecessor in `l`, the first one `p`. -/
def Backlinked (prev : α → α) : α → List α → Prop
  | _, [] => True
  | p, x :: l => prev x = p ∧ Backlinked prev x l

/-! ## Segments -/

@[simp] lemma segment_nil : Segment nil next a [] b ↔ a = b := Iff.rfl

@[simp] lemma segment_cons :
    Segment nil next a (x :: l) b ↔ a = x ∧ x ≠ nil ∧ Segment nil next (next x) l b := Iff.rfl

lemma segment_append :
    Segment nil next a (l₁ ++ l₂) c ↔ ∃ b, Segment nil next a l₁ b ∧ Segment nil next b l₂ c := by
  induction l₁ generalizing a with
  | nil => simp
  | cons x l₁ ih =>
    simp only [List.cons_append, segment_cons, ih]
    constructor
    · rintro ⟨ha, hx, b, h₁, h₂⟩
      exact ⟨b, ⟨ha, hx, h₁⟩, h₂⟩
    · rintro ⟨b, ⟨ha, hx, h₁⟩, h₂⟩
      exact ⟨ha, hx, b, h₁, h₂⟩

/-- A segment only reads the links of its own nodes. -/
lemma Segment.congr (h : Segment nil next a l b) (hl : ∀ x ∈ l, next' x = next x) :
    Segment nil next' a l b := by
  induction l generalizing a with
  | nil => exact h
  | cons x l ih =>
    obtain ⟨ha, hx, h⟩ := h
    refine ⟨ha, hx, ?_⟩
    rw [hl x (by simp)]
    exact ih h fun y hy => hl y (by simp [hy])

lemma Segment.ne_nil (h : Segment nil next a l b) (hx : x ∈ l) : x ≠ nil := by
  induction l generalizing a with
  | nil => simp at hx
  | cons y l ih =>
    obtain ⟨-, hy, h⟩ := h
    rcases List.mem_cons.mp hx with rfl | hx
    · exact hy
    · exact ih h hx

/-- A segment that ends at null and starts at null is empty. -/
lemma Segment.eq_nil_of_start (h : Segment nil next nil l b) : l = [] := by
  cases l with
  | nil => rfl
  | cons x l => exact absurd h.1.symm h.2.1

/-- A segment starts at one of its nodes, or where it ends. -/
lemma Segment.start_mem (h : Segment nil next a l b) : a = b ∨ a ∈ l := by
  cases l with
  | nil => exact Or.inl h
  | cons x l => exact Or.inr (by simp [h.1])

/-- The `next` link of a node is the node after it, or where the segment ends. -/
lemma Segment.next_eq (h : Segment nil next a (l₁ ++ x :: l₂) b) :
    next x = (l₂ ++ [b]).head (by simp) := by
  obtain ⟨c, -, -, -, h₂⟩ := segment_append.mp h
  cases l₂ with
  | nil => simpa using h₂
  | cons y l₂ => simpa using h₂.1

/-- Every `next` link of a segment stays in the segment or leaves it where it ends. -/
lemma Segment.next_mem (h : Segment nil next a l b) (hx : x ∈ l) : next x = b ∨ next x ∈ l := by
  obtain ⟨l₁, l₂, rfl⟩ := List.append_of_mem hx
  rw [h.next_eq]
  cases l₂ with
  | nil => simp
  | cons y l₂ => simp

/-! ## Back links -/

lemma getLastD_eq_or_mem : l.getLastD p = p ∨ l.getLastD p ∈ l := by
  rcases l.eq_nil_or_concat with rfl | ⟨l, y, rfl⟩
  · simp
  · simp

@[simp] lemma backlinked_nil : Backlinked prev p [] := trivial

@[simp] lemma backlinked_cons : Backlinked prev p (x :: l) ↔ prev x = p ∧ Backlinked prev x l :=
  Iff.rfl

lemma backlinked_append :
    Backlinked prev p (l₁ ++ l₂) ↔
      Backlinked prev p l₁ ∧ Backlinked prev (l₁.getLastD p) l₂ := by
  induction l₁ generalizing p with
  | nil => simp
  | cons x l₁ ih => simp only [List.cons_append, backlinked_cons, ih, List.getLastD_cons, and_assoc]

/-- Back links only read the links of the list's own nodes. -/
lemma Backlinked.congr (h : Backlinked prev p l) (hl : ∀ x ∈ l, prev' x = prev x) :
    Backlinked prev' p l := by
  induction l generalizing p with
  | nil => trivial
  | cons x l ih =>
    obtain ⟨hp, h⟩ := h
    exact ⟨(hl x (by simp)).trans hp, ih h fun y hy => hl y (by simp [hy])⟩

/-- The back link of a node is the node before it, `p` for the first. -/
lemma Backlinked.prev_eq (h : Backlinked prev p (l₁ ++ x :: l₂)) : prev x = l₁.getLastD p :=
  (backlinked_append.mp h).2.1

/-- Every back link stays in the list or is `p`. -/
lemma Backlinked.prev_mem (h : Backlinked prev p l) (hx : x ∈ l) : prev x = p ∨ prev x ∈ l := by
  obtain ⟨l₁, l₂, rfl⟩ := List.append_of_mem hx
  rw [h.prev_eq]
  exact getLastD_eq_or_mem.imp id fun hm => List.mem_append_left _ hm

end Links
