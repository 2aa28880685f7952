import Mathlib.Data.List.Basic
import Mathlib.Order.Nat
import Mathlib.Tactic.Lemma

/-!
# A typewriter's page

A page is the lines that are finished and the one that is written. A character is typed behind the
last one and starts a new line when the line is full; a newline starts one at once; a rubout takes
the last character of the line back. `cell` is what stands in a column of a line, and what each
operation does is said cell by cell.
-/

namespace Typewriter

structure Page (α : Type*) where
  lines : List (List α)
  current : List α

variable {α : Type*}

namespace Page

def empty : Page α := ⟨[], []⟩

def newline (p : Page α) : Page α := ⟨p.lines ++ [p.current], []⟩

def append (a : α) (p : Page α) : Page α := { p with current := p.current ++ [a] }

/-- A line of `width` characters is full. -/
def type (width : ℕ) (a : α) (p : Page α) : Page α :=
  if p.current.length + 1 = width then (p.append a).newline else p.append a

def rubout (p : Page α) : Page α := { p with current := p.current.dropLast }

/-- What stands in column `x` of line `y`. -/
def cell (p : Page α) (x y : ℕ) : Option α :=
  if y = p.lines.length then p.current[x]? else p.lines[y]?.bind fun l => l[x]?

variable {p : Page α} {width x y : ℕ} {a : α}

lemma cell_empty (x y : ℕ) : (empty : Page α).cell x y = none := by
  unfold cell empty
  split_ifs <;> rfl

/-- Nothing stands where the next character goes. -/
lemma cell_cursor (p : Page α) : p.cell p.current.length p.lines.length = none := by
  rw [cell, if_pos rfl, List.getElem?_eq_none le_rfl]

lemma cell_newline (p : Page α) (x y : ℕ) : p.newline.cell x y = p.cell x y := by
  unfold cell newline
  rw [List.length_append, List.length_singleton]
  rcases lt_trichotomy y p.lines.length with hlt | rfl | hgt
  · rw [if_neg (by omega), if_neg hlt.ne, List.getElem?_append_left hlt]
  · rw [if_neg (by omega), if_pos rfl, List.getElem?_append_right le_rfl, Nat.sub_self]
    rfl
  · rw [if_neg hgt.ne', List.getElem?_eq_none (l := p.lines) (by omega)]
    split_ifs
    · rfl
    · rw [List.getElem?_eq_none (by rw [List.length_append, List.length_singleton]; omega)]

lemma cell_append (p : Page α) (a : α) (x y : ℕ) : (p.append a).cell x y =
    if x = p.current.length ∧ y = p.lines.length then some a else p.cell x y := by
  unfold cell append
  by_cases hy : y = p.lines.length
  · rw [if_pos hy, if_pos hy]
    rcases lt_trichotomy x p.current.length with hlt | rfl | hgt
    · rw [if_neg (by omega), List.getElem?_append_left hlt]
    · rw [if_pos ⟨rfl, hy⟩, List.getElem?_append_right le_rfl, Nat.sub_self]
      rfl
    · have hlength : (p.current ++ [a]).length ≤ x := by
        rw [List.length_append, List.length_singleton]
        exact hgt
      rw [if_neg (by omega), List.getElem?_eq_none hlength, List.getElem?_eq_none hgt.le]
  · rw [if_neg hy, if_neg hy, if_neg fun h => hy h.2]

lemma cell_type (width : ℕ) (p : Page α) (a : α) (x y : ℕ) : (p.type width a).cell x y =
    if x = p.current.length ∧ y = p.lines.length then some a else p.cell x y := by
  unfold type
  split_ifs with hfull hcursor hcursor
  all_goals
    try rw [cell_newline]
    rw [cell_append]
  · exact if_pos hcursor
  · exact if_neg hcursor
  · exact if_pos hcursor
  · exact if_neg hcursor

lemma cell_rubout (h : p.current ≠ []) (x y : ℕ) : p.rubout.cell x y =
    if x = p.current.length - 1 ∧ y = p.lines.length then none else p.cell x y := by
  have hpos := List.length_pos_iff.mpr h
  unfold cell rubout
  by_cases hy : y = p.lines.length
  · rw [if_pos hy, if_pos hy, List.getElem?_dropLast]
    rcases lt_trichotomy x (p.current.length - 1) with hlt | heq | hgt
    · rw [if_pos hlt, if_neg fun h => hlt.ne h.1]
    · rw [if_neg heq.not_lt, if_pos ⟨heq, hy⟩]
    · rw [if_neg hgt.asymm, if_neg fun h => hgt.ne' h.1, List.getElem?_eq_none (by omega)]
  · rw [if_neg hy, if_neg hy, if_neg fun h => hy h.2]

lemma rubout_nil (h : p.current = []) : p.rubout = p := by
  rcases p with ⟨lines, current⟩
  subst h
  rfl

/-! ## The cursor -/

lemma type_current (width : ℕ) (p : Page α) (a : α) : (p.type width a).current.length =
    if p.current.length + 1 = width then 0 else p.current.length + 1 := by
  unfold type
  split_ifs
  · rfl
  · exact List.length_append

lemma type_lines (width : ℕ) (p : Page α) (a : α) : (p.type width a).lines.length =
    if p.current.length + 1 = width then p.lines.length + 1 else p.lines.length := by
  unfold type
  split_ifs
  · exact List.length_append
  · rfl

end Page

end Typewriter
