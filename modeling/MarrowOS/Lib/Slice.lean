import Mathlib.Algebra.GroupWithZero.Nat
import Mathlib.Data.List.Range
import Mathlib.Data.Nat.Notation
import Mathlib.Tactic.Lemma

/-!
# Slices of an indexed source

`slice f start len` lists `f start, …, f (start + len - 1)`: the bytes of a disk, of a file
or of the memory from a position on. Consecutive slices append, and two sources have the same
slice exactly when they agree on it.
-/

namespace Slice

variable {α : Type*} {f g : ℕ → α} {start len : ℕ}

/-- The values of `f` at `start, …, start + len - 1`. -/
def slice (f : ℕ → α) (start len : ℕ) : List α := (List.range len).map fun i => f (start + i)

@[simp] lemma length_slice : (slice f start len).length = len := by simp [slice]

@[simp] lemma slice_zero : slice f start 0 = [] := rfl

lemma getElem?_slice {i : ℕ} (h : i < len) : (slice f start len)[i]? = some (f (start + i)) := by
  simp [slice, h]

lemma getElem?_slice_eq_some {i : ℕ} {a : α} :
    (slice f start len)[i]? = some a ↔ i < len ∧ f (start + i) = a := by
  by_cases h : i < len
  · rw [getElem?_slice h, Option.some.injEq]
    exact ⟨fun ha => ⟨h, ha⟩, fun ha => ha.2⟩
  · rw [List.getElem?_eq_none (by rw [length_slice]; omega)]
    simp [h]

/-- Consecutive slices append. -/
lemma slice_add (f : ℕ → α) (start m n : ℕ) :
    slice f start (m + n) = slice f start m ++ slice f (start + m) n := by
  simp only [slice, List.range_add, List.map_append, List.map_map]
  congr 1
  refine List.map_congr_left fun i _ => ?_
  simp only [Function.comp_apply, Nat.add_assoc]

lemma slice_succ (f : ℕ → α) (start n : ℕ) :
    slice f start (n + 1) = f start :: slice f (start + 1) n := by
  rw [Nat.add_comm n 1, slice_add]
  rfl

/-- A slice depends only on the values it lists, wherever they stand. -/
lemma slice_eq_iff {start' : ℕ} :
    slice f start len = slice g start' len ↔ ∀ i < len, f (start + i) = g (start' + i) := by
  simp [slice]

lemma slice_congr {start' : ℕ} (h : ∀ i < len, f (start + i) = g (start' + i)) :
    slice f start len = slice g start' len := slice_eq_iff.mpr h

lemma take_slice (f : ℕ → α) (start : ℕ) {m n : ℕ} (h : m ≤ n) :
    (slice f start n).take m = slice f start m := by
  obtain ⟨k, rfl⟩ := Nat.exists_eq_add_of_le h
  rw [slice_add, List.take_append_of_le_length (by simp), List.take_of_length_le (by simp)]

/-! ## Tilings -/

/-- The ranges of the given lengths, one after the other from `start` on. -/
def tiles : (start : ℕ) → List ℕ → List (ℕ × ℕ)
  | _, [] => []
  | start, len :: lens => (start, len) :: tiles (start + len) lens

lemma tiles_append (start : ℕ) (lens lens' : List ℕ) :
    tiles start (lens ++ lens') = tiles start lens ++ tiles (start + lens.sum) lens' := by
  induction lens generalizing start with
  | nil => rfl
  | cons len lens ih =>
    rw [List.cons_append, tiles, tiles, ih, List.sum_cons, Nat.add_assoc, List.cons_append]

/-- A slice is the slices of its tiles. -/
lemma slice_sum (f : ℕ → α) (start : ℕ) (lens : List ℕ) :
    slice f start lens.sum = (tiles start lens).flatMap fun t => slice f t.1 t.2 := by
  induction lens generalizing start with
  | nil => rfl
  | cons len lens ih => rw [List.sum_cons, slice_add, ih, tiles, List.flatMap_cons]

/-- Two tilings by pieces of the same lengths agree when all of their pieces do. -/
lemma flatMap_eq_flatMap_iff {β : Type*} {l : List β} {p q : β → List α}
    (hlen : ∀ b ∈ l, (p b).length = (q b).length) :
    l.flatMap p = l.flatMap q ↔ ∀ b ∈ l, p b = q b := by
  constructor
  · induction l with
    | nil => exact fun _ b hb => absurd hb List.not_mem_nil
    | cons b l ih =>
      intro h
      rw [List.flatMap_cons, List.flatMap_cons] at h
      obtain ⟨hb, hl⟩ := List.append_inj h (hlen b List.mem_cons_self)
      exact List.forall_mem_cons.mpr
        ⟨hb, ih (fun b' hb' => hlen b' (List.mem_cons_of_mem _ hb')) hl⟩
  · exact fun h => List.flatMap_congr h

end Slice
