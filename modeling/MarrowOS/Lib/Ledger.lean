import Mathlib.Algebra.BigOperators.Group.Finset.Piecewise
import Mathlib.Algebra.Order.Group.Multiset
import Mathlib.Tactic.Lemma

/-!
# A ledger of acquired resources

A run acquires and releases resources. `settle` keeps the multiset of what is outstanding, and
fails at a release of something that is not. `held` is what a table of slots holds: when the
ledger of a run agrees with a table, every resource was released exactly once or is still in
exactly one slot.
-/

namespace Ledger

variable {α ι : Type*}

inductive Event (α : Type*)
  | acquire (a : α)
  | release (a : α)

section Settle

variable [DecidableEq α]

/-- What is outstanding after the events; `none` if one of them releases what is not. -/
def settle : Multiset α → List (Event α) → Option (Multiset α)
  | out, [] => some out
  | out, .acquire a :: events => settle (a ::ₘ out) events
  | out, .release a :: events => if a ∈ out then settle (out.erase a) events else none

@[simp] lemma settle_nil (out : Multiset α) : settle out [] = some out := rfl

@[simp] lemma settle_acquire (out : Multiset α) (a : α) :
    settle out [.acquire a] = some (a ::ₘ out) := rfl

/-- What is acquired and released at once leaves no trace. -/
@[simp] lemma settle_acquire_release (out : Multiset α) (a : α) :
    settle out [.acquire a, .release a] = some out := by
  simp [settle]

@[simp] lemma settle_release (out : Multiset α) (a : α) :
    settle (a ::ₘ out) [.release a] = some out := by
  simp [settle]

/-- What was never acquired, or already released, cannot be released. -/
lemma settle_release_eq_none {out : Multiset α} {a : α} (h : a ∉ out) :
    settle out [.release a] = none := by
  rw [settle, if_neg h]

end Settle

/-- The content of one slot. -/
def content : Option α → Multiset α
  | none => 0
  | some a => {a}

/-- What the slots hold, counted with multiplicity. -/
def held (slots : Finset ι) (table : ι → Option α) : Multiset α := ∑ i ∈ slots, content (table i)

variable {slots : Finset ι} {table : ι → Option α} {i : ι} {a : α}

lemma held_update [DecidableEq ι] (table : ι → Option α) (hi : i ∈ slots) (o : Option α) :
    content (table i) + held slots (Function.update table i o) =
      content o + held slots table := by
  have hcomp : ∀ j, content (Function.update table i o j) =
      Function.update (fun j => content (table j)) i (content o) j := by
    intro j
    rcases eq_or_ne j i with rfl | hne
    · simp
    · simp [hne]
  have hrest := Finset.add_sum_erase slots (fun j => content (table j)) hi
  simp only [held, hcomp]
  rw [Finset.sum_update_of_mem hi, Finset.sdiff_singleton_eq_erase, ← hrest, add_left_comm]

/-- Filling an empty slot. -/
lemma held_fill [DecidableEq ι] (hi : i ∈ slots) (hempty : table i = none) :
    held slots (Function.update table i (some a)) = a ::ₘ held slots table := by
  have h := held_update table hi (some a)
  rw [hempty] at h
  simpa [content] using h

/-- Emptying a slot. -/
lemma held_clear [DecidableEq ι] (hi : i ∈ slots) (hfull : table i = some a) :
    held slots table = a ::ₘ held slots (Function.update table i none) := by
  have h := held_update table hi none
  rw [hfull] at h
  simpa [content] using h.symm

lemma mem_held : a ∈ held slots table ↔ ∃ i ∈ slots, table i = some a := by
  simp only [held, Multiset.mem_sum]
  refine exists_congr fun i => and_congr_right fun _ => ?_
  cases table i with
  | none => simp [content]
  | some b => simp [content, eq_comm]

end Ledger
