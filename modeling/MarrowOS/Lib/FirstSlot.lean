import Mathlib.Data.List.Basic
import Mathlib.Data.Nat.Notation
import Mathlib.Tactic.ByContra
import Mathlib.Tactic.Lemma

/-!
# The first slot of a table that passes a test

`firstSlot p l` is the first element of `l` that passes `p`, with its index. A search that
visits only the first `n` slots, or uses a weaker test, may find another one:
`firstSlot_take_eq_iff` says exactly when it does not.
-/

namespace FirstSlot

variable {α : Type*} {p q : α → Bool} {l : List α} {i n : ℕ} {a : α}

/-- The first element that passes the test, with its index. -/
def firstSlot (p : α → Bool) : List α → Option (ℕ × α)
  | [] => none
  | a :: l => if p a then some (0, a) else (firstSlot p l).map fun r => (r.1 + 1, r.2)

lemma firstSlot_eq_none : firstSlot p l = none ↔ ∀ (i : ℕ) a, l[i]? = some a → p a = false := by
  induction l with
  | nil => simp [firstSlot]
  | cons b l ih =>
    rw [firstSlot]
    constructor
    · intro h i a hi
      split at h
      · cases h
      rename_i hb
      cases i with
      | zero =>
        obtain rfl : b = a := by simpa using hi
        simpa using hb
      | succ i => exact ih.mp (Option.map_eq_none_iff.mp h) i a hi
    · intro h
      have hb := h 0 b rfl
      rw [if_neg (by simp [hb]), ih.mpr fun i a hi => h (i + 1) a hi]
      rfl

lemma firstSlot_eq_some : firstSlot p l = some (i, a) ↔
    l[i]? = some a ∧ p a = true ∧ ∀ j < i, ∀ b, l[j]? = some b → p b = false := by
  induction l generalizing i with
  | nil => simp [firstSlot]
  | cons b l ih =>
    rw [firstSlot]
    by_cases hb : p b = true
    · rw [if_pos hb]
      constructor
      · intro h
        obtain ⟨rfl, rfl⟩ := Prod.mk.inj (Option.some.inj h)
        exact ⟨rfl, hb, fun j hj => absurd hj (Nat.not_lt_zero j)⟩
      · rintro ⟨hi, ha, hbefore⟩
        cases i with
        | zero =>
          obtain rfl : b = a := by simpa using hi
          rfl
        | succ i =>
          rw [hbefore 0 (Nat.succ_pos i) b rfl] at hb
          cases hb
    · rw [if_neg hb, Option.map_eq_some_iff]
      constructor
      · rintro ⟨⟨j, c⟩, hr, heq⟩
        obtain ⟨rfl, rfl⟩ := Prod.mk.inj heq
        obtain ⟨hj, hc, hbefore⟩ := ih.mp hr
        refine ⟨hj, hc, fun m hm d hd => ?_⟩
        cases m with
        | zero =>
          obtain rfl : b = d := by simpa using hd
          simpa using hb
        | succ m => exact hbefore m (Nat.lt_of_succ_lt_succ hm) d hd
      · rintro ⟨hi, ha, hbefore⟩
        cases i with
        | zero =>
          obtain rfl : b = a := by simpa using hi
          exact absurd ha hb
        | succ i =>
          exact ⟨(i, a), ih.mpr ⟨hi, ha, fun j hj c hc => hbefore (j + 1) (by omega) c hc⟩, rfl⟩

/-- The element alone is `List.find?`'s. -/
lemma firstSlot_snd : (firstSlot p l).map Prod.snd = l.find? p := by
  induction l with
  | nil => rfl
  | cons b l ih =>
    rw [firstSlot, List.find?_cons]
    cases hb : p b with
    | true => rfl
    | false =>
      simp only [Bool.false_eq_true, if_false, Option.map_map]
      exact ih

/-- A search of the first `n` slots with a weaker test agrees with the search of all slots
exactly when what passes the weaker test below `n` stands at or behind an element that passes
the stronger one, and the latter is not missing below `n` if it is there at all. -/
theorem firstSlot_take_eq_iff (hqp : ∀ a, q a = true → p a = true) :
    firstSlot p (l.take n) = firstSlot q l ↔
      (∀ i < n, ∀ a, l[i]? = some a → p a = true →
        ∃ j ≤ i, ∃ b, l[j]? = some b ∧ q b = true) ∧
      (∀ (i : ℕ) a, l[i]? = some a → q a = true → ∃ j < n, ∃ b, l[j]? = some b ∧ q b = true) := by
  have htake : ∀ (i : ℕ) a, (l.take n)[i]? = some a ↔ i < n ∧ l[i]? = some a := by
    intro i a
    rw [List.getElem?_take]
    split <;> simp [*]
  constructor
  · intro h
    cases hq : firstSlot q l with
    | none =>
      have hnone := firstSlot_eq_none.mp hq
      have hpnone := firstSlot_eq_none.mp (h.trans hq)
      refine ⟨fun i hi a ha hpa => ?_, fun i a ha hqa => ?_⟩
      · rw [hpnone i a ((htake i a).mpr ⟨hi, ha⟩)] at hpa
        cases hpa
      · rw [hnone i a ha] at hqa
        cases hqa
    | some r =>
      obtain ⟨k, c⟩ := r
      obtain ⟨hk, hqc, -⟩ := firstSlot_eq_some.mp hq
      obtain ⟨hk', -, hbefore⟩ := firstSlot_eq_some.mp (h.trans hq)
      have hkn : k < n := ((htake k c).mp hk').1
      refine ⟨fun i hi a ha hpa => ⟨k, ?_, c, hk, hqc⟩, fun _ _ _ _ => ⟨k, hkn, c, hk, hqc⟩⟩
      by_contra hki
      rw [hbefore i (by omega) a ((htake i a).mpr ⟨hi, ha⟩)] at hpa
      cases hpa
  · rintro ⟨hbehind, hthere⟩
    cases hp : firstSlot p (l.take n) with
    | none =>
      have hpnone := firstSlot_eq_none.mp hp
      symm
      refine firstSlot_eq_none.mpr fun i a ha => ?_
      by_contra hqa
      obtain ⟨j, hj, b, hb, hqb⟩ := hthere i a ha (by simpa using hqa)
      have hpb := hqp b hqb
      rw [hpnone j b ((htake j b).mpr ⟨hj, hb⟩)] at hpb
      cases hpb
    | some r =>
      obtain ⟨k, c⟩ := r
      obtain ⟨hk, hpc, hbefore⟩ := firstSlot_eq_some.mp hp
      obtain ⟨hkn, hkl⟩ := (htake k c).mp hk
      have hearlier : ∀ j < k, ∀ b, l[j]? = some b → q b = false := by
        intro j hj b hb
        by_contra hqb
        have hpb := hqp b (by simpa using hqb)
        rw [hbefore j hj b ((htake j b).mpr ⟨by omega, hb⟩)] at hpb
        cases hpb
      obtain ⟨j, hj, b, hb, hqb⟩ := hbehind k hkn c hkl hpc
      obtain rfl : j = k := by
        by_contra hjk
        rw [hearlier j (by omega) b hb] at hqb
        cases hqb
      obtain rfl : b = c := Option.some.inj (hb.symm.trans hkl)
      exact (firstSlot_eq_some.mpr ⟨hkl, hqb, hearlier⟩).symm

end FirstSlot
