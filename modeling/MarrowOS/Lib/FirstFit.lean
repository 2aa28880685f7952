import Mathlib.Data.Nat.Notation
import Mathlib.Order.Basic
import Mathlib.Tactic.ByContra
import Mathlib.Tactic.Lemma

/-!
# First fit in one pass

`scan` looks for `n` neighbouring cells that are free, in one pass over the cells with a counter
that starts again at every cell that is not. It does not check the counter when the cells run out:
the free cells at the end are an answer too, however few they are.

`scan_eq_of_least` is what it is for: a run that is long enough and starts first.
`scan_cases_of_not_run` is what else it answers.
-/

namespace FirstFit

variable {p : ℕ → Prop} {total n s i cur : ℕ}

/-- The cells `s, …, s + n - 1` are below `total` and free, that is they pass `p`. -/
def Run (p : ℕ → Prop) (total n s : ℕ) : Prop :=
  s + n ≤ total ∧ ∀ i, s ≤ i → i < s + n → p i

/-- The cells from `t` on are free, one at least. -/
def FreeFrom (p : ℕ → Prop) (total t : ℕ) : Prop :=
  t < total ∧ ∀ i, t ≤ i → i < total → p i

/-- The scan with `m` cells to go, at cell `i`, with the `cur` free cells before it in hand. -/
def scan (p : ℕ → Prop) [DecidablePred p] (n : ℕ) : (m i cur : ℕ) → Option ℕ
  | 0, i, cur => if cur = 0 then none else some (i - cur)
  | m + 1, i, cur =>
    if p i then if cur + 1 = n then some (i - cur) else scan p n m (i + 1) (cur + 1)
    else scan p n m (i + 1) 0

/-- The `cur` cells before cell `i` are the free cells that end there, and no run starts before
them. -/
structure Holding (p : ℕ → Prop) (total n i cur : ℕ) : Prop where
  le : cur ≤ i
  lt : cur < n
  held : ∀ j, i - cur ≤ j → j < i → p j
  earlier : ∀ t, t < i - cur → ¬ Run p total n t
  /-- the cells in hand start behind a cell that is not free -/
  start : ∀ t, t < i - cur → ¬ ∀ j, t ≤ j → j < i → p j

lemma Holding.zero (hn : 0 < n) : Holding p total n 0 0 :=
  ⟨Nat.le_refl 0, hn, by omega, by omega, by omega⟩

/-- One more free cell, not enough yet. -/
lemma Holding.free (h : Holding p total n i cur) (hi : p i) (hne : cur + 1 ≠ n) :
    Holding p total n (i + 1) (cur + 1) := by
  have hle := h.le
  have hlt := h.lt
  have hstart : i + 1 - (cur + 1) = i - cur := by omega
  refine ⟨by omega, by omega, ?_, ?_, ?_⟩
  · rw [hstart]
    intro j h₀ h₁
    rcases Nat.lt_succ_iff_lt_or_eq.mp h₁ with hj | rfl
    · exact h.held j h₀ hj
    · exact hi
  · rw [hstart]
    exact h.earlier
  · rw [hstart]
    intro t ht hfree
    apply h.start t ht
    intro j h₀ h₁
    exact hfree j h₀ (by omega)

/-- A cell that is not free ends every run that does not start behind it. -/
lemma Holding.taken (h : Holding p total n i cur) (hi : ¬ p i) :
    Holding p total n (i + 1) 0 := by
  have hle := h.le
  have hlt := h.lt
  refine ⟨by omega, by omega, by omega, ?_, ?_⟩
  · intro t ht hrun
    by_cases hti : t < i - cur
    · exact h.earlier t hti hrun
    · -- the run reaches over cell `i`
      exact hi (hrun.2 i (by omega) (by omega))
  · intro t ht hfree
    exact hi (hfree i (by omega) (by omega))

variable [DecidablePred p]

/-- What a scan that holds `cur` cells answers: the least run, if there is one; else where the free
cells at the end start, if there are any. -/
lemma Holding.scan_cases : ∀ {m i cur : ℕ}, i + m = total → Holding p total n i cur →
    (∃ s, scan p n m i cur = some s ∧ Run p total n s ∧ ∀ t, Run p total n t → s ≤ t) ∨
    (∃ s, scan p n m i cur = some s ∧ (∀ t, ¬ Run p total n t) ∧ FreeFrom p total s ∧
      ∀ t, FreeFrom p total t → s ≤ t) ∨
    (scan p n m i cur = none ∧ (∀ t, ¬ Run p total n t) ∧
      ∀ t, ¬ FreeFrom p total t) := by
  intro m
  induction m with
  | zero =>
    intro i cur htotal h
    have hle := h.le
    have hlt := h.lt
    -- a run that is long enough would have to start before the cells in hand
    have hnone : ∀ t, ¬ Run p total n t := by
      intro t hrun
      have hfit := hrun.1
      exact h.earlier t (by omega) hrun
    have hfrom : ∀ t, FreeFrom p total t → i - cur ≤ t := by
      intro t ht
      by_contra hti
      apply h.start t (by omega)
      intro j h₀ h₁
      exact ht.2 j h₀ (by omega)
    by_cases hcur : cur = 0
    · refine Or.inr (Or.inr ⟨?_, hnone, ?_⟩)
      · rw [scan, if_pos hcur]
      · intro t ht
        have hge := hfrom t ht
        have hin := ht.1
        omega
    · refine Or.inr (Or.inl ⟨i - cur, ?_, hnone, ⟨by omega, ?_⟩, hfrom⟩)
      · rw [scan, if_neg hcur]
      · intro j h₀ h₁
        exact h.held j h₀ (by omega)
  | succ m ih =>
    intro i cur htotal h
    have hle := h.le
    rw [scan]
    by_cases hi : p i
    · rw [if_pos hi]
      by_cases hn : cur + 1 = n
      · rw [if_pos hn]
        refine Or.inl ⟨i - cur, rfl, ⟨by omega, ?_⟩, ?_⟩
        · intro j h₀ h₁
          rcases Nat.lt_or_ge j i with hj | hj
          · exact h.held j h₀ hj
          · obtain rfl : i = j := by omega
            exact hi
        · intro t ht
          by_contra hti
          exact h.earlier t (by omega) ht
      · rw [if_neg hn]
        exact ih (by omega) (h.free hi hn)
    · rw [if_neg hi]
      exact ih (by omega) (h.taken hi)

/-- **First fit.** -/
theorem scan_eq_of_least (hn : 0 < n) (hrun : Run p total n s)
    (hleast : ∀ t, Run p total n t → s ≤ t) : scan p n total 0 0 = some s := by
  have hstart : Holding p total n 0 0 := Holding.zero hn
  rcases hstart.scan_cases (Nat.zero_add total) with
    ⟨r, hr, hrunr, hleastr⟩ | ⟨-, -, hnone, -⟩ | ⟨-, hnone, -⟩
  · have heq : r = s := Nat.le_antisymm (hleastr s hrun) (hleast r hrunr)
    rw [hr, heq]
  · exact absurd hrun (hnone s)
  · exact absurd hrun (hnone s)

/-- Without a run that is long enough, the scan answers with the free cells at the end. -/
theorem scan_cases_of_not_run (hn : 0 < n) (hnone : ∀ t, ¬ Run p total n t) :
    (∃ s, scan p n total 0 0 = some s ∧ FreeFrom p total s ∧
      ∀ t, FreeFrom p total t → s ≤ t) ∨
    (scan p n total 0 0 = none ∧ ∀ t, ¬ FreeFrom p total t) := by
  have hstart : Holding p total n 0 0 := Holding.zero hn
  rcases hstart.scan_cases (Nat.zero_add total) with
    ⟨s, -, hrun, -⟩ | ⟨s, hs, -, hfrom⟩ | ⟨hs, -, hfrom⟩
  · exact absurd hrun (hnone s)
  · exact Or.inl ⟨s, hs, hfrom⟩
  · exact Or.inr ⟨hs, hfrom⟩

/-- A scan for no cell never has enough, like one for more cells than there are. -/
lemma scan_zero : ∀ {m i cur : ℕ}, cur + m < n → scan p 0 m i cur = scan p n m i cur := by
  intro m
  induction m with
  | zero => exact fun _ => rfl
  | succ m ih =>
    intro i cur hlt
    rw [scan, scan, if_neg (Nat.succ_ne_zero cur), if_neg (show cur + 1 ≠ n by omega)]
    rw [ih (by omega), ih (by omega)]

/-- Whatever is asked for, the answer is a free cell, and the cells behind it are free as far as
they were asked for and are there. -/
lemma scan_free : ∀ {m i cur : ℕ}, cur ≤ i → (∀ j, i - cur ≤ j → j < i → p j) →
    scan p n m i cur = some s →
      s < i + m ∧ ∀ j, s ≤ j → j < i + m → (j < s + n ∨ j = s) → p j := by
  intro m
  induction m with
  | zero =>
    intro i cur hle hheld hs
    rw [scan] at hs
    split at hs
    · cases hs
    · obtain rfl : i - cur = s := Option.some.inj hs
      exact ⟨by omega, fun j h₀ h₁ _ => hheld j h₀ h₁⟩
  | succ m ih =>
    intro i cur hle hheld hs
    have hbound : i + (m + 1) = i + 1 + m := by omega
    rw [hbound]
    rw [scan] at hs
    by_cases hi : p i
    · have hheld' : ∀ j, i - cur ≤ j → j < i + 1 → p j := by
        intro j h₀ h₁
        rcases Nat.lt_succ_iff_lt_or_eq.mp h₁ with hj | rfl
        · exact hheld j h₀ hj
        · exact hi
      rw [if_pos hi] at hs
      split at hs
      · obtain rfl : i - cur = s := Option.some.inj hs
        exact ⟨by omega, fun j h₀ _ h₂ => hheld' j h₀ (by omega)⟩
      · apply ih (by omega) _ hs
        rwa [Nat.add_sub_add_right]
    · rw [if_neg hi] at hs
      exact ih (by omega) (by omega) hs

end FirstFit
