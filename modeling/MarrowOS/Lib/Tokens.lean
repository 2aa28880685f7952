import Mathlib.Data.List.TakeWhile
import Mathlib.Tactic.Lemma

/-!
# Tokens

The tokens of a list are its maximal runs of elements that are no delimiters. They are found one by
one: the delimiters in front are skipped (`tokens_dropWhile`), and the first token goes on up to the
next delimiter (`tokens_append_cons`) or to the end (`tokens_singleton`).
-/

namespace Tokens

variable {α : Type} {p : α → Bool} {c : α} {t w : List α}

/-- The maximal runs of elements that are no delimiters. -/
def tokens (p : α → Bool) (w : List α) : List (List α) := (w.splitOnP p).filter fun t => !t.isEmpty

@[simp] lemma tokens_nil : tokens p [] = [] := rfl

/-- A delimiter separates the tokens in front of it from those behind it. -/
lemma tokens_append_delimiter (hc : p c = true) (v w : List α) :
    tokens p (v ++ c :: w) = tokens p v ++ tokens p w := by
  unfold tokens
  rw [List.splitOnP_append_cons v w hc, List.filter_append]

lemma tokens_cons_delimiter (hc : p c = true) (w : List α) : tokens p (c :: w) = tokens p w :=
  tokens_append_delimiter hc [] w

/-- A run without delimiters is one token. -/
lemma tokens_singleton (hne : t ≠ []) (ht : ∀ c ∈ t, p c = false) : tokens p t = [t] := by
  unfold tokens
  rw [List.splitOnP_eq_singleton ht]
  cases t with
  | nil => exact absurd rfl hne
  | cons c t => rfl

lemma tokens_append_cons (hne : t ≠ []) (ht : ∀ c ∈ t, p c = false) (hc : p c = true)
    (w : List α) : tokens p (t ++ c :: w) = t :: tokens p w := by
  rw [tokens_append_delimiter hc, tokens_singleton hne ht]
  rfl

/-- Delimiters in front of the first token are skipped. -/
lemma tokens_append_of_all {v : List α} (hv : ∀ c ∈ v, p c = true) (w : List α) :
    tokens p (v ++ w) = tokens p w := by
  induction v with
  | nil => rfl
  | cons c v ih =>
    rw [List.forall_mem_cons] at hv
    rw [List.cons_append, tokens_cons_delimiter hv.1, ih hv.2]

lemma tokens_dropWhile (w : List α) : tokens p (w.dropWhile p) = tokens p w := by
  have hsplit := tokens_append_of_all (p := p) (v := w.takeWhile p)
    (fun c hc => List.mem_takeWhile_imp hc) (w.dropWhile p)
  rw [List.takeWhile_append_dropWhile] at hsplit
  exact hsplit.symm

/-- The tokens hold the elements that are no delimiters. -/
lemma flatten_tokens (w : List α) : (tokens p w).flatten = w.filter fun c => !p c := by
  unfold tokens
  rw [List.flatten_filter_not_isEmpty]
  induction w with
  | nil => rfl
  | cons c w ih =>
    have hne := List.splitOnP_ne_nil p w
    rw [List.splitOnP_cons_eq_if_modifyHead]
    cases hc : p c with
    | true =>
      rw [if_pos rfl, List.filter_cons_of_neg (by rw [hc]; decide), ← ih]
      rfl
    | false =>
      rw [if_neg (by decide), List.filter_cons_of_pos (by rw [hc]; rfl), ← ih]
      cases hsplit : w.splitOnP p with
      | nil => exact absurd hsplit hne
      | cons t ts => rfl

/-- There are no more tokens than elements, but for one. -/
lemma length_tokens_le (w : List α) : (tokens p w).length ≤ w.length + 1 := by
  refine (List.length_filter_le ..).trans ?_
  induction w with
  | nil => exact le_rfl
  | cons c w ih =>
    rw [List.splitOnP_cons_eq_if_modifyHead, List.length_cons]
    split_ifs
    · exact Nat.succ_le_succ ih
    · rw [List.length_modifyHead]
      exact ih.trans (Nat.le_succ _)

lemma tokens_ne_nil (hc : p c = false) (hmem : c ∈ w) : tokens p w ≠ [] := by
  intro hnil
  have hflat := flatten_tokens (p := p) w
  rw [hnil, List.flatten_nil, eq_comm, List.filter_eq_nil_iff] at hflat
  exact hflat c hmem (by rw [hc]; rfl)

/-- The front of a list has no more tokens than the list. -/
lemma length_tokens_append_le (v w : List α) :
    (tokens p v).length ≤ (tokens p (v ++ w)).length := by
  induction hlen : v.length using Nat.strong_induction_on generalizing v with
  | _ len ih =>
    subst hlen
    cases v with
    | nil => exact Nat.zero_le _
    | cons c v =>
      cases hc : p c with
      | true =>
        rw [List.cons_append, tokens_cons_delimiter hc, tokens_cons_delimiter hc]
        exact ih v.length (Nat.lt_succ_self _) v rfl
      | false =>
        -- the first token goes on to the next delimiter, or to the end of the front
        have hsplit := List.takeWhile_append_dropWhile (p := fun c => !p c) (l := v)
        have hletters : ∀ d ∈ c :: v.takeWhile fun c => !p c, p d = false := by
          refine List.forall_mem_cons.mpr ⟨hc, fun d hd => ?_⟩
          have hd' := List.mem_takeWhile_imp hd
          rwa [Bool.not_eq_true'] at hd'
        have hfirst := List.head?_dropWhile_not (fun c => !p c) v
        have hle := List.length_dropWhile_le (fun c => !p c) v
        rw [← hsplit, ← List.cons_append]
        generalize v.dropWhile (fun c => !p c) = r at hfirst hle
        cases r with
        | nil =>
          rw [List.append_nil, tokens_singleton (List.cons_ne_nil _ _) hletters]
          have hne : tokens p ((c :: v.takeWhile fun c => !p c) ++ w) ≠ [] :=
            tokens_ne_nil hc (List.mem_append_left _ List.mem_cons_self)
          exact List.length_pos_iff.mpr hne
        | cons d r =>
          have hd : p d = true := by simpa using hfirst
          have hshorter : r.length < v.length + 1 := Nat.lt_succ_of_le (Nat.le_of_succ_le hle)
          have hassoc : (c :: v.takeWhile fun c => !p c) ++ d :: r ++ w =
              (c :: v.takeWhile fun c => !p c) ++ d :: (r ++ w) := List.append_assoc ..
          rw [hassoc, tokens_append_cons (List.cons_ne_nil _ _) hletters hd,
            tokens_append_cons (List.cons_ne_nil _ _) hletters hd]
          exact Nat.succ_le_succ (ih r.length hshorter r rfl)

/-- A list and the end of it have the same tokens when what is in front are delimiters. -/
lemma tokens_drop_eq_iff (w : List α) (k : ℕ) :
    tokens p (w.drop k) = tokens p w ↔ ∀ c ∈ w.take k, p c = true := by
  constructor
  · intro heq
    have hflat := congrArg List.flatten heq
    have hsplit : w.filter (fun c => !p c) =
        (w.take k).filter (fun c => !p c) ++ (w.drop k).filter fun c => !p c := by
      rw [← List.filter_append, List.take_append_drop]
    rw [flatten_tokens, flatten_tokens, hsplit] at hflat
    intro c hc
    have hno := List.filter_eq_nil_iff.mp (List.self_eq_append_left.mp hflat) c hc
    rw [Bool.not_eq_true, Bool.not_eq_false'] at hno
    exact hno
  · intro hall
    have happend := tokens_append_of_all hall (w.drop k)
    rw [List.take_append_drop] at happend
    exact happend.symm

end Tokens
