import MarrowOS.Lib.Tokens
import Mathlib.Data.List.Forall2
import MarrowOS.Stdlib.Strtok

/-!
# What `strtok` finds

A call finds the first token of the string its pointer is on, and leaves the saved pointer on a
string with the tokens behind it (`strtok_token`); when there is none the saved pointer is cleared
(`strtok_none`). Calls with null go through the tokens of one string this way
(`strtokCalls_answers`). A string that is handed over is only looked at when no pointer was saved,
so it has to be the saved pointer that is on its first token (`tokenises_iff`).
-/

namespace MarrowOS

open ByteMem Fallible Tokens

variable {delimiters : CString} {s s' s₁ : Strtok} {n p q lo lo' hi str a : ℕ} {w t : CString}
  {c : UInt8}

lemma isDelimiter_iff : isDelimiter delimiters c = true ↔ c ∈ delimiters := by
  rw [isDelimiter, decide_eq_true_iff, List.idxOf_lt_length_iff]

lemma not_isDelimiter_zero (hd : 0 ∉ delimiters) : isDelimiter delimiters 0 = false := by
  rw [← Bool.not_eq_true, isDelimiter_iff]
  exact hd

/-- What is done between two states: only the bytes from `lo` to `hi` are read or written, and what
is written are NULs. -/
structure Within (s s' : Strtok) (lo hi : ℕ) : Prop where
  accesses : ∀ a ∈ s'.accesses, a ∈ s.accesses ∨ lo ≤ a ∧ a ≤ hi
  kept : ∀ a ∈ s.accesses, a ∈ s'.accesses
  outside : ∀ a, a < lo ∨ hi < a → s'.mem a = s.mem a
  nul : ∀ a, s.mem a = 0 → s'.mem a = 0

lemma Within.refl (s : Strtok) (lo hi : ℕ) : Within s s lo hi :=
  ⟨fun _ ha => Or.inl ha, fun _ ha => ha, fun _ _ => rfl, fun _ ha => ha⟩

lemma Within.trans (h : Within s s₁ lo hi) (h' : Within s₁ s' lo' hi) (hle : lo ≤ lo') :
    Within s s' lo hi := by
  refine ⟨fun a ha => ?_, fun a ha => h'.kept a (h.kept a ha), fun a ha => ?_,
    fun a ha => h'.nul a (h.nul a ha)⟩
  · rcases h'.accesses a ha with ha | ⟨h₀, h₁⟩
    · exact h.accesses a ha
    · exact Or.inr ⟨hle.trans h₀, h₁⟩
  · rw [h'.outside a (by omega), h.outside a ha]

/-- A string in front of the bytes that are touched stays, but for its NUL perhaps. -/
lemma Within.stringAt (h : Within s s' lo hi) (hs : StringAt s.mem a t) (hle : a + t.length ≤ lo) :
    StringAt s'.mem a t :=
  hs.keep (fun x _ hx => h.outside x (by omega)) h.nul

/-! ## One call -/

/-- A byte that was read. -/
def Strtok.note (p : ℕ) (s : Strtok) : Strtok := { s with accesses := p :: s.accesses }

lemma load_eq (hp : p < 2 ^ 32) (s : Strtok) : s.load p = .ok (s.mem p, s.note p) := if_pos hp

lemma within_note (h₀ : lo ≤ p) (h₁ : p ≤ hi) (s : Strtok) : Within s (s.note p) lo hi := by
  refine ⟨fun a ha => ?_, fun a ha => List.mem_cons_of_mem p ha, fun _ _ => rfl, fun _ ha => ha⟩
  rcases List.mem_cons.mp ha with heq | ha
  · rw [heq]
    exact Or.inr ⟨h₀, h₁⟩
  · exact Or.inl ha

/-- A NUL that was written. -/
def Strtok.cutAt (p : ℕ) (s : Strtok) : Strtok :=
  { s with mem := Function.update s.mem p 0, accesses := p :: s.accesses }

lemma store_eq (hp : p < 2 ^ 32) (s : Strtok) : s.store p 0 = .ok (s.cutAt p) := if_pos hp

lemma within_cutAt (h₀ : lo ≤ p) (h₁ : p ≤ hi) (s : Strtok) : Within s (s.cutAt p) lo hi := by
  have hnote := within_note h₀ h₁ s
  refine ⟨hnote.accesses, hnote.kept, fun a ha => ?_, fun a ha => ?_⟩
  · exact Function.update_of_ne (by omega) ..
  · by_cases heq : a = p
    · rw [heq]
      exact Function.update_self ..
    · exact (Function.update_of_ne heq ..).trans ha

/-- The first loop skips the delimiters in front. -/
lemma strtokSkip_eq (hd : 0 ∉ delimiters) (h : StringAt s.mem p w)
    (hspace : p + w.length < 2 ^ 32) (hn : w.length < n) :
    ∃ q s', strtokSkip delimiters n p s = .ok (q, s') ∧ s'.mem = s.mem ∧ s'.sp = s.sp ∧
      Within s s' p (p + w.length) ∧ p ∈ s'.accesses ∧ p ≤ q ∧
      q + (w.dropWhile (isDelimiter delimiters)).length = p + w.length ∧
      StringAt s.mem q (w.dropWhile (isDelimiter delimiters)) := by
  induction w generalizing p n s with
  | nil =>
    obtain ⟨n, rfl⟩ : ∃ m, n = m + 1 := ⟨n - 1, by omega⟩
    -- the NUL is no delimiter
    have hstop : isDelimiter delimiters (s.mem p) = false := by
      rw [stringAt_nil.mp h]
      exact not_isDelimiter_zero hd
    refine ⟨p, s.note p, ?_, rfl, rfl, within_note le_rfl (Nat.le_add_right ..) s,
      List.mem_cons_self, le_rfl, rfl, h⟩
    rw [strtokSkip, load_eq (by omega), ok_bind]
    simp only [hstop]
    rfl
  | cons c w ih =>
    obtain ⟨n, rfl⟩ : ∃ m, n = m + 1 := ⟨n - 1, by omega⟩
    rcases h with ⟨hc, hne, hrest⟩
    rw [List.length_cons] at hspace hn ⊢
    rw [strtokSkip, load_eq (by omega), ok_bind]
    simp only [hc]
    -- a delimiter is skipped, any other character is where the token starts
    cases hdelim : isDelimiter delimiters c with
    | true =>
      rcases @ih (s.note p) n (p + 1) hrest (by omega) (by omega) with
        ⟨q, s', hskip, hmem, hsp, hwithin, -, hle, hlength, hstring⟩
      have hlimit : p + 1 + w.length = p + (w.length + 1) := by omega
      rw [hlimit] at hwithin hlength
      rw [List.dropWhile_cons_of_pos hdelim]
      refine ⟨q, s', hskip, hmem, hsp, ?_, ?_, by omega, hlength, hstring⟩
      · exact (within_note le_rfl (by omega) s).trans hwithin (Nat.le_succ p)
      · exact hwithin.kept p List.mem_cons_self
    | false =>
      rw [List.dropWhile_cons_of_neg (by rw [hdelim]; decide)]
      refine ⟨p, s.note p, rfl, rfl, rfl, within_note le_rfl (by omega) s, List.mem_cons_self,
        le_rfl, rfl, hc, hne, hrest⟩

/-- What the second loop finds at `p`: the token `t`, and the string `v` behind it at the saved
pointer. -/
structure EndsToken (delimiters : CString) (s' : Strtok) (p : ℕ) (w t v : CString) : Prop where
  token : StringAt s'.mem p t
  rest : StringAt s'.mem s'.sp v
  below : p + t.length ≤ s'.sp
  length : s'.sp + v.length = p + w.length
  letters : ∀ c ∈ t, isDelimiter delimiters c = false
  split : w = t ∧ v = [] ∨ ∃ c, isDelimiter delimiters c = true ∧ w = t ++ c :: v

/-- A character in front of the token is part of it. -/
lemma EndsToken.cons {v : CString} (h : EndsToken delimiters s' (p + 1) w t v)
    (hc : s'.mem p = c) (hne : c ≠ 0) (hletter : isDelimiter delimiters c = false) :
    EndsToken delimiters s' p (c :: w) (c :: t) v := by
  refine ⟨⟨hc, hne, h.token⟩, h.rest, ?_, ?_, List.forall_mem_cons.mpr ⟨hletter, h.letters⟩, ?_⟩
  · have hbelow := h.below
    rw [List.length_cons]
    omega
  · have hlength := h.length
    rw [List.length_cons]
    omega
  · rcases h.split with ⟨hw, hv⟩ | ⟨d, hd, hw⟩
    · exact Or.inl ⟨by rw [hw], hv⟩
    · exact Or.inr ⟨d, hd, by rw [hw, List.cons_append]⟩

/-- The loop begins behind the delimiters, so what it finds is the first token. -/
lemma EndsToken.tokens {v : CString} (h : EndsToken delimiters s' p w t v) (hne : w ≠ [])
    (hfirst : isDelimiter delimiters (w.head hne) = false) :
    tokens (isDelimiter delimiters) w = t :: tokens (isDelimiter delimiters) v := by
  rcases h.split with ⟨hw, hv⟩ | ⟨c, hc, hw⟩
  · rw [hv, hw]
    exact tokens_singleton (by rwa [← hw]) h.letters
  · have ht : t ≠ [] := by
      intro ht
      subst hw ht
      exact absurd (hfirst.symm.trans hc) (by decide)
    rw [hw]
    exact tokens_append_cons ht h.letters hc v

/-- The second loop goes on to the next delimiter, which it overwrites, or to the end. -/
lemma strtokEnd_eq (h : StringAt s.mem s.sp w) (hspace : s.sp + w.length < 2 ^ 32)
    (hn : w.length < n) :
    ∃ s' t v, strtokEnd delimiters n s = .ok s' ∧ Within s s' s.sp (s.sp + w.length) ∧
      EndsToken delimiters s' s.sp w t v := by
  induction w generalizing n s with
  | nil =>
    obtain ⟨n, rfl⟩ : ∃ m, n = m + 1 := ⟨n - 1, by omega⟩
    refine ⟨s.note s.sp, [], [], ?_, within_note le_rfl le_rfl s, h, h, le_rfl, rfl,
      fun _ hc => absurd hc List.not_mem_nil, Or.inl ⟨rfl, rfl⟩⟩
    rw [strtokEnd, load_eq (by omega), ok_bind]
    simp only [if_pos (stringAt_nil.mp h)]
    rfl
  | cons c w ih =>
    obtain ⟨n, rfl⟩ : ∃ m, n = m + 1 := ⟨n - 1, by omega⟩
    have hc := h.1
    have hne := h.2.1
    rw [List.length_cons] at hspace hn ⊢
    rw [strtokEnd, load_eq (show s.sp < 2 ^ 32 by omega), ok_bind]
    simp only [hc, if_neg hne]
    have hnote : Within s (s.note s.sp) s.sp (s.sp + (w.length + 1)) :=
      within_note le_rfl (by omega) s
    cases hdelim : isDelimiter delimiters c with
    | true =>
      have hsp : (s.note s.sp).sp < 2 ^ 32 := show s.sp < 2 ^ 32 by omega
      -- the delimiter is overwritten, and the saved pointer is behind it
      rw [if_pos rfl, store_eq hsp, ok_bind]
      refine ⟨_, [], w, rfl, ?_, ?_, ?_, Nat.le_succ _, ?_, fun _ hc => absurd hc List.not_mem_nil,
        Or.inr ⟨c, hdelim, rfl⟩⟩
      · have hcut := within_cutAt (le_refl s.sp) (show s.sp ≤ s.sp + (w.length + 1) by omega)
          (s.note s.sp)
        exact hnote.trans ⟨hcut.accesses, hcut.kept, hcut.outside, hcut.nul⟩ le_rfl
      · exact Function.update_self ..
      · apply h.2.2.congr
        intro x hx _
        exact Function.update_of_ne (show x ≠ s.sp by omega) ..
      · show s.sp + 1 + w.length = s.sp + (w.length + 1)
        omega
    | false =>
      rw [if_neg Bool.false_ne_true]
      rcases @ih { s.note s.sp with sp := s.sp + 1 } n h.2.2
        (show s.sp + 1 + w.length < 2 ^ 32 by omega) (by omega) with
        ⟨s', t, v, hend, hwithin, hends⟩
      have hlimit : s.sp + 1 + w.length = s.sp + (w.length + 1) := by omega
      simp only [hlimit] at hwithin
      -- the character in front of the saved pointer is not written
      have hkept : s'.mem s.sp = c := by
        rw [hwithin.outside s.sp (Or.inl (Nat.lt_succ_self _))]
        exact hc
      refine ⟨s', c :: t, v, hend, ?_, hends.cons hkept hne hdelim⟩
      have hstep : Within s { s.note s.sp with sp := s.sp + 1 } s.sp (s.sp + (w.length + 1)) :=
        ⟨hnote.accesses, hnote.kept, hnote.outside, hnote.nul⟩
      exact hstep.trans hwithin (Nat.le_succ _)

/-- The pointer a call goes on from. -/
def Strtok.start (str : ℕ) (s : Strtok) : ℕ := if s.sp = 0 then str else s.sp

lemma strtok_eq (hstart : s.start str ≠ 0) : strtok delimiters str s = (do
    let (pStart, s) ← strtokSkip delimiters (2 ^ 32 - s.start str + 1) (s.start str)
      { s with sp := s.start str }
    let s := { s with sp := pStart }
    let (c, s) ← s.load s.sp
    if c = 0 then return (0, { s with sp := 0 })
    else
      let s ← strtokEnd delimiters (2 ^ 32 - s.sp + 1) s
      return (pStart, s)) := by
  by_cases hsp : s.sp = 0
  · have heq : s.start str = str := if_pos hsp
    rw [heq] at hstart ⊢
    rw [strtok, if_neg (fun h => hstart h.1), if_pos ⟨hstart, hsp⟩]
  · have heq : s.start str = s.sp := if_neg hsp
    rw [heq, strtok, if_neg (fun h => hsp h.2), if_neg (fun h => hsp h.2)]

/-- The saved pointer of a state is of no account to what is read and written. -/
lemma Within.setSp (h : Within s s' lo hi) (x y : ℕ) :
    Within { s with sp := x } { s' with sp := y } lo hi :=
  ⟨h.accesses, h.kept, h.outside, h.nul⟩

/-- Without a token the saved pointer is cleared. -/
lemma strtok_none (hd : 0 ∉ delimiters) (hstart : s.start str ≠ 0)
    (h : StringAt s.mem (s.start str) w) (hspace : s.start str + w.length < 2 ^ 32)
    (hnone : w.dropWhile (isDelimiter delimiters) = []) :
    ∃ s', strtok delimiters str s = .ok (0, s') ∧ s'.sp = 0 ∧
      Within s s' (s.start str) (s.start str + w.length) ∧ s.start str ∈ s'.accesses := by
  rcases strtokSkip_eq (s := { s with sp := s.start str }) (n := 2 ^ 32 - s.start str + 1) hd h
    hspace (by omega) with ⟨q, s₁, hskip, hmem, -, hwithin, hacc, hle, hlength, hstring⟩
  rw [hnone] at hlength hstring
  rw [List.length_nil] at hlength
  have hload := load_eq (show q < 2 ^ 32 by omega) { s₁ with sp := q }
  have hnul : s₁.mem q = 0 := by
    rw [hmem]
    exact hstring
  rw [strtok_eq hstart, hskip, ok_bind]
  simp only [hload, ok_bind, if_pos hnul]
  have hlast := within_note (show s.start str ≤ q from hle)
    (show q ≤ s.start str + w.length by omega) s₁
  refine ⟨_, rfl, rfl, (hwithin.trans hlast le_rfl).setSp s.sp 0, ?_⟩
  exact List.mem_cons_of_mem q hacc

/-- What a call leaves behind that found the token `t` at `q` in a string at `p`: the string `v` at
the saved pointer. -/
structure FindsToken (s s' : Strtok) (p q : ℕ) (w t v : CString) : Prop where
  within : Within s s' p (p + w.length)
  start : p ∈ s'.accesses
  first : p ≤ q
  token : StringAt s'.mem q t
  rest : StringAt s'.mem s'.sp v
  below : q + t.length ≤ s'.sp
  length : s'.sp + v.length = p + w.length

/-- The first token is found, and the saved pointer is on a string with the others. -/
lemma strtok_token (hd : 0 ∉ delimiters) (hstart : s.start str ≠ 0)
    (h : StringAt s.mem (s.start str) w) (hspace : s.start str + w.length < 2 ^ 32)
    (hsome : w.dropWhile (isDelimiter delimiters) ≠ []) :
    ∃ q s' t v, strtok delimiters str s = .ok (q, s') ∧
      tokens (isDelimiter delimiters) w = t :: tokens (isDelimiter delimiters) v ∧
      FindsToken s s' (s.start str) q w t v := by
  rcases strtokSkip_eq (s := { s with sp := s.start str }) (n := 2 ^ 32 - s.start str + 1) hd h
    hspace (by omega) with ⟨q, s₁, hskip, hmem, -, hwithin, hacc, hle, hlength, hstring⟩
  rw [← tokens_dropWhile w]
  have hfirst := List.head_dropWhile_not (isDelimiter delimiters) hsome
  -- what is left starts with a character of the token
  generalize w.dropWhile (isDelimiter delimiters) = u at hsome hlength hstring hfirst ⊢
  rw [← hmem] at hstring
  have hload := load_eq (show q < 2 ^ 32 by omega) { s₁ with sp := q }
  -- so it is not at the end of the string
  have hne : s₁.mem q ≠ 0 := by
    cases u with
    | nil => exact absurd rfl hsome
    | cons c u =>
      rw [hstring.1]
      exact hstring.2.1
  rcases @strtokEnd_eq delimiters (Strtok.note q { s₁ with sp := q }) (2 ^ 32 - q + 1) u hstring
    (show q + u.length < 2 ^ 32 by omega) (by omega) with ⟨s', t, v, hend, hcut, hends⟩
  refine ⟨q, s', t, v, ?_, hends.tokens hsome hfirst, ?_⟩
  · rw [strtok_eq hstart, hskip, ok_bind]
    simp only [hload, ok_bind, if_neg hne]
    show (strtokEnd delimiters (2 ^ 32 - q + 1) (Strtok.note q { s₁ with sp := q }) >>= fun s =>
      pure (q, s)) = _
    rw [hend, ok_bind]
    rfl
  · have hnote := within_note (show s.start str ≤ q from hle)
      (show q ≤ s.start str + w.length by omega) s₁
    have hcut' : Within (Strtok.note q s₁) s' q (s.start str + w.length) := by
      rw [← hlength]
      exact hcut.setSp _ s'.sp
    have hall := (hwithin.trans hnote le_rfl).trans hcut' hle
    exact ⟨hall.setSp s.sp s'.sp, hcut.kept _ (List.mem_cons_of_mem q hacc), hle, hends.token,
      hends.rest, hends.below, hends.length.trans hlength⟩

/-! ## Calls in a row -/

/-- What `n` calls answer that go through the tokens: those in order, and then nothing. -/
def answers : (T : List CString) → (n : ℕ) → List (Option CString)
  | _, 0 => []
  | T, n + 1 => T.head? :: answers T.tail n

/-- The pointer that answers a call. -/
def AnswersWith (mem : Mem) (p : ℕ) : Option CString → Prop
  | none => p = 0
  | some t => p ≠ 0 ∧ StringAt mem p t

lemma answers_inj {T T' : List CString} (h : ∀ n, answers T n = answers T' n) : T = T' := by
  have htail : ∀ n, answers T.tail n = answers T'.tail n :=
    fun n => (List.cons.inj (h (n + 1))).2
  have hhead : T.head? = T'.head? := (List.cons.inj (h 1)).1
  induction T generalizing T' with
  | nil => exact (List.head?_eq_none_iff.mp hhead.symm).symm
  | cons t T ih =>
    cases T' with
    | nil => cases hhead
    | cons t' T' =>
      have hrest : T = T' :=
        ih htail (fun n => (List.cons.inj (htail (n + 1))).2) (List.cons.inj (htail 1)).1
      rw [hrest, Option.some.inj hhead]

/-- A pointer answers with one string only. -/
lemma AnswersWith.unique {mem : Mem} {o o' : Option CString} (h : AnswersWith mem p o)
    (h' : AnswersWith mem p o') : o = o' := by
  cases o with
  | none =>
    cases o' with
    | none => rfl
    | some t' => exact absurd h h'.1
  | some t =>
    cases o' with
    | none => exact absurd h' h.1
    | some t' => rw [h.2.unique h'.2]

/-- Without a saved pointer calls with null answer nothing. -/
lemma strtokCalls_idle (hsp : s.sp = 0) (n : ℕ) :
    ∃ ps, strtokCalls delimiters n 0 s = .ok (ps, s) ∧
      List.Forall₂ (AnswersWith s.mem) ps (answers [] n) := by
  induction n with
  | zero => exact ⟨[], rfl, List.Forall₂.nil⟩
  | succ n ih =>
    rcases ih with ⟨ps, hcalls, hanswers⟩
    refine ⟨0 :: ps, ?_, List.Forall₂.cons rfl hanswers⟩
    rw [strtokCalls, strtok, if_pos ⟨rfl, hsp⟩, ok_bind]
    simp only [hcalls]
    rfl

/-- The calls go through the tokens of the string their first pointer is on, which stay where they
were found. -/
lemma strtokCalls_answers (hd : 0 ∉ delimiters) (n : ℕ) (hstart : s.start str ≠ 0)
    (h : StringAt s.mem (s.start str) w) (hspace : s.start str + w.length < 2 ^ 32) :
    ∃ ps s', strtokCalls delimiters n str s = .ok (ps, s') ∧
      List.Forall₂ (AnswersWith s'.mem) ps (answers (tokens (isDelimiter delimiters) w) n) ∧
      Within s s' (s.start str) (s.start str + w.length) := by
  induction n generalizing str s w with
  | zero => exact ⟨[], s, rfl, List.Forall₂.nil, Within.refl s _ _⟩
  | succ n ih =>
    by_cases hnone : w.dropWhile (isDelimiter delimiters) = []
    · rcases strtok_none hd hstart h hspace hnone with ⟨s', hcall, hsp, hwithin, -⟩
      rcases @strtokCalls_idle delimiters s' hsp n with ⟨ps, hcalls, hanswers⟩
      rw [← tokens_dropWhile, hnone]
      refine ⟨0 :: ps, s', ?_, List.Forall₂.cons rfl hanswers, hwithin⟩
      rw [strtokCalls, hcall, ok_bind]
      simp only [hcalls]
      rfl
    · rcases strtok_token hd hstart h hspace hnone with ⟨q, s₁, t, v, hcall, htokens, hfinds⟩
      have hbelow := hfinds.below
      have hlength := hfinds.length
      have hfirst := hfinds.first
      have hsp : s₁.start 0 = s₁.sp := if_neg (by omega)
      rcases @ih s₁ 0 v (by omega) (by rw [hsp]; exact hfinds.rest) (by omega) with
        ⟨ps, s', hcalls, hanswers, hwithin⟩
      rw [hsp, hlength] at hwithin
      rw [htokens]
      refine ⟨q :: ps, s', ?_, List.Forall₂.cons ⟨by omega, ?_⟩ hanswers, ?_⟩
      · rw [strtokCalls, hcall, ok_bind]
        simp only [hcalls]
        rfl
      · exact hwithin.stringAt hfinds.token hbelow
      · exact hfinds.within.trans hwithin (by omega)

/-! ## A string that is handed over -/

lemma load_accesses (h : s.load p = .ok (c, s')) : s'.accesses = p :: s.accesses := by
  unfold Strtok.load at h
  split at h
  · rw [← (Prod.mk.inj (Except.ok.inj h)).2]
  · cases h

/-- The first loop reads the byte it begins at. -/
lemma strtokSkip_accesses (hrun : strtokSkip delimiters n p s = .ok (q, s')) :
    p ∈ s'.accesses ∧ ∀ a ∈ s.accesses, a ∈ s'.accesses := by
  induction n generalizing p s with
  | zero => cases hrun
  | succ n ih =>
    rw [strtokSkip] at hrun
    rcases bind_eq_ok.mp hrun with ⟨⟨c, s₁⟩, hload, hrun⟩
    -- it is enough that the accesses made so far are kept
    have hcons : (∀ a ∈ s₁.accesses, a ∈ s'.accesses) →
        p ∈ s'.accesses ∧ ∀ a ∈ s.accesses, a ∈ s'.accesses := by
      intro hkept
      rw [load_accesses hload] at hkept
      exact List.forall_mem_cons.mp hkept
    apply hcons
    cases hdelim : isDelimiter delimiters c with
    | true =>
      simp only [hdelim, if_pos] at hrun
      exact (ih hrun).2
    | false =>
      simp only [hdelim, if_neg Bool.false_ne_true] at hrun
      rw [← (Prod.mk.inj (Except.ok.inj hrun)).2]
      exact fun _ ha => ha

lemma strtokEnd_accesses (hrun : strtokEnd delimiters n s = .ok s') (ha : a ∈ s.accesses) :
    a ∈ s'.accesses := by
  induction n generalizing s with
  | zero => cases hrun
  | succ n ih =>
    rw [strtokEnd] at hrun
    rcases bind_eq_ok.mp hrun with ⟨⟨c, s₁⟩, hload, hrun⟩
    have ha₁ : a ∈ s₁.accesses := by
      rw [load_accesses hload]
      exact List.mem_cons_of_mem _ ha
    by_cases hc : c = 0
    · simp only [if_pos hc] at hrun
      rw [← Except.ok.inj hrun]
      exact ha₁
    simp only [if_neg hc] at hrun
    cases hdelim : isDelimiter delimiters c with
    | true =>
      simp only [hdelim, if_pos] at hrun
      rcases bind_eq_ok.mp hrun with ⟨s₂, hstore, hrun⟩
      unfold Strtok.store at hstore
      split at hstore
      · rw [← Except.ok.inj hrun, ← Except.ok.inj hstore]
        exact List.mem_cons_of_mem _ ha₁
      · cases hstore
    | false =>
      simp only [hdelim, if_neg Bool.false_ne_true] at hrun
      exact ih hrun ha₁

/-- A call reads the byte at the pointer it goes on from. -/
lemma strtok_accesses (hstart : s.start str ≠ 0) (hrun : strtok delimiters str s = .ok (q, s')) :
    s.start str ∈ s'.accesses := by
  rw [strtok_eq hstart] at hrun
  rcases bind_eq_ok.mp hrun with ⟨⟨p, s₁⟩, hskip, hrun⟩
  have hread := (strtokSkip_accesses hskip).1
  rcases bind_eq_ok.mp hrun with ⟨⟨c, s₂⟩, hload, hrun⟩
  have hread : s.start str ∈ s₂.accesses := by
    rw [load_accesses hload]
    exact List.mem_cons_of_mem _ hread
  by_cases hc : c = 0
  · simp only [if_pos hc] at hrun
    rw [← (Prod.mk.inj (Except.ok.inj hrun)).2]
    exact hread
  · simp only [if_neg hc] at hrun
    rcases bind_eq_ok.mp hrun with ⟨s₃, hend, hrun⟩
    rw [← (Prod.mk.inj (Except.ok.inj hrun)).2]
    exact strtokEnd_accesses hend hread

/-- `strtok` on a string and then on null goes through the tokens of the string, and reads and
writes the string and its NUL only. -/
def Tokenises (delimiters : CString) (str : ℕ) (w : CString) (s : Strtok) : Prop :=
  ∀ n, ∃ ps s', strtokCalls delimiters n str { s with accesses := [] } = .ok (ps, s') ∧
    List.Forall₂ (AnswersWith s'.mem) ps (answers (tokens (isDelimiter delimiters) w) n) ∧
    ∀ a ∈ s'.accesses, str ≤ a ∧ a ≤ str + w.length

/-- The saved pointer is in the string, with nothing but delimiters in front of it. -/
def SavedInFront (delimiters : CString) (str : ℕ) (w : CString) (s : Strtok) : Prop :=
  ∃ j ≤ w.length, s.sp = str + j ∧ ∀ c ∈ w.take j, isDelimiter delimiters c = true

lemma Tokenises.savedInFront (hd : 0 ∉ delimiters) (h : StringAt s.mem str w)
    (hspace : str + w.length < 2 ^ 32) (hsp : s.sp ≠ 0)
    (htokenises : Tokenises delimiters str w s) : SavedInFront delimiters str w s := by
  have hstart : Strtok.start str { s with accesses := [] } = s.sp := if_neg hsp
  -- the first call reads the byte at the saved pointer, so that is in the string
  have hrange : str ≤ s.sp ∧ s.sp ≤ str + w.length := by
    rcases htokenises 1 with ⟨ps, s', hcalls, -, hrange⟩
    rw [strtokCalls] at hcalls
    rcases bind_eq_ok.mp hcalls with ⟨⟨q, s₁⟩, hcall, hcalls⟩
    have heq : s₁ = s' := (Prod.mk.inj (Except.ok.inj hcalls)).2
    have hread := strtok_accesses (by rwa [hstart]) hcall
    rw [heq, hstart] at hread
    exact hrange s.sp hread
  obtain ⟨j, hj⟩ : ∃ j, s.sp = str + j := ⟨s.sp - str, by omega⟩
  refine ⟨j, by omega, hj, (tokens_drop_eq_iff w j).mp ?_⟩
  -- from there on the calls find other tokens, if there is one in front
  have hdrop : StringAt s.mem s.sp (w.drop j) := by
    rw [hj]
    exact h.drop (by omega)
  have hlength := w.length_drop (i := j)
  apply answers_inj
  intro n
  rcases htokenises n with ⟨ps, s', hcalls, hanswers, -⟩
  rcases @strtokCalls_answers delimiters { s with accesses := [] } str _ hd n (by rwa [hstart])
    (by rw [hstart]; exact hdrop) (by rw [hstart]; omega) with ⟨ps', s'', hcalls', hanswers', -⟩
  have heq := Prod.mk.inj (Except.ok.inj (hcalls'.symm.trans hcalls))
  rw [heq.1, heq.2] at hanswers'
  exact List.right_unique_forall₂' (fun _ _ _ h h' => h.unique h') hanswers' hanswers

lemma tokenises_of_start (hd : 0 ∉ delimiters) (h : StringAt s.mem str w) (hne : str ≠ 0)
    (hspace : str + w.length < 2 ^ 32) (hstart : s.sp = 0 ∨ SavedInFront delimiters str w s) :
    Tokenises delimiters str w s := by
  -- the calls begin in the string, behind some of the delimiters in front
  obtain ⟨j, hj, heq, hfront⟩ : ∃ j ≤ w.length, s.start str = str + j ∧
      ∀ c ∈ w.take j, isDelimiter delimiters c = true := by
    by_cases hsp : s.sp = 0
    · exact ⟨0, Nat.zero_le _, if_pos hsp, fun _ hc => absurd hc List.not_mem_nil⟩
    · rcases hstart.resolve_left hsp with ⟨j, hj, heq, hfront⟩
      exact ⟨j, hj, (if_neg hsp).trans heq, hfront⟩
  have hdrop := h.drop hj
  have hlength := w.length_drop (i := j)
  rw [← heq] at hdrop
  intro n
  rcases @strtokCalls_answers delimiters { s with accesses := [] } str _ hd n
    (show s.start str ≠ 0 by omega) hdrop (show s.start str + _ < 2 ^ 32 by omega) with
    ⟨ps, s', hcalls, hanswers, hwithin⟩
  rw [(tokens_drop_eq_iff w j).mpr hfront] at hanswers
  refine ⟨ps, s', hcalls, hanswers, fun a ha => ?_⟩
  have hstart' : Strtok.start str { s with accesses := [] } = s.start str := rfl
  rcases hwithin.accesses a ha with ha | ⟨h₀, h₁⟩
  · exact absurd ha List.not_mem_nil
  · omega

/-- **`strtok`** goes through the tokens of a string it is handed when no pointer was saved before,
or one that is on the first token of that very string. -/
theorem tokenises_iff (hd : 0 ∉ delimiters) (h : StringAt s.mem str w) (hne : str ≠ 0)
    (hspace : str + w.length < 2 ^ 32) :
    Tokenises delimiters str w s ↔ s.sp = 0 ∨ SavedInFront delimiters str w s := by
  constructor
  · intro htokenises
    by_cases hsp : s.sp = 0
    · exact Or.inl hsp
    · exact Or.inr (htokenises.savedInFront hd h hspace hsp)
  · exact tokenises_of_start hd h hne hspace

/-- `a b` at 4096 and `c` at 8192. -/
def twoStrings : Mem :=
  writeBytes (writeBytes (fun _ => 0) 4096 [0x61, 0x20, 0x62]) 8192 [0x63]

theorem tokenises_c : Tokenises [0x20] 8192 [0x63] ⟨twoStrings, 0, []⟩ := by
  have hstring : StringAt twoStrings 8192 [0x63] := by decide
  exact (tokenises_iff (by decide) hstring (by decide) (by decide)).mpr (Or.inl rfl)

/-- Only the first token of `a b` is asked for, and then those of `c`. -/
theorem strtok_goes_on : ¬ ∀ (delimiters : CString) (str str' n : ℕ) (w w' : CString)
    (s s' : Strtok) (ps : List ℕ), 0 ∉ delimiters → delimiters ≠ [] → s.sp = 0 →
    strtokCalls delimiters n str s = .ok (ps, s') → str ≠ 0 → StringAt s.mem str w →
    str + w.length < 2 ^ 32 → str' ≠ 0 → StringAt s'.mem str' w' → str' + w'.length < 2 ^ 32 →
    Tokenises delimiters str' w' s' := by
  intro h
  have hd : (0 : UInt8) ∉ [0x20] := by decide
  have hfirst : StringAt twoStrings 4096 [0x61, 0x20, 0x62] := by decide
  have hcall : (strtokCalls [0x20] 1 4096 ⟨twoStrings, 0, []⟩).toOption.map
      (fun x => (x.2.sp, decide (StringAt x.2.mem 8192 [0x63]))) = some (4098, true) := by
    decide +kernel
  rcases exists_ok_of_toOption_map hcall with ⟨⟨ps, s⟩, hrun, heq⟩
  rcases Prod.mk.inj heq with ⟨hsp, hdecide⟩
  have hsp : s.sp = 4098 := hsp
  have hsecond : StringAt s.mem 8192 [0x63] := of_decide_eq_true hdecide
  have htokenises := h [0x20] 4096 8192 1 _ _ _ s ps hd (by decide) rfl hrun (by decide) hfirst
    (by decide) (by decide) hsecond (by decide)
  -- the saved pointer is on `b`, which is not in `c`
  rcases htokenises.savedInFront hd hsecond (by decide) (by rw [hsp]; decide) with ⟨j, hj, heq, -⟩
  rw [List.length_singleton] at hj
  omega

end MarrowOS
