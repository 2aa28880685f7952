import MarrowOS.Stdlib.IntegersTheorems
import MarrowOS.Stdlib.Printf

/-!
# `printf` inside its format

The loop of `printf` steps over the character the cursor is on, whatever that is. Behind a directive
that the end of the string cuts short the cursor is on the NUL, and the loop goes on behind it. A
format is `Complete` when this does not happen, and those are the formats `printf` stays inside of
(`printf_stays_iff`).
-/

namespace MarrowOS

open ByteMem CInt Fallible

variable {stack mem : Mem} {s s' : Printf} {n p a : ℕ} {c : UInt8} {w : CString}

/-- Where in a format one is: in its text, or behind the `%`, the `%l` or the `%ll` of a
directive. -/
inductive FormatState
  | text
  | percent
  | long
  | longLong
deriving DecidableEq, Repr

def FormatState.step : FormatState → UInt8 → FormatState
  | .text, c => if c = charPercent then .percent else .text
  | .percent, c => if c = charL then .long else .text
  | .long, c => if c = charL then .longLong else .text
  | .longLong, _ => .text

/-- No directive is cut short by the end of the format. -/
def Complete (w : CString) : Prop := w.foldl FormatState.step .text = .text

instance (w : CString) : Decidable (Complete w) := inferInstanceAs (Decidable (_ = _))

/-! ## The conversions -/

/-- A computation that ends normally and leaves the cursor alone. -/
def Prints (x : Except Fault Printf) (s : Printf) : Prop := ∃ s', x = .ok s' ∧ s'.reads = s.reads

lemma vaArg_lt (s : Printf) : s.vaArg.1 < 2 ^ 32 := UInt32.toNat_lt _

lemma vaArg64_lt (s : Printf) : s.vaArg64.1 < 2 ^ 64 := by
  have hlow := vaArg_lt s
  have hhigh := vaArg_lt s.vaArg.2
  have heq : s.vaArg64.1 = s.vaArg.1 + s.vaArg.2.vaArg.1 * 2 ^ 32 := rfl
  omega

lemma printfInt_prints (s : Printf) : Prints (printfInt s) s := by
  have hrange := i32_range s.vaArg.1
  rcases itoa_eq hrange.1 hrange.2 s.vaArg.2.text with ⟨loc, text', hitoa, -⟩
  unfold printfInt
  simp only [hitoa, ok_bind]
  exact ⟨_, rfl, rfl⟩

lemma printfUint_prints {base : ℕ} (hbase : 8 ≤ base) (hbase' : base ≤ 16) (upper : Bool)
    (s : Printf) : Prints (printfUint stack base upper s) s := by
  unfold printfUint
  simp only [printUint_eq (vaArg_lt s) hbase hbase', ok_bind]
  exact ⟨_, rfl, rfl⟩

lemma printfLl_prints (s : Printf) : Prints (printfLl stack s) s := by
  have hlo := Int.le_bmod (x := s.vaArg64.1) (m := 2 ^ 64) (by decide)
  have hhi := Int.bmod_lt (x := s.vaArg64.1) (m := 2 ^ 64) (by decide)
  have hprint := printLl_eq (v := Int.bmod s.vaArg64.1 (2 ^ 64)) (by omega) (by omega) stack
  unfold printfLl
  simp only [hprint, ok_bind]
  exact ⟨_, rfl, rfl⟩

lemma printfUll_prints {base : ℕ} (hbase : 8 ≤ base) (hbase' : base ≤ 16) (upper : Bool)
    (s : Printf) : Prints (printfUll stack base upper s) s := by
  unfold printfUll
  simp only [printUll_eq (vaArg64_lt s) hbase hbase', ok_bind]
  exact ⟨_, rfl, rfl⟩

lemma printfConversion_prints {signed otherwise : Printf → Except Fault Printf}
    {unsigned : ℕ → Bool → Printf → Except Fault Printf} (hsigned : ∀ s, Prints (signed s) s)
    (hunsigned : ∀ base upper s, 8 ≤ base → base ≤ 16 → Prints (unsigned base upper s) s)
    (hotherwise : ∀ s, Prints (otherwise s) s) (c : UInt8) (s : Printf) :
    Prints (printfConversion signed unsigned otherwise c s) s := by
  unfold printfConversion
  split_ifs
  · exact hsigned s
  · exact hunsigned 10 false s (by decide) (by decide)
  · exact hunsigned 16 false s (by decide) (by decide)
  · exact hunsigned 16 true s (by decide) (by decide)
  · exact hunsigned 8 false s (by decide) (by decide)
  · exact hotherwise s

lemma printfLongLong_prints (c : UInt8) (s : Printf) : Prints (printfLongLong stack c s) s :=
  printfConversion_prints printfLl_prints (fun _ upper s h h' => printfUll_prints h h' upper s)
    (fun s => ⟨s.put [c], rfl, rfl⟩) c s

lemma printfLong_prints (c : UInt8) (s : Printf) : Prints (printfLong stack c s) s :=
  printfConversion_prints printfInt_prints (fun _ upper s h h' => printfUint_prints h h' upper s)
    (fun s => ⟨s.put [c], rfl, rfl⟩) c s

lemma printfOther_prints (c : UInt8) (s : Printf) : Prints (printfOther stack c s) s := by
  unfold printfOther
  split_ifs
  · exact ⟨_, rfl, rfl⟩
  · exact ⟨_, rfl, rfl⟩
  · exact printfUint_prints (by decide) (by decide) false (s.put [0x30, 0x78])
  · exact ⟨_, rfl, rfl⟩

lemma printfDirective_prints (c : UInt8) (s : Printf) : Prints (printfDirective stack c s) s :=
  printfConversion_prints printfInt_prints (fun _ upper s h h' => printfUint_prints h h' upper s)
    (printfOther_prints c) c s

/-! ## Behind a `%` -/

/-- How many characters the cursor goes on behind a `%`: the NUL is one of them when the string ends
there. -/
def directiveLength (w : CString) : ℕ :=
  if w.headD 0 ≠ charL then 1 else if w.tail.headD 0 ≠ charL then 2 else 3

lemma directiveLength_cons_of_ne (hc : c ≠ charL) : directiveLength (c :: w) = 1 := if_pos hc

lemma directiveLength_long_of_ne (hc : w.headD 0 ≠ charL) : directiveLength (charL :: w) = 2 := by
  have hfirst : ¬ (charL :: w).headD 0 ≠ charL := not_not.mpr rfl
  rw [directiveLength, if_neg hfirst]
  exact if_pos hc

lemma directiveLength_longLong (w : CString) : directiveLength (charL :: charL :: w) = 3 := rfl

lemma directiveLength_le (w : CString) : directiveLength w ≤ w.length + 1 := by
  match w with
  | [] => exact le_rfl
  | [c] =>
    by_cases hc : c = charL
    · rw [hc]
      exact le_rfl
    · rw [directiveLength_cons_of_ne hc]
      exact Nat.le_add_left ..
  | c :: c' :: w =>
    have hthree : directiveLength (c :: c' :: w) ≤ 3 := by
      unfold directiveLength
      split_ifs <;> decide
    exact hthree.trans (Nat.le_add_left 3 w.length)

/-- A `%` is complete when its directive is there and the rest is complete. -/
lemma complete_percent : Complete (charPercent :: w) ↔
    directiveLength w ≤ w.length ∧ Complete (w.drop (directiveLength w)) := by
  have hstep : Complete (charPercent :: w) ↔ w.foldl FormatState.step .percent = .text := Iff.rfl
  rw [hstep]
  match w with
  | [] => decide
  | c :: w =>
    by_cases hc : c = charL
    · rw [hc]
      match w with
      | [] => decide
      | c' :: w =>
        by_cases hc' : c' = charL
        · rw [hc', directiveLength_longLong]
          match w with
          | [] => decide
          | c'' :: w => exact (and_iff_right (Nat.le_add_left 3 w.length)).symm
        · have hlong : FormatState.step .long c' = .text := if_neg hc'
          rw [@directiveLength_long_of_ne (c' :: w) hc']
          show w.foldl FormatState.step (FormatState.step .long c') = .text ↔ _
          rw [hlong]
          exact (and_iff_right (Nat.le_add_left 2 w.length)).symm
    · have hpercent : FormatState.step .percent c = .text := if_neg hc
      rw [directiveLength_cons_of_ne hc, List.foldl_cons, hpercent]
      exact (and_iff_right (Nat.le_add_left 1 w.length)).symm

/-- An address of the format that was read. -/
def Printf.note (q : ℕ) (s : Printf) : Printf := { s with reads := q :: s.reads }

lemma read_eq {q : ℕ} (hq : q < 2 ^ 32) (s : Printf) :
    s.read mem q = .ok (mem q, s.note q) := if_pos hq

lemma Printf.mem_note {q : ℕ} (h : a ∈ (s.note q).reads) : a = q ∨ a ∈ s.reads :=
  List.mem_cons.mp h

/-- What is read behind a `%`: the characters up to the one the cursor is left on. -/
def ReadsTo (s s' : Printf) (q : ℕ) : Prop := ∀ a ∈ s'.reads, a ∈ s.reads ∨ a ≤ q

lemma printfPercent_directive (hp : p + 1 < 2 ^ 32) (hc : mem (p + 1) ≠ charL) (s : Printf) :
    ∃ s', printfPercent stack mem p s = .ok (p + 1, s') ∧ ReadsTo s s' (p + 1) := by
  rcases @printfDirective_prints stack (mem (p + 1)) (s.note (p + 1)) with ⟨s', hs', hreads⟩
  refine ⟨s', ?_, fun a ha => ?_⟩
  · simp only [printfPercent, read_eq hp, ok_bind, if_neg hc, hs']
    rfl
  · rw [hreads] at ha
    rcases Printf.mem_note ha with heq | ha
    · exact Or.inr heq.le
    · exact Or.inl ha

/-- The byte behind `%l` is read twice when it is not an `l`. -/
lemma printfPercent_long (hp : p + 2 < 2 ^ 32) (hl : mem (p + 1) = charL)
    (hc : mem (p + 2) ≠ charL) (s : Printf) :
    ∃ s', printfPercent stack mem p s = .ok (p + 2, s') ∧ ReadsTo s s' (p + 2) := by
  have hp' : p + 1 < 2 ^ 32 := by omega
  rcases @printfLong_prints stack (mem (p + 2)) (((s.note (p + 1)).note (p + 2)).note (p + 2)) with
    ⟨s', hs', hreads⟩
  refine ⟨s', ?_, fun a ha => ?_⟩
  · simp only [printfPercent, read_eq hp', read_eq hp, ok_bind, if_pos hl, if_neg hc, hs']
    rfl
  · rw [hreads] at ha
    rcases Printf.mem_note ha with heq | ha
    · exact Or.inr heq.le
    rcases Printf.mem_note ha with heq | ha
    · exact Or.inr heq.le
    rcases Printf.mem_note ha with heq | ha
    · exact Or.inr (by omega)
    · exact Or.inl ha

lemma printfPercent_longLong (hp : p + 3 < 2 ^ 32) (hl : mem (p + 1) = charL)
    (hll : mem (p + 2) = charL) (s : Printf) :
    ∃ s', printfPercent stack mem p s = .ok (p + 3, s') ∧ ReadsTo s s' (p + 3) := by
  have hp' : p + 1 < 2 ^ 32 := by omega
  have hp'' : p + 2 < 2 ^ 32 := by omega
  rcases @printfLongLong_prints stack (mem (p + 3)) (((s.note (p + 1)).note (p + 2)).note (p + 3))
    with ⟨s', hs', hreads⟩
  refine ⟨s', ?_, fun a ha => ?_⟩
  · simp only [printfPercent, read_eq hp', read_eq hp'', read_eq hp, ok_bind, if_pos hl,
      if_pos hll, hs']
    rfl
  · rw [hreads] at ha
    rcases Printf.mem_note ha with heq | ha
    · exact Or.inr heq.le
    rcases Printf.mem_note ha with heq | ha
    · exact Or.inr (by omega)
    rcases Printf.mem_note ha with heq | ha
    · exact Or.inr (by omega)
    · exact Or.inl ha

/-- Behind a `%` the cursor goes on by the length of the directive. -/
lemma printfPercent_eq (h : StringAt mem (p + 1) w) (hspace : p + 1 + w.length < 2 ^ 32)
    (s : Printf) : ∃ s', printfPercent stack mem p s = .ok (p + directiveLength w, s') ∧
      ReadsTo s s' (p + directiveLength w) := by
  have hlength := directiveLength_le w
  unfold directiveLength at hlength ⊢
  rw [← h.headD] at hlength ⊢
  by_cases hl : mem (p + 1) = charL
  · have htail := h.tail (by rw [hl]; decide)
    rw [← htail.headD] at hlength ⊢
    rw [if_neg (not_not.mpr hl)] at hlength ⊢
    by_cases hll : mem (p + 2) = charL
    · rw [if_neg (not_not.mpr hll)] at hlength ⊢
      exact printfPercent_longLong (by omega) hl hll s
    · rw [if_pos hll] at hlength ⊢
      exact printfPercent_long (by omega) hl hll s
  · rw [if_pos hl] at hlength ⊢
    exact printfPercent_directive (by omega) hl s

/-! ## The loop -/

/-- The computation ends, and reads no byte behind the limit. -/
def StaysBelow (limit : ℕ) (x : Except Fault Printf) : Prop :=
  ∃ s', x = .ok s' ∧ ∀ a ∈ s'.reads, a ≤ limit

lemma read_reads {q : ℕ} (h : s.read mem q = .ok (c, s')) : s'.reads = q :: s.reads := by
  unfold Printf.read at h
  split at h
  · rw [← (Prod.mk.inj (Except.ok.inj h)).2]
  · cases h

lemma Prints.reads {x : Except Fault Printf} (h : Prints x s) (hx : x = .ok s') :
    s'.reads = s.reads := by
  rcases h with ⟨s₁, hs₁, hreads⟩
  rw [← hreads, Except.ok.inj (hx.symm.trans hs₁)]

/-- What was read stays in the history. -/
lemma printfPercent_reads {q : ℕ} (hrun : printfPercent stack mem p s = .ok (q, s'))
    (ha : a ∈ s.reads) : a ∈ s'.reads := by
  have hkeep : ∀ {q : ℕ} {c : UInt8} {s s' : Printf}, s.read mem q = .ok (c, s') → a ∈ s.reads →
      a ∈ s'.reads := by
    intro q c s s' hread ha
    rw [read_reads hread]
    exact List.mem_cons_of_mem q ha
  unfold printfPercent at hrun
  rcases bind_eq_ok.mp hrun with ⟨⟨c₁, s₁⟩, hread₁, hrun⟩
  have ha₁ := hkeep hread₁ ha
  by_cases hl : c₁ = charL
  · simp only [if_pos hl] at hrun
    rcases bind_eq_ok.mp hrun with ⟨⟨c₂, s₂⟩, hread₂, hrun⟩
    have ha₂ := hkeep hread₂ ha₁
    by_cases hll : c₂ = charL
    · simp only [if_pos hll] at hrun
      rcases bind_eq_ok.mp hrun with ⟨⟨c₃, s₃⟩, hread₃, hrun⟩
      rcases bind_eq_ok.mp hrun with ⟨s₄, hprint, hrun⟩
      rw [← (Prod.mk.inj (Except.ok.inj hrun)).2, (printfLongLong_prints c₃ s₃).reads hprint]
      exact hkeep hread₃ ha₂
    · simp only [if_neg hll] at hrun
      rcases bind_eq_ok.mp hrun with ⟨⟨c₃, s₃⟩, hread₃, hrun⟩
      rcases bind_eq_ok.mp hrun with ⟨s₄, hprint, hrun⟩
      rw [← (Prod.mk.inj (Except.ok.inj hrun)).2, (printfLong_prints c₃ s₃).reads hprint]
      exact hkeep hread₃ ha₂
  · simp only [if_neg hl] at hrun
    rcases bind_eq_ok.mp hrun with ⟨s₄, hprint, hrun⟩
    rw [← (Prod.mk.inj (Except.ok.inj hrun)).2, (printfDirective_prints c₁ s₁).reads hprint]
    exact ha₁

/-- The loop reads the byte the cursor is on, and forgets nothing. -/
lemma printfLoop_reads (hrun : printfLoop stack mem n p s = .ok s') :
    p ∈ s'.reads ∧ ∀ a ∈ s.reads, a ∈ s'.reads := by
  induction n generalizing p s with
  | zero => cases hrun
  | succ n ih =>
    rw [printfLoop] at hrun
    rcases bind_eq_ok.mp hrun with ⟨⟨c, s₁⟩, hread, hrun⟩
    have hreads := read_reads hread
    -- it is enough that the reads made so far are kept
    have hcons : (∀ a ∈ s₁.reads, a ∈ s'.reads) → p ∈ s'.reads ∧ ∀ a ∈ s.reads, a ∈ s'.reads := by
      intro hkept
      rw [hreads] at hkept
      exact List.forall_mem_cons.mp hkept
    apply hcons
    by_cases h0 : c = 0
    · simp only [if_pos h0] at hrun
      rw [← Except.ok.inj hrun]
      exact fun _ ha => ha
    simp only [if_neg h0] at hrun
    by_cases hpercent : c ≠ charPercent
    · simp only [if_pos hpercent] at hrun
      exact (ih hrun).2
    · simp only [if_neg hpercent] at hrun
      rcases bind_eq_ok.mp hrun with ⟨⟨q, s₂⟩, hdirective, hrun⟩
      exact fun a ha => (ih hrun).2 a (printfPercent_reads hdirective ha)

/-- A loop on a complete rest of the format stays inside it, and one on another rest does not. -/
lemma printfLoop_stays_iff (h : StringAt mem p w) (hspace : p + w.length < 2 ^ 32)
    (hn : w.length < n) (hs : ∀ a ∈ s.reads, a ≤ p + w.length) :
    StaysBelow (p + w.length) (printfLoop stack mem n p s) ↔ Complete w := by
  -- on the length of what is left, since a directive takes up to four characters at once
  induction hlen : w.length using Nat.strong_induction_on generalizing w p n s with
  | _ len ih =>
    subst hlen
    obtain ⟨n, rfl⟩ : ∃ m, n = m + 1 := ⟨n - 1, by omega⟩
    have hread : s.read mem p = .ok (mem p, s.note p) := read_eq (by omega) s
    have hnote : ∀ a ∈ (s.note p).reads, a ≤ p + w.length := by
      intro a ha
      rcases Printf.mem_note ha with heq | ha
      · omega
      · exact hs a ha
    rw [printfLoop, hread, ok_bind]
    cases w with
    | nil =>
      simp only [if_pos (stringAt_nil.mp h)]
      exact iff_of_true ⟨s.note p, rfl, hnote⟩ rfl
    | cons c w =>
      rcases h with ⟨hc, hne, h⟩
      rw [List.length_cons] at hspace hn hs hnote ih ⊢
      have hlimit : p + (w.length + 1) = p + 1 + w.length := by omega
      rw [hlimit] at hspace hs hnote ⊢
      simp only [hc, if_neg hne]
      by_cases hpercent : c ≠ charPercent
      · have hstep : FormatState.step .text c = .text := if_neg hpercent
        have hcomplete : Complete (c :: w) ↔ Complete w := by
          rw [Complete, List.foldl_cons, hstep]
          rfl
        rw [if_pos hpercent, hcomplete]
        exact ih w.length (Nat.lt_succ_self _) h hspace (by omega) hnote rfl
      · -- the directive, and the string behind it if the NUL is not part of it
        rw [if_neg hpercent, not_not.mp hpercent, complete_percent]
        rcases @printfPercent_eq stack mem p w h hspace (s.note p) with ⟨s', hs', hreads⟩
        rw [hs', ok_bind]
        have hle := directiveLength_le w
        have hnote' : ∀ a ∈ s'.reads, a ≤ p + 1 + w.length := by
          intro a ha
          rcases hreads a ha with ha | ha
          · exact hnote a ha
          · omega
        -- a directive that the NUL cuts off makes the loop go on behind it
        by_cases hcut : directiveLength w ≤ w.length
        · rw [and_iff_right hcut]
          have hdrop := h.drop hcut
          have hlen := w.length_drop (i := directiveLength w)
          have hend : p + 1 + directiveLength w + (w.drop (directiveLength w)).length =
              p + 1 + w.length := by omega
          rw [← hend] at hnote' ⊢
          rw [show p + directiveLength w + 1 = p + 1 + directiveLength w by omega]
          exact ih _ (by omega) hdrop (by omega) (by omega) hnote' rfl
        · refine iff_of_false ?_ fun hboth => hcut hboth.1
          rintro ⟨s₁, hs₁, hbelow⟩
          have hread := hbelow _ (printfLoop_reads hs₁).1
          omega

/-! ## `printf` -/

variable {fmt : ℕ} {ap : List UInt32} {text : Mem}

/-- **`printf`** ends and stays inside its format, the NUL included, when no directive of the format
is cut short by its end. -/
theorem printf_stays_iff (h : StringAt mem fmt w) (hspace : fmt + w.length < 2 ^ 32) :
    StaysBelow (fmt + w.length) (printf stack mem fmt ap text) ↔ Complete w :=
  printfLoop_stays_iff h hspace (by omega) fun _ ha => absurd ha List.not_mem_nil

/-- `%d` -/
theorem printf_stays_d : StaysBelow (4096 + 2)
    (printf (fun _ => 0) (writeBytes (fun _ => 0) 4096 [0x25, 0x64]) 4096 [7] fun _ => 0) := by
  have hformat : StringAt (writeBytes (fun _ => 0) 4096 [0x25, 0x64]) 4096 [0x25, 0x64] := by
    decide
  exact (printf_stays_iff hformat (by decide)).mpr (by decide)

/-- `%` at the end of the format. -/
theorem printf_leaves_format : ¬ ∀ (stack mem : Mem) (fmt : ℕ) (ap : List UInt32) (text : Mem)
    (w : CString), StringAt mem fmt w → fmt + w.length < 2 ^ 32 →
    StaysBelow (fmt + w.length) (printf stack mem fmt ap text) := by
  intro h
  have hformat : StringAt (writeBytes (fun _ => 0) 4096 [0x25]) 4096 [0x25] := by
    decide
  have hstays := h (fun _ => 0) _ 4096 [] (fun _ => 0) [0x25] hformat (by decide)
  have hcomplete := (printfLoop_stays_iff hformat (by decide) (by decide)
    fun _ ha => absurd ha List.not_mem_nil).mp hstays
  exact absurd hcomplete (by decide)

end MarrowOS
