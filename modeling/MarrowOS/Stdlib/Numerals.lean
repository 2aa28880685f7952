import MarrowOS.Stdlib.IntegersTheorems

/-!
# What a printed numeral is worth

A numeral is judged here as a reader does: every character is a digit of the base, and the value is
summed up from the left. There is one string of digits with a given value and no leading zero
(`IsNumeral.unique`), and it is the one that `print_uint`, `print_ull` and `print_ll` emit.
-/

namespace MarrowOS

open ByteMem

/-! ## Reading a numeral -/

/-- What a character is worth as a digit; those above nine are letters of one case. -/
def digitValue (upper : Bool) (c : UInt8) : Option ℕ :=
  let letter := if upper then 0x41 else 0x61
  if 0x30 ≤ c.toNat ∧ c.toNat ≤ 0x39 then some (c.toNat - 0x30)
  else if letter ≤ c.toNat ∧ c.toNat < letter + 6 then some (c.toNat - letter + 10)
  else none

/-- The value of a string of digits, the highest one first. -/
def numeralValue (base : ℕ) (upper : Bool) (s : CString) : ℕ :=
  s.foldl (fun v c => v * base + (digitValue upper c).getD 0) 0

/-- The string consists of digits of the base, is worth `n`, and starts with a zero only where that
is all of it. -/
structure IsNumeral (base : ℕ) (upper : Bool) (s : CString) (n : ℕ) : Prop where
  nonempty : s ≠ []
  digits : ∀ c ∈ s, ∃ d < base, digitValue upper c = some d
  value : numeralValue base upper s = n
  leading : s.head? = some 0x30 → s = [0x30]

/-- The decimal numeral of an integer, with a sign where it is negative. -/
def IsIntNumeral (s : CString) (v : ℤ) : Prop :=
  if v < 0 then ∃ t, s = 0x2D :: t ∧ IsNumeral 10 false t v.natAbs
  else IsNumeral 10 false s v.natAbs

variable {base n d : ℕ} {upper : Bool} {c : UInt8} {s t : CString} {v : ℤ} {buf : Mem}

lemma numeralValue_concat (base : ℕ) (upper : Bool) (s : CString) (c : UInt8) :
    numeralValue base upper (s ++ [c]) =
      numeralValue base upper s * base + (digitValue upper c).getD 0 := by
  unfold numeralValue
  rw [List.foldl_append]
  rfl

lemma digitValue_zero (upper : Bool) : digitValue upper 0x30 = some 0 := rfl

lemma digitValue_digitChars (hd : d < 16) (upper : Bool) :
    digitValue upper ((digitChars upper).getD d 0) = some d := by
  have hall : ∀ upper, ∀ d < 16, digitValue upper ((digitChars upper).getD d 0) = some d := by
    decide
  exact hall upper d hd

/-- Two characters of one value are the same digit. -/
lemma digitValue_inj {c' : UInt8} (h : digitValue upper c = some d)
    (h' : digitValue upper c' = some d) : c = c' := by
  have hcode : ∀ c, digitValue upper c = some d →
      c.toNat = if d < 10 then 0x30 + d else (if upper then 0x41 else 0x61) + (d - 10) := by
    intro c hc
    simp only [digitValue] at hc
    split_ifs at hc with hdigit hletter hletter
    all_goals
      have hd := Option.some.inj hc
      split_ifs
      all_goals omega
  apply UInt8.toNat_inj.mp
  rw [hcode c h, hcode c' h']

lemma eq_digitChars (hd : d < 16) (h : digitValue upper c = some d) :
    c = (digitChars upper).getD d 0 :=
  digitValue_inj h (digitValue_digitChars hd upper)

/-! ## The printed numerals -/

lemma digitString_ne_nil (hbase : 1 < base) (hn : 0 < n) : digitString base upper n ≠ [] := by
  rw [digitString_step hbase hn]
  exact List.concat_ne_nil _ _

/-- The digits are those of the base, and their value is the number. -/
lemma digitString_value (hbase : 1 < base) (hbase' : base ≤ 16) (upper : Bool) (n : ℕ) :
    (∀ c ∈ digitString base upper n, ∃ d < base, digitValue upper c = some d) ∧
      numeralValue base upper (digitString base upper n) = n := by
  induction n using Nat.strong_induction_on with
  | _ n ih =>
    by_cases h0 : n = 0
    · rw [h0, digitString_zero]
      exact ⟨fun c hc => absurd hc List.not_mem_nil, rfl⟩
    -- the last digit is the remainder, the ones before it are the quotient's
    have hpos := Nat.pos_of_ne_zero h0
    have hrem := Nat.mod_lt n (by omega : 0 < base)
    have hlast := digitValue_digitChars (hrem.trans_le hbase') upper
    rcases ih (n / base) (Nat.div_lt_self hpos hbase) with ⟨hdigits, hvalue⟩
    rw [digitString_step hbase hpos]
    constructor
    · intro c hc
      rcases List.mem_append.mp hc with hc | hc
      · exact hdigits c hc
      · rw [List.mem_singleton.mp hc]
        exact ⟨n % base, hrem, hlast⟩
    · rw [numeralValue_concat, hvalue, hlast]
      exact Nat.div_add_mod' n base

/-- The first digit of a positive number is not a zero. -/
lemma digitString_head (hbase : 1 < base) (hbase' : base ≤ 16) (upper : Bool) (hn : 0 < n) :
    (digitString base upper n).head? ≠ some 0x30 := by
  induction n using Nat.strong_induction_on with
  | _ n ih =>
    rw [digitString_step hbase hn]
    by_cases hq : n / base = 0
    · -- the number is a digit
      have hsmall : n < base := (Nat.div_eq_zero_iff.mp hq).resolve_left (by omega)
      rw [hq, digitString_zero, Nat.mod_eq_of_lt hsmall]
      intro hzero
      have hvalue := digitValue_digitChars (hsmall.trans_le hbase') upper
      rw [Option.some.inj hzero, digitValue_zero] at hvalue
      exact absurd (Option.some.inj hvalue) (by omega)
    · have hpos := Nat.pos_of_ne_zero hq
      rw [List.head?_append_of_ne_nil _ (digitString_ne_nil hbase hpos)]
      exact ih (n / base) (Nat.div_lt_self hn hbase) hpos

/-- What is printed is a numeral of the number. -/
theorem isNumeral_natNumeral (hbase : 1 < base) (hbase' : base ≤ 16) (upper : Bool) (n : ℕ) :
    IsNumeral base upper (natNumeral base upper n) n := by
  unfold natNumeral
  by_cases h0 : n = 0
  · have hvalue : numeralValue base upper [0x30] = 0 := by
      rw [numeralValue, List.foldl_cons, List.foldl_nil, Nat.zero_mul]
      rfl
    rw [if_pos h0, h0]
    refine ⟨List.cons_ne_nil _ _, ?_, hvalue, fun _ => rfl⟩
    intro c hc
    rw [List.mem_singleton.mp hc]
    exact ⟨0, by omega, digitValue_zero upper⟩
  · have hpos := Nat.pos_of_ne_zero h0
    rcases digitString_value hbase hbase' upper n with ⟨hdigits, hvalue⟩
    rw [if_neg h0]
    exact ⟨digitString_ne_nil hbase hpos, hdigits, hvalue,
      fun h => absurd h (digitString_head hbase hbase' upper hpos)⟩

/-- A number has one numeral in a base. -/
theorem IsNumeral.eq_natNumeral (hbase : 1 < base) (hbase' : base ≤ 16)
    (h : IsNumeral base upper s n) : s = natNumeral base upper n := by
  -- on the string, from its last digit on
  induction s using List.reverseRecOn generalizing n with
  | nil => exact absurd rfl h.nonempty
  | append_singleton t c ih =>
    rcases h.digits c (List.mem_append_right _ List.mem_cons_self) with ⟨d, hd, hc⟩
    have hchar := eq_digitChars (hd.trans_le hbase') hc
    have hvalue := h.value
    rw [numeralValue_concat, hc, Option.getD_some] at hvalue
    have hsplit : n / base = numeralValue base upper t ∧ n % base = d := by
      apply (Nat.div_mod_unique (by omega)).mpr
      exact ⟨by rw [Nat.mul_comm, Nat.add_comm]; exact hvalue, hd⟩
    rcases hsplit with ⟨hdiv, hmod⟩
    by_cases ht : t = []
    · -- one digit
      have hdiv0 : n / base = 0 := by rw [hdiv, ht]; rfl
      have hsmall : n < base := (Nat.div_eq_zero_iff.mp hdiv0).resolve_left (by omega)
      rw [Nat.mod_eq_of_lt hsmall] at hmod
      unfold natNumeral
      by_cases h0 : n = 0
      · rw [if_pos h0, ht, hchar, ← hmod, h0]
        cases upper <;> rfl
      · rw [if_neg h0, digitString_step hbase (Nat.pos_of_ne_zero h0), hdiv0, digitString_zero, ht,
          Nat.mod_eq_of_lt hsmall, hchar, hmod]
    · -- the digits before the last one are the numeral of the quotient, which is not zero
      have hhead : (t ++ [c]).head? = t.head? := List.head?_append_of_ne_nil _ ht
      have hno : t.head? ≠ some 0x30 := by
        intro hzero
        have hlength := congrArg List.length (h.leading (hhead.trans hzero))
        rw [List.length_append, List.length_singleton, List.length_singleton] at hlength
        exact ht (List.length_eq_zero_iff.mp (by omega))
      have hquot : IsNumeral base upper t (n / base) :=
        ⟨ht, fun c hc => h.digits c (List.mem_append_left _ hc), hdiv.symm,
          fun hzero => absurd hzero hno⟩
      have hinit := ih hquot
      have hq : n / base ≠ 0 := by
        intro hq
        rw [natNumeral, if_pos hq] at hinit
        exact hno (by rw [hinit]; rfl)
      have h0 : n ≠ 0 := by
        intro h0
        rw [h0, Nat.zero_div] at hq
        exact hq rfl
      rw [natNumeral, if_neg hq] at hinit
      rw [natNumeral, if_neg h0, digitString_step hbase (Nat.pos_of_ne_zero h0), ← hinit, hmod,
        hchar]

theorem IsNumeral.unique (hbase : 1 < base) (hbase' : base ≤ 16) (h : IsNumeral base upper s n)
    (h' : IsNumeral base upper t n) : s = t := by
  rw [h.eq_natNumeral hbase hbase', h'.eq_natNumeral hbase hbase']

/-- The decimal numeral of an integer is `intNumeral`, and no other string. -/
theorem isIntNumeral_iff : IsIntNumeral s v ↔ s = intNumeral v := by
  have hdecimal := isNumeral_natNumeral (by decide) (by decide : 10 ≤ 16) false v.natAbs
  unfold IsIntNumeral intNumeral
  by_cases hneg : v < 0
  · rw [if_pos hneg, if_pos hneg]
    constructor
    · rintro ⟨t, hs, ht⟩
      rw [hs, ht.eq_natNumeral (by decide) (by decide)]
    · intro hs
      exact ⟨_, hs, hdecimal⟩
  · rw [if_neg hneg, if_neg hneg]
    constructor
    · intro hs
      exact hs.eq_natNumeral (by decide) (by decide)
    · intro hs
      rw [hs]
      exact hdecimal

/-- The digits of a number below `8 ^ k`, in base 8 or a larger one. -/
lemma natNumeral_length_le {k : ℕ} (hbase : 8 ≤ base) (hn : n < 8 ^ k) (hk : 0 < k)
    (upper : Bool) : (natNumeral base upper n).length ≤ k := by
  unfold natNumeral
  split
  · exact hk
  · exact digitString_length_le hbase hn upper

/-- **Radix printing.** In base 8, 10 and 16, `print_uint` emits the numeral of every `unsigned int`
and `print_ull` that of every `unsigned long long`: digits of the base, worth the value, with no
leading zero but for the value zero. With its NUL the numeral has room in the buffer, below which
nothing is stored. `print_ll` emits the one decimal numeral of every `long long`. -/
theorem radix_printing (hbase : base ∈ [8, 10, 16]) (upper : Bool) (buf : Mem) :
    (∀ n < 2 ^ 32, ∃ s, printUint n base upper buf = .ok s ∧ IsNumeral base upper s n ∧
      s.length + 1 ≤ 16) ∧
    (∀ n < 2 ^ 64, ∃ s, printUll n base upper buf = .ok s ∧ IsNumeral base upper s n ∧
      s.length + 1 ≤ 24) ∧
    ∀ v : ℤ, -2 ^ 63 ≤ v → v < 2 ^ 63 → ∃ s, printLl v buf = .ok s ∧ IsIntNumeral s v ∧
      ∀ t, IsIntNumeral t v → t = s := by
  have hlo : 8 ≤ base ∧ base ≤ 16 := by
    simp only [List.mem_cons, List.not_mem_nil, or_false] at hbase
    omega
  rcases hlo with ⟨hlo, hhi⟩
  have hnumeral := @isNumeral_natNumeral base (by omega) hhi upper
  refine ⟨fun n hn => ?_, fun n hn => ?_, fun v hv hv' => ?_⟩
  · -- 32 bits are 11 octal digits
    have hlength := natNumeral_length_le hlo (hn.trans (by norm_num : 2 ^ 32 < 8 ^ 11))
      (by decide) upper
    exact ⟨_, printUint_eq hn hlo hhi upper buf, hnumeral n, by omega⟩
  · -- and 64 bits are 22
    have hlength := natNumeral_length_le hlo (hn.trans (by norm_num : 2 ^ 64 < 8 ^ 22))
      (by decide) upper
    exact ⟨_, printUll_eq hn hlo hhi upper buf, hnumeral n, by omega⟩
  · refine ⟨_, printLl_eq hv hv' buf, isIntNumeral_iff.mpr rfl, fun t ht => ?_⟩
    exact isIntNumeral_iff.mp ht

/-- In base 8 the numerals are the longest. -/
theorem radix_printing_octal :
    (∀ n < 2 ^ 32, ∃ s, printUint n 8 false (fun _ => 0) = .ok s ∧ IsNumeral 8 false s n ∧
      s.length + 1 ≤ 16) ∧
    (∀ n < 2 ^ 64, ∃ s, printUll n 8 false (fun _ => 0) = .ok s ∧ IsNumeral 8 false s n ∧
      s.length + 1 ≤ 24) ∧
    ∀ v : ℤ, -2 ^ 63 ≤ v → v < 2 ^ 63 → ∃ s, printLl v (fun _ => 0) = .ok s ∧ IsIntNumeral s v ∧
      ∀ t, IsIntNumeral t v → t = s :=
  radix_printing (by decide) false (fun _ => 0)

end MarrowOS
