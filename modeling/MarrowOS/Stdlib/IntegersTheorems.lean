import MarrowOS.Stdlib.SoftwareDivision
import Mathlib.Data.Nat.Digits.Lemmas

/-!
# The numerals that are printed

`udivmod64` divides (`udivmod64_eq`), so `print_ull` writes the digits that `Nat.digits` names, and
`itoa`, which works on the negated value, writes the same ones.
-/

namespace MarrowOS

open ByteMem Fallible

/-! ## Numerals -/

/-- The digits of `n` in a base, the highest one first; none for zero. -/
def digitString (base : ℕ) (upper : Bool) (n : ℕ) : CString :=
  ((Nat.digits base n).map fun d => (digitChars upper).getD d 0).reverse

/-- The numeral of `n` in a base. -/
def natNumeral (base : ℕ) (upper : Bool) (n : ℕ) : CString :=
  if n = 0 then [0x30] else digitString base upper n

/-- The decimal numeral of an integer. -/
def intNumeral (v : ℤ) : CString :=
  if v < 0 then 0x2D :: natNumeral 10 false v.natAbs else natNumeral 10 false v.natAbs

variable {base n loc : ℕ} {upper : Bool} {divmod : ℕ → ℕ × ℕ} {buf : Mem} {w : CString} {v : ℤ}

lemma digitString_zero (base : ℕ) (upper : Bool) : digitString base upper 0 = [] := by
  rw [digitString, Nat.digits_zero]
  rfl

lemma digitString_step (hbase : 1 < base) (hn : 0 < n) : digitString base upper n =
    digitString base upper (n / base) ++ [(digitChars upper).getD (n % base) 0] := by
  rw [digitString, Nat.digits_def' hbase hn, List.map_cons, List.reverse_cons]
  rfl

lemma digitString_length (base : ℕ) (upper : Bool) (n : ℕ) :
    (digitString base upper n).length = (Nat.digits base n).length := by
  rw [digitString, List.length_reverse, List.length_map]

lemma digitChars_ne_zero {d : ℕ} (hd : d < 16) (upper : Bool) :
    (digitChars upper).getD d 0 ≠ 0 := by
  have hall : ∀ upper, ∀ d < 16, (digitChars upper).getD d 0 ≠ 0 := by decide
  exact hall upper d hd

/-- A character in front of a string that stands in a buffer. -/
lemma stringAt_below {c : UInt8} (h : StringAt buf (loc + 1) w) (hc : c ≠ 0) :
    StringAt (Function.update buf loc c) loc (c :: w) := by
  refine ⟨Function.update_self .., hc, h.congr fun x hx _ => ?_⟩
  exact Function.update_of_ne (by omega) _ _

/-- A loop that stores the last digit of what is left in front of the digits behind it, until
nothing is left, writes the digits; `held` is how the loop holds what is left. -/
lemma digitLoop_eq {σ : Type} (loop : ℕ → σ → Mem → Except Fault (ℕ × Mem)) (held : ℕ → σ)
    (hbase : 1 < base) (hbase' : base ≤ 16)
    (hstop : ∀ loc buf, loop loc (held 0) buf = .ok (loc, buf))
    (hstep : ∀ loc m buf, 0 < m → m ≤ n → loop (loc + 1) (held m) buf =
      loop loc (held (m / base)) (Function.update buf loc ((digitChars upper).getD (m % base) 0)))
    (h : StringAt buf loc w) (hfits : (digitString base upper n).length ≤ loc) :
    ∃ buf', loop loc (held n) buf = .ok (loc - (digitString base upper n).length, buf') ∧
      StringAt buf' (loc - (digitString base upper n).length) (digitString base upper n ++ w) := by
  -- on the room in front of `loc`: every digit takes one byte of it
  induction loc generalizing n buf w with
  | zero =>
    by_cases h0 : n = 0
    · rw [h0, digitString_zero]
      exact ⟨buf, hstop 0 buf, h⟩
    · rw [digitString_step hbase (Nat.pos_of_ne_zero h0), List.length_append] at hfits
      exact absurd hfits (Nat.not_succ_le_zero _)
  | succ loc ih =>
    by_cases h0 : n = 0
    · rw [h0, digitString_zero]
      exact ⟨buf, hstop (loc + 1) buf, h⟩
    -- the last digit is stored first
    have hpos := Nat.pos_of_ne_zero h0
    have hdigits := @digitString_step base n upper hbase hpos
    have hsmaller : n / base ≤ n := Nat.div_le_self ..
    have hchar := digitChars_ne_zero ((Nat.mod_lt n (by omega)).trans_le hbase') upper
    have hlength : (digitString base upper n).length =
        (digitString base upper (n / base)).length + 1 := by
      rw [hdigits, List.length_append, List.length_singleton]
    rcases ih (fun loc m buf hm hle => hstep loc m buf hm (hle.trans hsmaller))
      (stringAt_below h hchar) (by omega) with ⟨buf', hloop, hstring⟩
    have hloc : loc + 1 - (digitString base upper n).length =
        loc - (digitString base upper (n / base)).length := by omega
    refine ⟨buf', ?_, ?_⟩
    · rw [hstep loc n buf hpos le_rfl, hloc]
      exact hloop
    · rw [hloc, hdigits, List.append_assoc]
      exact hstring

/-! ## `print_ull` -/

/-- The loop writes the digits in front of what is there. -/
lemma printDigitsLoop_eq (hbase : 1 < base) (hbase' : base ≤ 16)
    (hdivmod : ∀ m ≤ n, divmod m = (m / base, m % base)) (h : StringAt buf loc w)
    (hfits : (digitString base upper n).length ≤ loc) :
    ∃ buf', printDigitsLoop divmod upper loc n buf =
        .ok (loc - (digitString base upper n).length, buf') ∧
      StringAt buf' (loc - (digitString base upper n).length)
        (digitString base upper n ++ w) := by
  have hstop : ∀ loc buf, printDigitsLoop divmod upper loc 0 buf = .ok (loc, buf) := by
    intro loc buf
    cases loc with
    | zero => rfl
    | succ loc => rfl
  refine digitLoop_eq (printDigitsLoop divmod upper) id hbase hbase' hstop
    (fun loc m buf hm hle => ?_) h hfits
  rw [id, id, printDigitsLoop, if_neg hm.ne', hdivmod m hle]

/-- What is printed is the numeral, when the buffer has room for it and its NUL. -/
lemma printDigits_eq {size : ℕ} (hbase : 1 < base) (hbase' : base ≤ 16)
    (hdivmod : ∀ m ≤ n, divmod m = (m / base, m % base))
    (hfits : (digitString base upper n).length < size) (hsize : 1 < size) (buf : Mem) :
    printDigits size divmod upper n buf = .ok (natNumeral base upper n) := by
  have hend : StringAt (Function.update buf (size - 1) 0) (size - 1) [] := Function.update_self ..
  unfold printDigits natNumeral
  by_cases h0 : n = 0
  · obtain ⟨loc, rfl⟩ : ∃ loc, size = loc + 2 := ⟨size - 2, by omega⟩
    have hstring := @stringAt_below loc _ [] 0x30 hend (by decide)
    rw [if_pos h0, if_pos h0]
    refine congrArg Except.ok ((hstring.readString _).trans (List.take_of_length_le ?_))
    show 1 ≤ loc + 2 - loc
    omega
  · rcases printDigitsLoop_eq hbase hbase' hdivmod hend
      (show (digitString base upper n).length ≤ size - 1 by omega) with ⟨buf', hloop, hstring⟩
    rw [List.append_nil] at hstring
    rw [if_neg h0, if_neg h0, hloop]
    refine congrArg Except.ok ((hstring.readString _).trans (List.take_of_length_le ?_))
    show (digitString base upper n).length ≤ size - (size - 1 - (digitString base upper n).length)
    omega

/-- In base 8 there are the most digits. -/
lemma digitString_length_le {k : ℕ} (hbase : 8 ≤ base) (hn : n < 8 ^ k) (upper : Bool) :
    (digitString base upper n).length ≤ k := by
  rw [digitString_length, Nat.digits_length_le_iff (by omega)]
  exact hn.trans_le (Nat.pow_le_pow_left hbase k)

/-- `print_uint` on every `unsigned int`. -/
theorem printUint_eq (hn : n < 2 ^ 32) (hbase : 8 ≤ base) (hbase' : base ≤ 16) (upper : Bool)
    (buf : Mem) : printUint n base upper buf = .ok (natNumeral base upper n) := by
  have hlength := digitString_length_le hbase (hn.trans (by norm_num : 2 ^ 32 < 8 ^ 11)) upper
  exact printDigits_eq (by omega) hbase' (fun _ _ => rfl) (by omega) (by decide) buf

/-- `print_ull` on every `unsigned long long`. -/
theorem printUll_eq (hn : n < 2 ^ 64) (hbase : 8 ≤ base) (hbase' : base ≤ 16) (upper : Bool)
    (buf : Mem) : printUll n base upper buf = .ok (natNumeral base upper n) := by
  have hlength := digitString_length_le hbase (hn.trans (by norm_num : 2 ^ 64 < 8 ^ 22)) upper
  apply printDigits_eq (by omega) hbase' _ (by omega) (by decide)
  intro m hm
  exact udivmod64_eq (by omega) (by omega) (by omega)

/-- `print_ll` on every `long long`, the least one included. -/
theorem printLl_eq (hlo : -2 ^ 63 ≤ v) (hhi : v < 2 ^ 63) (buf : Mem) :
    printLl v buf = .ok (intNumeral v) := by
  unfold printLl intNumeral
  by_cases hneg : v < 0
  · have hnegate : negate 64 (v + 1) = .ok (-(v + 1)) := if_neg (by omega)
    have huval : u64 ((-(v + 1)).toNat + 1) = v.natAbs := by
      rw [u64, Nat.mod_eq_of_lt (by omega)]
      omega
    have hprint := @printUll_eq 10 v.natAbs (by omega) (by decide) (by decide) false buf
    rw [if_pos hneg, if_pos hneg, hnegate, ok_bind, huval]
    simp only [hprint, ok_bind, pure_eq_ok]
  · have habs : v.natAbs = v.toNat := by omega
    rw [if_neg hneg, if_neg hneg, habs]
    exact printUll_eq (by omega) (by decide) (by decide) false buf

/-! ## `itoa` -/

/-- The digit of a negated value. -/
lemma itoa_digit (n : ℕ) : UInt8.ofInt (0x30 - (-(n : ℤ)).tmod 10) =
    (digitChars false).getD (n % 10) 0 := by
  have hmod : (-(n : ℤ)).tmod 10 = -((n % 10 : ℕ) : ℤ) := by
    rw [Int.neg_tmod]
    rfl
  have hall : ∀ d < 10, UInt8.ofInt (0x30 - -((d : ℕ) : ℤ)) = (digitChars false).getD d 0 := by
    decide
  rw [hmod]
  exact hall (n % 10) (Nat.mod_lt n (by decide))

/-- The loop, on the negated value, writes the digits of the value. -/
lemma itoaLoop_eq (h : StringAt buf loc w) (hfits : (digitString 10 false n).length ≤ loc) :
    ∃ buf', itoaLoop loc (-n) buf = .ok (loc - (digitString 10 false n).length, buf') ∧
      StringAt buf' (loc - (digitString 10 false n).length) (digitString 10 false n ++ w) := by
  have hstop : ∀ loc buf, itoaLoop loc (-((0 : ℕ) : ℤ)) buf = .ok (loc, buf) := by
    intro loc buf
    cases loc with
    | zero => rfl
    | succ loc => rfl
  refine @digitLoop_eq 10 n loc false buf w ℤ itoaLoop (fun n => -(n : ℤ)) (by decide) (by decide) hstop
    (fun loc m buf hm _ => ?_) h hfits
  have hdiv : (-(m : ℤ)).tdiv 10 = -((m / 10 : ℕ) : ℤ) := by
    rw [Int.neg_tdiv]
    rfl
  rw [itoaLoop, if_neg (by omega), itoa_digit, hdiv]

/-- The loop with the zero behind it writes the numeral, and leaves room for a sign. -/
lemma itoaDigits_eq (hn : n < 10 ^ 10) (text : Mem) :
    ∃ loc text', itoaDigits (-n) (Function.update text 11 0) = .ok (loc + 1, text') ∧
      loc + 1 + (natNumeral 10 false n).length = 11 ∧
      StringAt text' (loc + 1) (natNumeral 10 false n) := by
  have hend : StringAt (Function.update text 11 0) 11 [] := Function.update_self ..
  unfold natNumeral itoaDigits
  by_cases h0 : n = 0
  · rw [if_pos h0, h0]
    exact ⟨9, _, rfl, rfl, stringAt_below hend (by decide)⟩
  · have hlength : (digitString 10 false n).length ≤ 10 := by
      rw [digitString_length, Nat.digits_length_le_iff (by decide)]
      exact hn
    have hpos : 0 < (digitString 10 false n).length := by
      rw [digitString_step (by decide) (Nat.pos_of_ne_zero h0), List.length_append]
      exact Nat.succ_pos _
    rcases itoaLoop_eq hend (hlength.trans (by decide)) with ⟨text', hloop, hstring⟩
    rw [List.append_nil] at hstring
    have hloc : 11 - (digitString 10 false n).length =
        10 - (digitString 10 false n).length + 1 := by omega
    rw [hloc] at hloop hstring
    rw [if_neg h0, hloop, ok_bind]
    exact ⟨_, text', if_neg (by show ¬ _ = 11; omega), by omega, hstring⟩

/-- `itoa` on every `int`: nothing overflows, and no store leaves the buffer. -/
theorem itoa_eq (hlo : -2 ^ 31 ≤ v) (hhi : v < 2 ^ 31) (text : Mem) :
    ∃ loc text', itoa v text = .ok (loc, text') ∧ loc + (intNumeral v).length = 11 ∧
      StringAt text' loc (intNumeral v) := by
  have hnegated : (-(v.natAbs : ℤ)) = if v ≥ 0 then -v else v := by
    split <;> omega
  rcases itoaDigits_eq (show v.natAbs < 10 ^ 10 by omega) text with
    ⟨loc, text', hdigits, hlength, hstring⟩
  rw [hnegated] at hdigits
  unfold intNumeral
  unfold itoa
  by_cases hneg : v ≥ 0
  · have hnegate : negate 32 v = .ok (-v) := if_neg (by omega)
    have hpos : ¬ v < 0 := by omega
    rw [if_pos hneg] at hdigits
    rw [if_neg hpos]
    refine ⟨loc + 1, text', ?_, hlength, hstring⟩
    rw [if_pos hneg, hnegate, ok_bind]
    exact hdigits
  · have hlt : v < 0 := by omega
    rw [if_neg hneg] at hdigits
    rw [if_pos hlt]
    refine ⟨loc, Function.update text' loc 0x2D, ?_, ?_, stringAt_below hstring (by decide)⟩
    · rw [if_neg hneg, hdigits]
      rfl
    · rw [List.length_cons]
      omega

/-- **Integer printing.** `itoa` turns every `int` into its decimal numeral, with no overflow and no
store outside its buffer, and `print_ll` prints the same characters. -/
theorem itoa_eq_printLl (hlo : -2 ^ 31 ≤ v) (hhi : v < 2 ^ 31) (text buf : Mem) :
    ∃ loc text', itoa v text = .ok (loc, text') ∧ loc + (intNumeral v).length = 11 ∧
      StringAt text' loc (intNumeral v) ∧ printLl v buf = .ok (intNumeral v) := by
  rcases itoa_eq hlo hhi text with ⟨loc, text', hitoa, hlength, hstring⟩
  exact ⟨loc, text', hitoa, hlength, hstring, printLl_eq (by omega) (by omega) buf⟩

/-- The least `int`. -/
theorem itoa_eq_printLl_min : ∃ loc text', itoa (-2 ^ 31) (fun _ => 0) = .ok (loc, text') ∧
    loc + (intNumeral (-2 ^ 31)).length = 11 ∧ StringAt text' loc (intNumeral (-2 ^ 31)) ∧
      printLl (-2 ^ 31) (fun _ => 0) = .ok (intNumeral (-2 ^ 31)) :=
  itoa_eq_printLl (by decide) (by decide) (fun _ => 0) (fun _ => 0)

end MarrowOS
