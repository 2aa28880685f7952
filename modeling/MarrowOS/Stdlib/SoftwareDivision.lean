import MarrowOS.Stdlib.Integers

/-!
# Division in software (`udivmod64`)

`udivmod64` takes the bits of `n` from the highest one down, as one divides by hand. After `k` of
the 64 iterations the `k` highest bits of `n` are divided (`udivmod64After_eq`): their remainder is
below `d`, which has 32 bits, so that shifting it loses nothing.
-/

namespace MarrowOS

/-! ## The iterations one by one -/

/-- The body of the loop of `udivmod64`, for bit `i`. -/
def udivmod64Step (n d i q r : ℕ) : ℕ × ℕ :=
  let r := u64 (r <<< 1) ||| ((n >>> i) &&& 1)
  if r ≥ d then (q ||| u64 (1 <<< i), r - d) else (q, r)

/-- `q` and `r` after the first `k` iterations. -/
def udivmod64After (n d : ℕ) : (k : ℕ) → ℕ × ℕ
  | 0 => (0, 0)
  | k + 1 =>
    let (q, r) := udivmod64After n d k
    udivmod64Step n d (63 - k) q r

variable {n d i k m q r : ℕ}

lemma udivmod64Loop_succ (n d i q r : ℕ) : udivmod64Loop n d (i + 1) q r =
    udivmod64Loop n d i (udivmod64Step n d i q r).1 (udivmod64Step n d i q r).2 := by
  rw [udivmod64Loop, udivmod64Step]
  by_cases h : u64 (r <<< 1) ||| ((n >>> i) &&& 1) ≥ d
  · simp only [if_pos h]
  · simp only [if_neg h]

/-- The loop goes on from where `k` iterations end. -/
lemma udivmod64Loop_after (n d : ℕ) : ∀ k ≤ 64,
    udivmod64Loop n d (64 - k) (udivmod64After n d k).1 (udivmod64After n d k).2 =
      udivmod64Loop n d 64 0 0 := by
  intro k
  induction k with
  | zero =>
    intro _
    rfl
  | succ k ih =>
    intro hk
    have hleft : 64 - k = 63 - k + 1 := by omega
    have hnext : 64 - (k + 1) = 63 - k := by omega
    rw [← ih (by omega), hleft, udivmod64Loop_succ, hnext]
    rfl

/-- The loop is its 64 iterations. -/
lemma udivmod64Loop_eq_after (n d : ℕ) : udivmod64Loop n d 64 0 0 = udivmod64After n d 64 :=
  (udivmod64Loop_after n d 64 le_rfl).symm

/-! ## What an iteration does -/

/-- One step of a division from the highest bit on. -/
lemma div_mod_two_mul_add (hd : 0 < d) (m b : ℕ) (hb : b ≤ 1) :
    (d ≤ 2 * (m % d) + b → (2 * m + b) / d = 2 * (m / d) + 1 ∧
      (2 * m + b) % d = 2 * (m % d) + b - d) ∧
    (2 * (m % d) + b < d → (2 * m + b) / d = 2 * (m / d) ∧
      (2 * m + b) % d = 2 * (m % d) + b) := by
  have hsplit := Nat.div_add_mod m d
  have hlt := Nat.mod_lt m hd
  constructor
  · intro hge
    apply (Nat.div_mod_unique hd).mpr
    refine ⟨?_, by omega⟩
    have hprod : d * (2 * (m / d) + 1) = 2 * (d * (m / d)) + d := by ring
    omega
  · intro hsmall
    apply (Nat.div_mod_unique hd).mpr
    refine ⟨?_, hsmall⟩
    have hprod : d * (2 * (m / d)) = 2 * (d * (m / d)) := by ring
    omega

/-- The partial remainder is shifted, and the next bit goes into the gap. -/
lemma shifted_or_bit (hr : r < 2 ^ 32) (b : ℕ) :
    u64 (r <<< 1) ||| (b &&& 1) = 2 * r + b % 2 := by
  have hone : b % 2 < 2 ^ 1 := Nat.mod_lt _ (by decide)
  have hor := Nat.two_pow_add_eq_or_of_lt hone r
  have hshift : u64 (r <<< 1) = 2 ^ 1 * r := by
    rw [Nat.shiftLeft_eq, u64, Nat.mod_eq_of_lt (by omega), Nat.mul_comm]
  rw [hshift, Nat.and_one_is_mod, ← hor, pow_one]

/-- A quotient bit is below those that were found. -/
lemma quotient_or_bit (hi : i < 64) (q : ℕ) :
    (q * 2 ^ (i + 1)) ||| u64 (1 <<< i) = (2 * q + 1) * 2 ^ i := by
  have hlow : 2 ^ i < 2 ^ (i + 1) := Nat.pow_lt_pow_right (by decide) (Nat.lt_succ_self i)
  have hor := Nat.two_pow_add_eq_or_of_lt hlow q
  have hfits : 2 ^ i < 2 ^ 64 := Nat.pow_lt_pow_right (by decide) hi
  rw [Nat.one_shiftLeft, u64, Nat.mod_eq_of_lt hfits, Nat.mul_comm, ← hor]
  ring

/-- When the bits above `i` are divided, the iteration divides bit `i` as well. -/
lemma udivmod64Step_eq (hd : 0 < d) (hd' : d < 2 ^ 32) (hi : i < 64) :
    udivmod64Step n d i ((n >>> (i + 1)) / d * 2 ^ (i + 1)) ((n >>> (i + 1)) % d) =
      ((n >>> i) / d * 2 ^ i, (n >>> i) % d) := by
  have hhalf : n >>> (i + 1) = n >>> i / 2 := Nat.shiftRight_succ n i
  have hbit : n >>> i = 2 * (n >>> (i + 1)) + n >>> i % 2 := by
    rw [hhalf]
    omega
  generalize n >>> (i + 1) = m at hbit ⊢
  have hrem := Nat.mod_lt m hd
  rcases div_mod_two_mul_add hd m (n >>> i % 2) (by omega) with ⟨hge, hsmall⟩
  rw [← hbit] at hge hsmall
  rw [udivmod64Step, shifted_or_bit (hrem.trans hd')]
  by_cases h : d ≤ 2 * (m % d) + n >>> i % 2
  · rcases hge h with ⟨hdiv, hmod⟩
    simp only [ge_iff_le, if_pos h]
    rw [quotient_or_bit hi, ← hdiv, ← hmod]
  · rcases hsmall (by omega) with ⟨hdiv, hmod⟩
    have hdouble : m / d * 2 ^ (i + 1) = 2 * (m / d) * 2 ^ i := by ring
    simp only [ge_iff_le, if_neg h]
    rw [hdouble, ← hdiv, ← hmod]

/-- After `k` iterations the `k` highest bits are divided. -/
theorem udivmod64After_eq (hn : n < 2 ^ 64) (hd : 0 < d) (hd' : d < 2 ^ 32) : ∀ k ≤ 64,
    udivmod64After n d k = ((n >>> (64 - k)) / d * 2 ^ (64 - k), (n >>> (64 - k)) % d) := by
  intro k
  induction k with
  | zero =>
    intro _
    rw [Nat.sub_zero, Nat.shiftRight_eq_div_pow, Nat.div_eq_of_lt hn, Nat.zero_div, Nat.zero_mod,
      Nat.zero_mul]
    rfl
  | succ k ih =>
    intro hk
    have hleft : 64 - k = 63 - k + 1 := by omega
    have hnext : 64 - (k + 1) = 63 - k := by omega
    rw [udivmod64After, ih (by omega), hleft, hnext]
    exact udivmod64Step_eq hd hd' (by omega)

/-- `udivmod64` divides. -/
theorem udivmod64_eq (hn : n < 2 ^ 64) (hd : 0 < d) (hd' : d < 2 ^ 32) :
    udivmod64 n d = (n / d, n % d) := by
  have hloop := udivmod64After_eq hn hd hd' 64 le_rfl
  rw [Nat.sub_self, Nat.shiftRight_zero, pow_zero, mul_one] at hloop
  have hrem := Nat.mod_lt n hd
  rw [udivmod64, udivmod64Loop_eq_after, hloop]
  exact Prod.ext rfl (Nat.mod_eq_of_lt (by omega))

/-- The partial remainder is below the divisor at the end of every iteration. -/
lemma udivmod64After_lt (hn : n < 2 ^ 64) (hd : 0 < d) (hd' : d < 2 ^ 32) (hk : k ≤ 64) :
    (udivmod64After n d k).2 < d := by
  rw [udivmod64After_eq hn hd hd' k hk]
  exact Nat.mod_lt _ hd

/-- **Software division.** For every `unsigned long long` and every positive `unsigned int`,
`udivmod64` gives the quotient and the remainder. Its loop passes through the states of
`udivmod64After`: the partial remainder is below the divisor after each iteration, and the shift at
the start of the next one drops no bit. -/
theorem udivmod64_divides (hn : n < 2 ^ 64) (hd : 0 < d) (hd' : d < 2 ^ 32) :
    udivmod64 n d = (n / d, n % d) ∧
      (∀ k ≤ 64, udivmod64Loop n d 64 0 0 =
        udivmod64Loop n d (64 - k) (udivmod64After n d k).1 (udivmod64After n d k).2) ∧
      (∀ k ≤ 64, (udivmod64After n d k).2 < d) ∧
      ∀ k < 64, (udivmod64After n d k).2 <<< 1 < 2 ^ 64 := by
  refine ⟨udivmod64_eq hn hd hd', ?_, ?_, ?_⟩
  · intro k hk
    exact (udivmod64Loop_after n d k hk).symm
  · intro k hk
    exact udivmod64After_lt hn hd hd' hk
  · intro k hk
    have hrem := udivmod64After_lt hn hd hd' (Nat.le_of_lt hk)
    rw [Nat.shiftLeft_eq]
    omega

/-- The largest dividend over ten. -/
theorem udivmod64_divides_max :
    udivmod64 (2 ^ 64 - 1) 10 = ((2 ^ 64 - 1) / 10, (2 ^ 64 - 1) % 10) ∧
      (∀ k ≤ 64, udivmod64Loop (2 ^ 64 - 1) 10 64 0 0 = udivmod64Loop (2 ^ 64 - 1) 10 (64 - k)
        (udivmod64After (2 ^ 64 - 1) 10 k).1 (udivmod64After (2 ^ 64 - 1) 10 k).2) ∧
      (∀ k ≤ 64, (udivmod64After (2 ^ 64 - 1) 10 k).2 < 10) ∧
      ∀ k < 64, (udivmod64After (2 ^ 64 - 1) 10 k).2 <<< 1 < 2 ^ 64 :=
  udivmod64_divides (by decide) (by decide) (by decide)

end MarrowOS
