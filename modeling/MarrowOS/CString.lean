import Mathlib.Data.Nat.Notation
import Mathlib.Data.Int.Notation
import Mathlib.Tactic.Lemma

/-!
# C strings (`string.c`)

A C string is the list of its bytes before the terminating NUL; reading past the end of the
list reads NUL.
-/

namespace MarrowOS

/-- The bytes of a C string, without the NUL. -/
abbrev CString := List UInt8

def tolower (s1 : UInt8) : UInt8 := if 65 ≤ s1 ∧ s1 ≤ 90 then s1 + 32 else s1

/-- The comparison loop, on the bytes that are left. -/
def istrncmp : (s1 s2 : CString) → (n : ℕ) → ℤ
  | _, _, 0 => 0
  | s1, s2, n + 1 =>
    let u1 := s1.headD 0
    let u2 := s2.headD 0
    if u1 ≠ u2 ∧ tolower u1 ≠ tolower u2 then u1.toNat - u2.toNat
    else if u1 = 0 then 0
    else istrncmp s1.tail s2.tail n

def strncmp : (str1 str2 : CString) → (n : ℕ) → ℤ
  | _, _, 0 => 0
  | str1, str2, n + 1 =>
    let u1 := str1.headD 0
    let u2 := str2.headD 0
    if u1 ≠ u2 then u1.toNat - u2.toNat
    else if u1 = 0 then 0
    else strncmp str1.tail str2.tail n

def strlen : (ptr : CString) → ℕ
  | [] => 0
  | c :: ptr => if c ≠ 0 then strlen ptr + 1 else 0

def strnlen : (ptr : CString) → (max : ℕ) → ℕ
  | _, 0 => 0
  | ptr, max + 1 => if ptr.headD 0 = 0 then 0 else strnlen ptr.tail max + 1

/-- `memcmp` on two buffers, of which the bytes up to `count` are used. -/
def memcmp : (s1 s2 : List UInt8) → (count : ℕ) → ℤ
  | _, _, 0 => 0
  | s1, s2, count + 1 =>
    let c1 := (s1.headD 0).toInt8
    let c2 := (s2.headD 0).toInt8
    if c1 ≠ c2 then if c1 < c2 then -1 else 1
    else memcmp s1.tail s2.tail count

def isDigit (c : UInt8) : Bool := 48 ≤ c.toInt8 && c.toInt8 ≤ 57

def tonumericdigit (c : UInt8) : ℤ := c.toInt8.toInt - 48

/-! ## Comparison -/

lemma tolower_ne_zero {b : UInt8} (hb : b ≠ 0) : tolower b ≠ 0 := by
  unfold tolower
  split
  · rename_i hrange
    obtain ⟨hge, hle⟩ := hrange
    intro hzero
    have hsum := congrArg UInt8.toNat hzero
    rw [UInt8.le_iff_toNat_le] at hge hle
    rw [UInt8.toNat_add] at hsum
    simp only [UInt8.toNat_ofNat] at hge hle hsum
    omega
  · exact hb

lemma istrncmp_cons_cons (a b : UInt8) (s1 s2 : CString) (n : ℕ) :
    istrncmp (a :: s1) (b :: s2) (n + 1) =
      if a ≠ b ∧ tolower a ≠ tolower b then (a.toNat : ℤ) - b.toNat
      else if a = 0 then 0 else istrncmp s1 s2 n := rfl

lemma istrncmp_cons_nil {a : UInt8} (ha : a ≠ 0) (s1 : CString) (n : ℕ) :
    istrncmp (a :: s1) [] (n + 1) ≠ 0 := by
  have hstep : istrncmp (a :: s1) [] (n + 1) = if a ≠ 0 ∧ tolower a ≠ 0 then (a.toNat : ℤ) - 0
    else if a = 0 then 0 else istrncmp s1 [] n := rfl
  have hnat : a.toNat ≠ 0 := fun h => ha (UInt8.toNat_inj.mp h)
  rw [hstep, if_pos ⟨ha, tolower_ne_zero ha⟩]
  omega

lemma istrncmp_nil_cons {b : UInt8} (hb : b ≠ 0) (s2 : CString) (n : ℕ) :
    istrncmp [] (b :: s2) (n + 1) ≠ 0 := by
  have hstep : istrncmp [] (b :: s2) (n + 1) = if 0 ≠ b ∧ 0 ≠ tolower b then 0 - (b.toNat : ℤ)
    else if (0 : UInt8) = 0 then 0 else istrncmp [] s2 n := rfl
  have hnat : b.toNat ≠ 0 := fun h => hb (UInt8.toNat_inj.mp h)
  rw [hstep, if_pos ⟨hb.symm, (tolower_ne_zero hb).symm⟩]
  omega

/-- Strings compare equal when their first `n` bytes agree up to case. -/
theorem istrncmp_eq_zero_iff_take :
    ∀ {s1 s2 : CString} {n : ℕ}, 0 ∉ s1 → 0 ∉ s2 →
      (istrncmp s1 s2 n = 0 ↔ (s1.take n).map tolower = (s2.take n).map tolower)
  | _, _, 0, _, _ => iff_of_true rfl (by rw [List.take_zero, List.take_zero])
  | [], [], _ + 1, _, _ => iff_of_true rfl rfl
  | [], b :: s2, n + 1, _, h2 => by
    have hb : b ≠ 0 := fun h => h2 (h ▸ List.mem_cons_self)
    exact iff_of_false (istrncmp_nil_cons hb s2 n) (by simp)
  | a :: s1, [], n + 1, h1, _ => by
    have ha : a ≠ 0 := fun h => h1 (h ▸ List.mem_cons_self)
    exact iff_of_false (istrncmp_cons_nil ha s1 n) (by simp)
  | a :: s1, b :: s2, n + 1, h1, h2 => by
    have ha : a ≠ 0 := fun h => h1 (h ▸ List.mem_cons_self)
    have hrest : istrncmp s1 s2 n = 0 ↔ (s1.take n).map tolower = (s2.take n).map tolower :=
      istrncmp_eq_zero_iff_take (fun h => h1 (List.mem_cons_of_mem _ h))
        (fun h => h2 (List.mem_cons_of_mem _ h))
    rw [istrncmp_cons_cons, List.take_succ_cons, List.take_succ_cons, List.map_cons, List.map_cons,
      List.cons_eq_cons]
    by_cases hlow : tolower a = tolower b
    · rw [if_neg (fun h => h.2 hlow), if_neg ha, hrest]
      exact ⟨fun h => ⟨hlow, h⟩, fun h => h.2⟩
    · have hab : a ≠ b := fun h => hlow (congrArg tolower h)
      have hnat : a.toNat ≠ b.toNat := fun h => hab (UInt8.toNat_inj.mp h)
      rw [if_pos ⟨hab, hlow⟩]
      exact iff_of_false (by omega) (fun h => hlow h.1)

/-- Strings shorter than the limit compare equal when they agree up to case. -/
theorem istrncmp_eq_zero_iff {s1 s2 : CString} {n : ℕ} (h1 : 0 ∉ s1) (h2 : 0 ∉ s2)
    (hn : s1.length < n) : istrncmp s1 s2 n = 0 ↔ s1.map tolower = s2.map tolower := by
  rw [istrncmp_eq_zero_iff_take h1 h2, List.take_of_length_le (Nat.le_of_lt hn)]
  constructor
  · intro h
    -- what agrees is shorter than the limit, so that nothing was cut off
    have hlength := congrArg List.length h
    rw [List.length_map, List.length_map, List.length_take] at hlength
    rwa [List.take_of_length_le (by omega)] at h
  · intro h
    have hlength := congrArg List.length h
    rw [List.length_map, List.length_map] at hlength
    rwa [List.take_of_length_le (by omega)]

end MarrowOS
