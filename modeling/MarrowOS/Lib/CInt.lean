import Mathlib.Algebra.Order.Ring.Int
import Mathlib.Tactic.Lemma
import Mathlib.Tactic.Ring

/-!
# 32-bit machine integers

A C `uint32_t` is a natural number below `2 ^ 32`, a C `int` an integer between `-2 ^ 31` and
`2 ^ 31`. `u32` and `i32` reduce the exact result of an operation to the machine's; the
lemmas say when nothing is lost.
-/

namespace CInt

/-- Reduction to an unsigned 32-bit integer. -/
def u32 (x : ℤ) : ℕ := (x % 2 ^ 32).toNat

/-- Reduction to a signed 32-bit integer (two's complement). -/
def i32 (x : ℤ) : ℤ := Int.bmod x (2 ^ 32)

lemma u32_lt (x : ℤ) : u32 x < 2 ^ 32 := by
  unfold u32
  have h := Int.emod_lt_of_pos x (by decide : (0 : ℤ) < 2 ^ 32)
  omega

lemma u32_of_lt {x : ℤ} (h₀ : 0 ≤ x) (h : x < 2 ^ 32) : u32 x = x.toNat := by
  rw [u32, Int.emod_eq_of_lt h₀ h]

@[simp] lemma u32_natCast_of_lt {n : ℕ} (h : n < 2 ^ 32) : u32 n = n := by
  rw [u32_of_lt (by omega) (by exact_mod_cast h), Int.toNat_natCast]

lemma u32_natCast (n : ℕ) : u32 n = n % 2 ^ 32 := by
  unfold u32
  omega

lemma i32_of_range {x : ℤ} (h₀ : -2 ^ 31 ≤ x) (h : x < 2 ^ 31) : i32 x = x := by
  unfold i32
  apply Int.bmod_eq_of_le <;> omega

/-- Non-negative values below `2 ^ 31` are `int`s. -/
lemma i32_of_lt {x : ℤ} (h₀ : 0 ≤ x) (h : x < 2 ^ 31) : i32 x = x := i32_of_range (by omega) h

/-- The upper half of the unsigned range is negative. -/
lemma i32_of_large {x : ℤ} (h₀ : 2 ^ 31 ≤ x) (h : x < 2 ^ 32) : i32 x = x - 2 ^ 32 := by
  have hwrap : i32 (x - (2 ^ 32 : ℕ)) = i32 x := Int.sub_bmod_right x (2 ^ 32)
  rw [← hwrap, i32_of_range (by omega) (by omega)]
  rfl

lemma i32_i32_add (x y : ℤ) : i32 (i32 x + y) = i32 (x + y) := by
  unfold i32
  exact Int.bmod_add_bmod

lemma u32_i32_add (x y : ℤ) : u32 (i32 x + y) = u32 (x + y) := by
  unfold u32 i32
  have hmod : x.bmod (2 ^ 32) % 2 ^ 32 = x % 2 ^ 32 := Int.bmod_emod
  congr 1
  rw [Int.add_emod, hmod, ← Int.add_emod]

lemma i32_range (x : ℤ) : -2 ^ 31 ≤ i32 x ∧ i32 x < 2 ^ 31 := by
  unfold i32
  have h₁ := Int.le_bmod (x := x) (m := 2 ^ 32) (by decide)
  have h₂ := Int.bmod_lt (x := x) (m := 2 ^ 32) (by decide)
  constructor <;> omega

end CInt
