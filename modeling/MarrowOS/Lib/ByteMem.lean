import MarrowOS.Lib.CInt
import Mathlib.Data.List.GetD
import Mathlib.Data.UInt

/-!
# Byte-addressed memory

A memory is a function from addresses to bytes. Words are little-endian, as on x86.
`readU32_writeU32_self` and `readU32_congr` are all a proof needs to know about words: a
write is read back, and a read only depends on its own four bytes.
-/

namespace ByteMem

/-- The contents of memory. -/
abbrev Mem := ℕ → UInt8

/-- The little-endian word at `a`. -/
def readU32 (m : Mem) (a : ℕ) : ℕ :=
  (m a).toNat + (m (a + 1)).toNat * 2 ^ 8 + (m (a + 2)).toNat * 2 ^ 16 + (m (a + 3)).toNat * 2 ^ 24

/-- The little-endian half word at `a`. -/
def readU16 (m : Mem) (a : ℕ) : ℕ := (m a).toNat + (m (a + 1)).toNat * 2 ^ 8

/-- Byte `k` of the word `v`. -/
def byteOf (v k : ℕ) : UInt8 := UInt8.ofNat (v / 2 ^ (8 * k))

/-- Store the word `v` at `a`. -/
def writeU32 (m : Mem) (a v : ℕ) : Mem := fun x =>
  if a ≤ x ∧ x < a + 4 then byteOf v (x - a) else m x

/-- Store the half word `v` at `a`. -/
def writeU16 (m : Mem) (a v : ℕ) : Mem := fun x =>
  if a ≤ x ∧ x < a + 2 then byteOf v (x - a) else m x

/-- `memset`: store `c` in the `n` bytes from `a`. -/
def fill (m : Mem) (a n : ℕ) (c : UInt8) : Mem := fun x =>
  if a ≤ x ∧ x < a + n then c else m x

/-- Store the bytes `bs` from `a` on. -/
def writeBytes (m : Mem) (a : ℕ) (bs : List UInt8) : Mem := fun x =>
  if a ≤ x ∧ x < a + bs.length then bs.getD (x - a) 0 else m x

variable {m m' : Mem} {a b n v x : ℕ}

lemma toNat_byteOf (v k : ℕ) : (byteOf v k).toNat = v / 2 ^ (8 * k) % 256 := by
  simp [byteOf]

lemma readU32_lt (m : Mem) (a : ℕ) : readU32 m a < 2 ^ 32 := by
  unfold readU32
  have h₀ := (m a).toNat_lt
  have h₁ := (m (a + 1)).toNat_lt
  have h₂ := (m (a + 2)).toNat_lt
  have h₃ := (m (a + 3)).toNat_lt
  omega

lemma readU16_lt (m : Mem) (a : ℕ) : readU16 m a < 2 ^ 16 := by
  unfold readU16
  have h₀ := (m a).toNat_lt
  have h₁ := (m (a + 1)).toNat_lt
  omega

/-- A read only depends on the four bytes of its word. -/
lemma readU32_congr (h : ∀ x, a ≤ x → x < a + 4 → m' x = m x) : readU32 m' a = readU32 m a := by
  unfold readU32
  rw [h a (by omega) (by omega), h (a + 1) (by omega) (by omega), h (a + 2) (by omega) (by omega),
    h (a + 3) (by omega) (by omega)]

/-- A stored word is read back. -/
lemma readU32_writeU32_self (hv : v < 2 ^ 32) : readU32 (writeU32 m a v) a = v := by
  have hbyte : ∀ k, k < 4 → writeU32 m a v (a + k) = byteOf v k := by
    intro k hk
    rw [writeU32, if_pos ⟨by omega, by omega⟩, Nat.add_sub_cancel_left]
  rw [readU32, hbyte 1 (by omega), hbyte 2 (by omega), hbyte 3 (by omega),
    show writeU32 m a v a = byteOf v 0 from hbyte 0 (by omega)]
  simp only [toNat_byteOf]
  omega

lemma writeU32_of_outside (h : x < a ∨ a + 4 ≤ x) : writeU32 m a v x = m x := by
  rw [writeU32, if_neg (by omega)]

/-- A store leaves the words apart from it alone. -/
lemma readU32_writeU32_of_apart (h : b + 4 ≤ a ∨ a + 4 ≤ b) :
    readU32 (writeU32 m a v) b = readU32 m b :=
  readU32_congr fun _ _ _ => writeU32_of_outside (by omega)

/-- A read only depends on the two bytes of its half word. -/
lemma readU16_congr (h : ∀ x, a ≤ x → x < a + 2 → m' x = m x) : readU16 m' a = readU16 m a := by
  unfold readU16
  rw [h a (by omega) (by omega), h (a + 1) (by omega) (by omega)]

/-- A stored half word is read back. -/
lemma readU16_writeU16_self (hv : v < 2 ^ 16) : readU16 (writeU16 m a v) a = v := by
  rw [readU16, writeU16, if_pos ⟨le_rfl, by omega⟩, writeU16, if_pos ⟨by omega, by omega⟩,
    Nat.sub_self, Nat.add_sub_cancel_left, toNat_byteOf, toNat_byteOf]
  omega

lemma writeU16_of_outside (h : x < a ∨ a + 2 ≤ x) : writeU16 m a v x = m x := by
  rw [writeU16, if_neg (by omega)]

/-- Storing `n` words one after the other. -/
lemma foldl_writeU32 {v : ℕ → ℕ} (hv : ∀ b, v b < 2 ^ 32) (n : ℕ) :
    (∀ j < n, readU32 ((List.range n).foldl (fun m b => writeU32 m (a + 4 * b) (v b)) m)
      (a + 4 * j) = v j) ∧
    ∀ x, x < a ∨ a + 4 * n ≤ x →
      (List.range n).foldl (fun m b => writeU32 m (a + 4 * b) (v b)) m x = m x := by
  induction n with
  | zero => exact ⟨fun j hj => absurd hj (Nat.not_lt_zero j), fun _ _ => rfl⟩
  | succ n ih =>
    rw [List.range_succ, List.foldl_append, List.foldl_cons, List.foldl_nil]
    generalize (List.range n).foldl (fun m b => writeU32 m (a + 4 * b) (v b)) m = m' at ih
    rcases ih with ⟨hread, hout⟩
    constructor
    · intro j hj
      rcases Nat.lt_succ_iff_lt_or_eq.mp hj with hlt | heq
      · rw [readU32_writeU32_of_apart (by omega)]
        exact hread j hlt
      · rw [heq]
        exact readU32_writeU32_self (hv n)
    · intro x hx
      rw [writeU32_of_outside (by omega)]
      exact hout x (by omega)

lemma fill_of_outside {c : UInt8} (h : x < a ∨ a + n ≤ x) : fill m a n c x = m x := by
  rw [fill, if_neg (by omega)]

lemma fill_zero {c : UInt8} : fill m a 0 c = m := by
  funext x
  exact fill_of_outside (by omega)

lemma writeBytes_of_outside {bs : List UInt8} (h : x < a ∨ a + bs.length ≤ x) :
    writeBytes m a bs x = m x := by
  rw [writeBytes, if_neg (by omega)]

lemma writeBytes_at {bs : List UInt8} (h : n < bs.length) :
    writeBytes m a bs (a + n) = bs.getD n 0 := by
  rw [writeBytes, if_pos ⟨by omega, by omega⟩, Nat.add_sub_cancel_left]

/-! ## Writing back -/

/-- The bytes of a word that was read. -/
lemma byteOf_readU32 {k : ℕ} (hk : k < 4) : byteOf (readU32 m a) k = m (a + k) := by
  have h₀ := (m a).toNat_lt
  have h₁ := (m (a + 1)).toNat_lt
  have h₂ := (m (a + 2)).toNat_lt
  have h₃ := (m (a + 3)).toNat_lt
  apply UInt8.toNat_inj.mp
  rw [toNat_byteOf, readU32]
  rcases (by omega : k = 0 ∨ k = 1 ∨ k = 2 ∨ k = 3) with hk | hk | hk | hk
  · simp only [hk, Nat.add_zero, Nat.mul_zero, Nat.pow_zero, Nat.div_one]
    omega
  · rw [hk]
    omega
  · rw [hk]
    omega
  · rw [hk]
    omega

/-- A word that was overwritten is put back, whatever was written beside it meanwhile. -/
lemma writeU32_restore {bs : List UInt8} (h : ∀ x, a ≤ x → x < a + 4 → x < b ∨ b + bs.length ≤ x) :
    writeU32 (writeBytes (writeU32 m a v) b bs) a (readU32 m a) = writeBytes m b bs := by
  funext x
  by_cases hin : a ≤ x ∧ x < a + 4
  · rw [writeBytes_of_outside (h x hin.1 hin.2), writeU32, if_pos hin, byteOf_readU32 (by omega)]
    congr 1
    omega
  · rw [writeU32, if_neg hin]
    unfold writeBytes
    split_ifs
    · rfl
    · rw [writeU32, if_neg hin]

/-- One more byte. -/
lemma writeBytes_concat (bs : List UInt8) (c : UInt8) :
    Function.update (writeBytes m a bs) (a + bs.length) c = writeBytes m a (bs ++ [c]) := by
  funext x
  rw [Function.update_apply, writeBytes, writeBytes, List.length_append, List.length_singleton]
  by_cases hx : x = a + bs.length
  · rw [if_pos hx, if_pos (by omega), hx, Nat.add_sub_cancel_left,
      List.getD_append_right _ _ _ _ le_rfl, Nat.sub_self]
    rfl
  · rw [if_neg hx]
    by_cases hin : a ≤ x ∧ x < a + bs.length
    · rw [if_pos hin, if_pos (by omega), List.getD_append _ _ _ _ (by omega)]
    · rw [if_neg hin, if_neg (by omega)]

/-- Bytes behind bytes. -/
lemma writeBytes_append {bs cs : List UInt8} :
    writeBytes (writeBytes m a bs) (a + bs.length) cs = writeBytes m a (bs ++ cs) := by
  funext x
  unfold writeBytes
  rw [List.length_append]
  by_cases hfirst : x < a + bs.length
  · rw [if_neg (by omega)]
    by_cases hin : a ≤ x
    · rw [if_pos ⟨hin, hfirst⟩, if_pos ⟨hin, by omega⟩, List.getD_append _ _ _ _ (by omega)]
    · rw [if_neg (by omega), if_neg (by omega)]
  · by_cases hin : x < a + bs.length + cs.length
    · rw [if_pos (by omega), if_pos (by omega), List.getD_append_right _ _ _ _ (by omega),
        Nat.sub_sub]
    · rw [if_neg (by omega), if_neg (by omega), if_neg (by omega)]

lemma writeBytes_nil : writeBytes m a [] = m := by
  funext x
  apply writeBytes_of_outside
  rw [List.length_nil]
  omega

/-- The first byte, and the others behind it. -/
lemma writeBytes_cons (c : UInt8) (bs : List UInt8) :
    writeBytes (Function.update m a c) (a + 1) bs = writeBytes m a (c :: bs) := by
  have hfirst := @writeBytes_concat m a [] c
  rw [writeBytes_nil] at hfirst
  rw [show Function.update m a c = writeBytes m a [c] from hfirst]
  exact @writeBytes_append m a [c] bs

/-- The last byte is overwritten. -/
lemma update_writeBytes_concat (bs : List UInt8) (c d : UInt8) :
    Function.update (writeBytes m a (bs ++ [c])) (a + bs.length) d =
      writeBytes m a (bs ++ [d]) := by
  rw [← writeBytes_concat, Function.update_idem, writeBytes_concat]

end ByteMem
