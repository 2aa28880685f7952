import MarrowOS.Lib.ByteMem

/-!
# NUL-terminated strings in memory

`StringAt m a w` says that the bytes `w`, none of which is a NUL, stand in memory from `a` on with
a NUL behind them. It depends on those bytes only (`StringAt.congr`) and determines `w`
(`StringAt.unique`).
-/

namespace ByteMem

/-- The string `w` with its NUL at `a`. -/
def StringAt (m : Mem) : (a : ℕ) → (w : List UInt8) → Prop
  | a, [] => m a = 0
  | a, c :: w => m a = c ∧ c ≠ 0 ∧ StringAt m (a + 1) w

instance decidableStringAt (m : Mem) : (a : ℕ) → (w : List UInt8) → Decidable (StringAt m a w)
  | a, [] => inferInstanceAs (Decidable (m a = 0))
  | a, c :: w =>
    have := decidableStringAt m (a + 1) w
    inferInstanceAs (Decidable (m a = c ∧ c ≠ 0 ∧ StringAt m (a + 1) w))

/-- The bytes from `a` on up to a NUL, at most `n` of them. -/
def readString (m : Mem) : (n a : ℕ) → List UInt8
  | 0, _ => []
  | n + 1, a => if m a = 0 then [] else m a :: readString m n (a + 1)

variable {m m' : Mem} {a k n x : ℕ} {c : UInt8} {w w' : List UInt8}

@[simp] lemma stringAt_nil : StringAt m a [] ↔ m a = 0 := Iff.rfl

@[simp] lemma stringAt_cons : StringAt m a (c :: w) ↔ m a = c ∧ c ≠ 0 ∧ StringAt m (a + 1) w :=
  Iff.rfl

lemma StringAt.not_mem_zero (h : StringAt m a w) : 0 ∉ w := by
  induction w generalizing a with
  | nil => exact List.not_mem_nil
  | cons c w ih =>
    rcases h with ⟨-, hne, hrest⟩
    rw [List.mem_cons, not_or]
    exact ⟨hne.symm, ih hrest⟩

/-- The byte a string starts with. -/
lemma StringAt.headD (h : StringAt m a w) : m a = w.headD 0 := by
  cases w with
  | nil => exact h
  | cons c w => exact h.1

/-- The bytes of a string, and its NUL. -/
lemma StringAt.getD (h : StringAt m a w) (hk : k ≤ w.length) : m (a + k) = w.getD k 0 := by
  induction k generalizing a w with
  | zero =>
    rw [Nat.add_zero, h.headD]
    cases w <;> rfl
  | succ k ih =>
    cases w with
    | nil => exact absurd hk (Nat.not_succ_le_zero k)
    | cons c w =>
      rw [List.getD_cons_succ, ← ih h.2.2 (Nat.le_of_succ_le_succ hk),
        show a + (k + 1) = a + 1 + k by omega]

/-- A string is there when its bytes and its NUL are. -/
lemma stringAt_of_bytes (hbytes : ∀ j < w.length, m (a + j) = w.getD j 0)
    (hnul : m (a + w.length) = 0) (hw : 0 ∉ w) : StringAt m a w := by
  induction w generalizing a with
  | nil => exact hnul
  | cons c w ih =>
    rw [List.mem_cons, not_or] at hw
    rw [List.length_cons] at hbytes hnul
    refine ⟨hbytes 0 (Nat.succ_pos _), fun h0 => hw.1 h0.symm, ih (fun j hj => ?_) ?_ hw.2⟩
    · rw [show a + 1 + j = a + (j + 1) by omega]
      exact hbytes (j + 1) (Nat.succ_lt_succ hj)
    · rw [← hnul]
      congr 1
      omega

/-- What is behind the first byte of a string that has one. -/
lemma StringAt.tail (h : StringAt m a w) (hne : m a ≠ 0) : StringAt m (a + 1) w.tail := by
  cases w with
  | nil => exact absurd h hne
  | cons c w => exact h.2.2

/-- A memory holds one string at an address. -/
theorem StringAt.unique (h : StringAt m a w) (h' : StringAt m a w') : w = w' := by
  induction w generalizing a w' with
  | nil =>
    cases w' with
    | nil => rfl
    | cons c w' => exact absurd (h'.1.symm.trans h) h'.2.1
  | cons c w ih =>
    cases w' with
    | nil => exact absurd (h.1.symm.trans h') h.2.1
    | cons c' w' =>
      rw [← h.1, ← h'.1, ih h.2.2 h'.2.2]

/-- A string depends on its bytes and the NUL only. -/
theorem StringAt.congr (h : StringAt m a w)
    (hsame : ∀ x, a ≤ x → x ≤ a + w.length → m' x = m x) : StringAt m' a w := by
  induction w generalizing a with
  | nil => exact (hsame a le_rfl le_rfl).trans h
  | cons c w ih =>
    rw [List.length_cons] at hsame
    refine ⟨(hsame a le_rfl (by omega)).trans h.1, h.2.1, ih h.2.2 fun x h₀ h₁ => ?_⟩
    exact hsame x (by omega) (by omega)

/-- A string stays where its bytes do and where a NUL does. -/
theorem StringAt.keep (h : StringAt m a w) (hsame : ∀ x, a ≤ x → x < a + w.length → m' x = m x)
    (hnul : ∀ x, m x = 0 → m' x = 0) : StringAt m' a w := by
  induction w generalizing a with
  | nil => exact hnul a h
  | cons c w ih =>
    rw [List.length_cons] at hsame
    refine ⟨(hsame a le_rfl (by omega)).trans h.1, h.2.1, ih h.2.2 fun x h₀ h₁ => ?_⟩
    exact hsame x (by omega) (by omega)

/-- The end of a string is a string. -/
lemma StringAt.drop (h : StringAt m a w) (hk : k ≤ w.length) : StringAt m (a + k) (w.drop k) := by
  induction k generalizing a w with
  | zero => exact h
  | succ k ih =>
    cases w with
    | nil => exact absurd hk (Nat.not_succ_le_zero k)
    | cons c w =>
      rw [List.drop_succ_cons, show a + (k + 1) = a + 1 + k by omega]
      exact ih h.2.2 (Nat.le_of_succ_le_succ hk)

/-- A string that was written with its NUL. -/
lemma stringAt_writeBytes (hw : 0 ∉ w) : StringAt (writeBytes m a (w ++ [0])) a w := by
  induction w generalizing m a with
  | nil => exact writeBytes_at (n := 0) Nat.one_pos
  | cons c w ih =>
    rw [List.mem_cons, not_or] at hw
    rw [List.cons_append, ← writeBytes_cons]
    refine ⟨?_, fun h0 => hw.1 h0.symm, ih hw.2⟩
    rw [writeBytes_of_outside (Or.inl (Nat.lt_succ_self a)), Function.update_self]

/-- Reading a string gives its first bytes. -/
theorem StringAt.readString (h : StringAt m a w) (n : ℕ) : readString m n a = w.take n := by
  induction n generalizing a w with
  | zero => rw [List.take_zero]; rfl
  | succ n ih =>
    cases w with
    | nil => exact if_pos h
    | cons c w =>
      rw [List.take_succ_cons, ← ih h.2.2, ← h.1]
      exact if_neg (by rw [h.1]; exact h.2.1)

end ByteMem
