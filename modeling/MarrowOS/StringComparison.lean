import MarrowOS.CString
import MarrowOS.Lib.Footprint
import MarrowOS.Lib.MemStrings
import MarrowOS.Config

/-!
# Comparison of names (`string.c`)

`istrncmp` on strings in memory, with the signed `char`s of `tolower` and the bytes that are read.
It agrees with the comparison of lists (`value_istrncmp`), which is what the search of a directory
uses.
-/

namespace MarrowOS

open ByteMem Footprint

namespace Reading

/-- `tolower`, whose argument is a signed `char`. -/
def tolowerChar (s1 : Int8) : Int8 := if s1 ≥ 65 ∧ s1 ≤ 90 then s1 + 32 else s1

/-- The comparison loop, with `n` rounds to go. -/
def istrncmp (mem : Mem) : (s1 s2 : Addr) → (n : ℕ) → Traced ℤ
  | _, _, 0 => return 0
  | s1, s2, n + 1 => do
    let u1 ← traceU8 mem s1
    let u2 ← traceU8 mem s2
    if u1 ≠ u2 ∧ tolowerChar u1.toInt8 ≠ tolowerChar u2.toInt8 then return u1.toNat - u2.toNat
    else if u1 = 0 then return 0
    else istrncmp mem (s1 + 1) (s2 + 1) n

/-- The comparison gets to byte `i`: it is one of the first `n`, no NUL is in front of it, and the
bytes in front of it agree up to case. -/
def GetsTo (w1 w2 : CString) (n i : ℕ) : Prop :=
  i < n ∧ i ≤ w1.length ∧ i ≤ w2.length ∧ ∀ j < i, tolower (w1.getD j 0) = tolower (w2.getD j 0)

variable {mem : Mem} {s1 s2 s3 n i : ℕ} {w1 w2 : CString}

/-! ## Signed characters -/

/-- Nothing is lost in the conversions; bytes from `0x80` on are negative, and no letters. -/
lemma tolowerChar_toInt8 (b : UInt8) : tolowerChar b.toInt8 = (tolower b).toInt8 := by
  have hall : ∀ k : Fin 256, tolowerChar (UInt8.ofNat k).toInt8 =
      (tolower (UInt8.ofNat k)).toInt8 := by decide +kernel
  have hbyte := hall ⟨b.toNat, b.toNat_lt⟩
  rwa [UInt8.ofNat_toNat] at hbyte

lemma tolowerChar_eq_iff (a b : UInt8) :
    tolowerChar a.toInt8 = tolowerChar b.toInt8 ↔ tolower a = tolower b := by
  rw [tolowerChar_toInt8, tolowerChar_toInt8]
  constructor
  · intro h
    exact congrArg Int8.toUInt8 h
  · intro h
    rw [h]

/-- Bytes that agree up to case are both NUL or neither is. -/
lemma ne_zero_of_tolower_eq {a b : UInt8} (h : tolower a = tolower b) (ha : a ≠ 0) : b ≠ 0 := by
  intro hb
  rw [hb] at h
  exact tolower_ne_zero ha h

/-! ## One round -/

/-- The bytes differ up to case. -/
lemma istrncmp_differ (h : tolower (mem s1) ≠ tolower (mem s2)) :
    (istrncmp mem s1 s2 (n + 1)).value = (mem s1).toNat - (mem s2).toNat ∧
      (istrncmp mem s1 s2 (n + 1)).reads = [⟨s1, 1⟩, ⟨s2, 1⟩] := by
  have hexit : mem s1 ≠ mem s2 ∧ tolowerChar (mem s1).toInt8 ≠ tolowerChar (mem s2).toInt8 :=
    ⟨fun heq => h (congrArg tolower heq), fun heq => h ((tolowerChar_eq_iff _ _).mp heq)⟩
  rw [istrncmp]
  simp only [value_bind, value_traceU8, value_pure, reads_bind, reads_traceU8, reads_pure,
    if_pos hexit]
  exact ⟨trivial, rfl⟩

/-- Both strings end. -/
lemma istrncmp_end (h : tolower (mem s1) = tolower (mem s2)) (h0 : mem s1 = 0) :
    (istrncmp mem s1 s2 (n + 1)).value = 0 ∧
      (istrncmp mem s1 s2 (n + 1)).reads = [⟨s1, 1⟩, ⟨s2, 1⟩] := by
  have hstay : ¬ (mem s1 ≠ mem s2 ∧ tolowerChar (mem s1).toInt8 ≠ tolowerChar (mem s2).toInt8) :=
    fun hexit => hexit.2 ((tolowerChar_eq_iff _ _).mpr h)
  rw [istrncmp]
  simp only [value_bind, value_traceU8, value_pure, reads_bind, reads_traceU8, reads_pure,
    if_neg hstay, if_pos h0]
  exact ⟨trivial, rfl⟩

/-- The comparison goes on behind bytes that agree up to case. -/
lemma istrncmp_next (h : tolower (mem s1) = tolower (mem s2)) (h0 : mem s1 ≠ 0) :
    (istrncmp mem s1 s2 (n + 1)).value = (istrncmp mem (s1 + 1) (s2 + 1) n).value ∧
      (istrncmp mem s1 s2 (n + 1)).reads =
        [⟨s1, 1⟩, ⟨s2, 1⟩] ++ (istrncmp mem (s1 + 1) (s2 + 1) n).reads := by
  have hstay : ¬ (mem s1 ≠ mem s2 ∧ tolowerChar (mem s1).toInt8 ≠ tolowerChar (mem s2).toInt8) :=
    fun hexit => hexit.2 ((tolowerChar_eq_iff _ _).mpr h)
  rw [istrncmp]
  simp only [value_bind, value_traceU8, reads_bind, reads_traceU8, if_neg hstay, if_neg h0]
  exact ⟨trivial, rfl⟩

/-! ## The comparison -/

/-- The comparison of strings in memory is the comparison of lists. -/
theorem value_istrncmp (h1 : StringAt mem s1 w1) (h2 : StringAt mem s2 w2) (n : ℕ) :
    (istrncmp mem s1 s2 n).value = MarrowOS.istrncmp w1 w2 n := by
  induction n generalizing s1 s2 w1 w2 with
  | zero => rfl
  | succ n ih =>
    have hstep : MarrowOS.istrncmp w1 w2 (n + 1) =
        if mem s1 ≠ mem s2 ∧ tolower (mem s1) ≠ tolower (mem s2) then
          ((mem s1).toNat : ℤ) - (mem s2).toNat
        else if mem s1 = 0 then 0
        else MarrowOS.istrncmp w1.tail w2.tail n := by
      rw [h1.headD, h2.headD]
      rfl
    rw [hstep]
    by_cases hlow : tolower (mem s1) = tolower (mem s2)
    · rw [if_neg (fun h => h.2 hlow)]
      by_cases h0 : mem s1 = 0
      · rw [(istrncmp_end hlow h0).1, if_pos h0]
      · have h0' := ne_zero_of_tolower_eq hlow h0
        rw [(istrncmp_next hlow h0).1, if_neg h0]
        exact ih (h1.tail h0) (h2.tail h0')
    · rw [(istrncmp_differ hlow).1, if_pos ⟨fun h => hlow (congrArg tolower h), hlow⟩]

/-- A round reads the two bytes it has got to. -/
lemma getsTo_zero (w1 w2 : CString) (n : ℕ) : GetsTo w1 w2 (n + 1) 0 :=
  ⟨Nat.succ_pos n, Nat.zero_le _, Nat.zero_le _, fun j hj => absurd hj (Nat.not_lt_zero j)⟩

/-- One byte further on. -/
lemma GetsTo.next {b1 b2 : UInt8} (hlow : tolower b1 = tolower b2) (h : GetsTo w1 w2 n i) :
    GetsTo (b1 :: w1) (b2 :: w2) (n + 1) (i + 1) := by
  rcases h with ⟨hn, hlen1, hlen2, hbefore⟩
  refine ⟨Nat.succ_lt_succ hn, Nat.succ_le_succ hlen1, Nat.succ_le_succ hlen2, fun j hj => ?_⟩
  cases j with
  | zero => exact hlow
  | succ j => exact hbefore j (Nat.lt_of_succ_lt_succ hj)

/-- What is read are bytes that the comparison gets to. -/
theorem getsTo_of_mem_reads (h1 : StringAt mem s1 w1) (h2 : StringAt mem s2 w2) (n : ℕ) :
    ∀ s ∈ (istrncmp mem s1 s2 n).reads,
      ∃ i, GetsTo w1 w2 n i ∧ (s = ⟨s1 + i, 1⟩ ∨ s = ⟨s2 + i, 1⟩) := by
  induction n generalizing s1 s2 w1 w2 with
  | zero =>
    intro s hs
    exact absurd hs List.not_mem_nil
  | succ n ih =>
    have hfirst : ∀ s ∈ [Span.mk s1 1, ⟨s2, 1⟩],
        ∃ i, GetsTo w1 w2 (n + 1) i ∧ (s = ⟨s1 + i, 1⟩ ∨ s = ⟨s2 + i, 1⟩) := by
      intro s hs
      rw [List.mem_cons, List.mem_singleton] at hs
      exact ⟨0, getsTo_zero w1 w2 n, hs⟩
    intro s hs
    by_cases hlow : tolower (mem s1) = tolower (mem s2)
    · by_cases h0 : mem s1 = 0
      · rw [(istrncmp_end hlow h0).2] at hs
        exact hfirst s hs
      · have h0' := ne_zero_of_tolower_eq hlow h0
        rw [(istrncmp_next hlow h0).2] at hs
        rcases List.mem_append.mp hs with hs | hs
        · exact hfirst s hs
        -- the rest is read from the next bytes on
        cases w1 with
        | nil => exact absurd h1 h0
        | cons b1 w1 =>
          cases w2 with
          | nil => exact absurd h2 h0'
          | cons b2 w2 =>
            rcases ih h1.2.2 h2.2.2 s hs with ⟨i, hgets, hs⟩
            rw [h1.1, h2.1] at hlow
            refine ⟨i + 1, hgets.next hlow, ?_⟩
            rwa [Nat.add_assoc, Nat.add_assoc, Nat.add_comm 1 i] at hs
    · rw [(istrncmp_differ hlow).2] at hs
      exact hfirst s hs

/-- Strings compare equal when their first `n` bytes are the same letters, in any case. -/
lemma istrncmp_eq_zero_iff_take (h1 : StringAt mem s1 w1) (h2 : StringAt mem s2 w2) (n : ℕ) :
    (istrncmp mem s1 s2 n).value = 0 ↔ (w1.take n).map tolower = (w2.take n).map tolower := by
  rw [value_istrncmp h1 h2]
  exact MarrowOS.istrncmp_eq_zero_iff_take h1.not_mem_zero h2.not_mem_zero

/-- **Comparison of names.** Two strings compare equal exactly when their first `n` bytes agree with
`A` to `Z` taken as `a` to `z`, and no byte is read behind the first difference, the first NUL or
the limit. So the strings of a memory that compare equal form classes. -/
theorem istrncmp_compares_names (mem : Mem) (n : ℕ) :
    (∀ (s1 s2 : Addr) (w1 w2 : CString), StringAt mem s1 w1 → StringAt mem s2 w2 →
      ((istrncmp mem s1 s2 n).value = 0 ↔
        (w1.take n).map tolower = (w2.take n).map tolower) ∧
      ∀ s ∈ (istrncmp mem s1 s2 n).reads,
        ∃ i, GetsTo w1 w2 n i ∧ (s = ⟨s1 + i, 1⟩ ∨ s = ⟨s2 + i, 1⟩)) ∧
    Equivalence fun s1 s2 : {s : Addr // ∃ w, StringAt mem s w} =>
      (istrncmp mem s1 s2 n).value = 0 := by
  refine ⟨fun s1 s2 w1 w2 h1 h2 =>
    ⟨istrncmp_eq_zero_iff_take h1 h2 n, getsTo_of_mem_reads h1 h2 n⟩, ?_, ?_, ?_⟩
  · rintro ⟨s, w, h⟩
    exact (istrncmp_eq_zero_iff_take h h n).mpr rfl
  · rintro ⟨s1, w1, h1⟩ ⟨s2, w2, h2⟩ h
    exact (istrncmp_eq_zero_iff_take h2 h1 n).mpr ((istrncmp_eq_zero_iff_take h1 h2 n).mp h).symm
  · rintro ⟨s1, w1, h1⟩ ⟨s2, w2, h2⟩ ⟨s3, w3, h3⟩ h h'
    exact (istrncmp_eq_zero_iff_take h1 h3 n).mpr
      (((istrncmp_eq_zero_iff_take h1 h2 n).mp h).trans
        ((istrncmp_eq_zero_iff_take h2 h3 n).mp h'))

/-- `Az` with a byte above `0x7F` behind it, and `aZ` with the same byte. -/
theorem istrncmp_compares_high_byte :
    ((istrncmp (writeBytes (fun _ => 0) 4 [0x41, 0x7A, 0xC1, 0, 0x61, 0x5A, 0xC1]) 4 8 108).value =
      0 ↔ ([0x41, 0x7A, 0xC1].take 108).map tolower = ([0x61, 0x5A, 0xC1].take 108).map tolower) ∧
    ∀ s ∈ (istrncmp (writeBytes (fun _ => 0) 4 [0x41, 0x7A, 0xC1, 0, 0x61, 0x5A, 0xC1]) 4 8
      108).reads, ∃ i, GetsTo [0x41, 0x7A, 0xC1] [0x61, 0x5A, 0xC1] 108 i ∧
        (s = ⟨4 + i, 1⟩ ∨ s = ⟨8 + i, 1⟩) :=
  (istrncmp_compares_names _ 108).1 4 8 _ _ (by decide) (by decide)

end Reading

end MarrowOS
