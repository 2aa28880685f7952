import MarrowOS.Gdt.Gdt
import MarrowOS.Lib.Fallible
import Mathlib.Tactic.IntervalCases

/-!
# Descriptors decode to what was asked for

`encodeGdtEntry` writes the eight bytes of `gdtBytes` (`encodeGdtEntry_eq`) and no others, so a
table is encoded entry by entry, and the processor reads every entry back.
-/

namespace MarrowOS

open ByteMem Fallible

/-! ## The bytes of a descriptor -/

/-- The descriptor with the given bits of its limit and the given flags. -/
def gdtBytes (flags : UInt8) (source : GdtStructured) : List UInt8 :=
  [(source.limit &&& 0xFF).toUInt8, ((source.limit >>> 8) &&& 0xFF).toUInt8,
    (source.base &&& 0xFF).toUInt8, ((source.base >>> 8) &&& 0xFF).toUInt8,
    ((source.base >>> 16) &&& 0xFF).toUInt8, source.type,
    flags ||| ((source.limit >>> 16) &&& 0x0F).toUInt8, ((source.base >>> 24) &&& 0xFF).toUInt8]

variable {mem mem' : Mem} {a gdt target : ℕ} {source : GdtStructured} {flags : UInt8}
  {table : List GdtStructured}

/-- The stores, in the order of the source, fill in the eight bytes. -/
lemma encodeGdtFields_eq (h : mem (target + 6) = flags) :
    encodeGdtFields target source mem = writeBytes mem target (gdtBytes flags source) := by
  funext x
  by_cases hin : target ≤ x ∧ x < target + 8
  · obtain ⟨k, rfl⟩ : ∃ k, x = target + k := ⟨x - target, by omega⟩
    have hk : k < 8 := by omega
    rw [writeBytes_at (show k < (gdtBytes flags source).length from hk)]
    interval_cases k
    all_goals simp [encodeGdtFields, gdtBytes, h]
  · rw [writeBytes_of_outside (show x < target ∨ target + 8 ≤ x by omega)]
    simp only [encodeGdtFields]
    repeat rw [Function.update_of_ne (by omega)]

/-- A byte of a word. -/
lemma toNat_shifted_byte (v : UInt32) {s : UInt32} {k : ℕ} (hs : s.toNat = k) (hk : k < 32) :
    ((v >>> s) &&& 0xFF).toUInt8.toNat = v.toNat / 2 ^ k % 2 ^ 8 := by
  rw [UInt32.toNat_toUInt8, UInt32.toNat_and, UInt32.toNat_shiftRight, hs, Nat.mod_eq_of_lt hk,
    Nat.shiftRight_eq_div_pow]
  exact (congrArg (· % 2 ^ 8) (Nat.and_two_pow_sub_one_eq_mod _ 8)).trans (Nat.mod_mod _ _)

lemma toNat_low_byte (v : UInt32) : (v &&& 0xFF).toUInt8.toNat = v.toNat % 2 ^ 8 := by
  rw [UInt32.toNat_toUInt8, UInt32.toNat_and]
  exact (congrArg (· % 2 ^ 8) (Nat.and_two_pow_sub_one_eq_mod _ 8)).trans (Nat.mod_mod _ _)

/-- Bits 16 to 19 of the limit go below the flags. -/
lemma toNat_flags_or (hflags : flags.toNat % 2 ^ 4 = 0) (v : UInt32) :
    (flags ||| ((v >>> 16) &&& 0x0F).toUInt8).toNat = flags.toNat + v.toNat / 2 ^ 16 % 2 ^ 4 := by
  have hnibble : ((v >>> 16) &&& 0x0F).toUInt8.toNat = v.toNat / 2 ^ 16 % 2 ^ 4 := by
    have hand : (v.toNat / 2 ^ 16) &&& 15 = v.toNat / 2 ^ 16 % 2 ^ 4 :=
      Nat.and_two_pow_sub_one_eq_mod _ 4
    have hshift : ((v >>> 16) &&& 0x0F).toNat = v.toNat / 2 ^ 16 % 2 ^ 4 := by
      rw [UInt32.toNat_and, UInt32.toNat_shiftRight, Nat.shiftRight_eq_div_pow]
      exact hand
    rw [UInt32.toNat_toUInt8, hshift]
    omega
  have hsplit : flags.toNat = 2 ^ 4 * (flags.toNat / 2 ^ 4) := by omega
  have hlow : v.toNat / 2 ^ 16 % 2 ^ 4 < 2 ^ 4 := Nat.mod_lt _ (by decide)
  have hor := Nat.two_pow_add_eq_or_of_lt hlow (flags.toNat / 2 ^ 4)
  rw [UInt8.toNat_or, hnibble, hsplit, ← hor]

/-! ## Reading a descriptor back -/

lemma gdtBytes_byte (mem : Mem) (target : ℕ) (flags : UInt8) (source : GdtStructured) {k : ℕ}
    (hk : k < 8) :
    writeBytes mem target (gdtBytes flags source) (target + k) = (gdtBytes flags source).getD k 0 :=
  writeBytes_at (show k < (gdtBytes flags source).length from hk)

/-- The four bytes of the base. -/
lemma descriptorBase_gdtBytes (mem : Mem) (target : ℕ) (flags : UInt8) (source : GdtStructured) :
    descriptorBase (writeBytes mem target (gdtBytes flags source)) target = source.base.toNat := by
  have h₂ : ((gdtBytes flags source).getD 2 0).toNat = source.base.toNat % 2 ^ 8 :=
    toNat_low_byte source.base
  have h₃ : ((gdtBytes flags source).getD 3 0).toNat = source.base.toNat / 2 ^ 8 % 2 ^ 8 :=
    toNat_shifted_byte source.base rfl (by decide)
  have h₄ : ((gdtBytes flags source).getD 4 0).toNat = source.base.toNat / 2 ^ 16 % 2 ^ 8 :=
    toNat_shifted_byte source.base rfl (by decide)
  have h₇ : ((gdtBytes flags source).getD 7 0).toNat = source.base.toNat / 2 ^ 24 % 2 ^ 8 :=
    toNat_shifted_byte source.base rfl (by decide)
  have hlt := source.base.toNat_lt
  rw [descriptorBase, gdtBytes_byte _ _ _ _ (by decide), gdtBytes_byte _ _ _ _ (by decide),
    gdtBytes_byte _ _ _ _ (by decide), gdtBytes_byte _ _ _ _ (by decide), h₂, h₃, h₄, h₇]
  omega

/-- The 20 bits of the limit, of which the flags take nothing. -/
lemma descriptorLimit20_gdtBytes (hflags : flags.toNat % 2 ^ 4 = 0) (mem : Mem) (target : ℕ)
    (source : GdtStructured) :
    descriptorLimit20 (writeBytes mem target (gdtBytes flags source)) target =
      source.limit.toNat % 2 ^ 20 := by
  have h₀ : (writeBytes mem target (gdtBytes flags source) target).toNat =
      source.limit.toNat % 2 ^ 8 := by
    rw [show writeBytes mem target (gdtBytes flags source) target = (gdtBytes flags source).getD 0 0
      from gdtBytes_byte mem target flags source (by decide : 0 < 8)]
    exact toNat_low_byte source.limit
  have h₁ : ((gdtBytes flags source).getD 1 0).toNat = source.limit.toNat / 2 ^ 8 % 2 ^ 8 :=
    toNat_shifted_byte source.limit rfl (by decide)
  have h₆ : ((gdtBytes flags source).getD 6 0).toNat =
      flags.toNat + source.limit.toNat / 2 ^ 16 % 2 ^ 4 := toNat_flags_or hflags source.limit
  rw [descriptorLimit20, gdtBytes_byte _ _ _ _ (by decide), gdtBytes_byte _ _ _ _ (by decide), h₀,
    h₁, h₆]
  omega

/-- Bits 16 to 19 of the limit do not reach the granularity. -/
lemma descriptorGranularity_gdtBytes (hflags : flags.toNat % 2 ^ 4 = 0) (mem : Mem) (target : ℕ)
    (source : GdtStructured) :
    descriptorGranularity (writeBytes mem target (gdtBytes flags source)) target ↔
      flags.toNat / 2 ^ 7 % 2 = 1 := by
  have h₆ : ((gdtBytes flags source).getD 6 0).toNat =
      flags.toNat + source.limit.toNat / 2 ^ 16 % 2 ^ 4 := toNat_flags_or hflags source.limit
  rw [descriptorGranularity, gdtBytes_byte _ _ _ _ (by decide), h₆]
  omega

/-! ## Encoding and decoding -/

/-- What an entry becomes whose limit is accepted. -/
def GdtStructured.bytes (source : GdtStructured) : List UInt8 :=
  if source.limit > 65536 then gdtBytes 0xC0 { source with limit := source.limit >>> 12 }
  else gdtBytes 0x40 source

lemma encodeGdtEntry_invalid (h : source.Invalid) : encodeGdtEntry target source mem =
    .error .panic := if_pos h

/-- `encodeGdtEntry` writes the eight bytes of the descriptor and no others. -/
theorem encodeGdtEntry_eq (h : ¬ source.Invalid) :
    encodeGdtEntry target source mem = .ok (writeBytes mem target source.bytes) := by
  have hself : ∀ (mem : Mem) (c : UInt8), Function.update mem (target + 6) c (target + 6) = c :=
    fun mem c => Function.update_self ..
  -- byte 6 was written before, and is one of the eight
  have hcover : ∀ (mem : Mem) (c flags : UInt8) (source : GdtStructured),
      writeBytes (Function.update mem (target + 6) c) target (gdtBytes flags source) =
        writeBytes mem target (gdtBytes flags source) := by
    intro mem c flags source
    funext x
    by_cases hin : target ≤ x ∧ x < target + 8
    · obtain ⟨k, rfl⟩ : ∃ k, x = target + k := ⟨x - target, by omega⟩
      rw [gdtBytes_byte _ _ _ _ (by omega), gdtBytes_byte _ _ _ _ (by omega)]
    · have hout : x < target ∨ target + (gdtBytes flags source).length ≤ x := by
        show x < target ∨ target + 8 ≤ x
        omega
      rw [writeBytes_of_outside hout, writeBytes_of_outside hout,
        Function.update_of_ne (by omega)]
  rw [encodeGdtEntry, if_neg h]
  unfold GdtStructured.bytes
  by_cases hpages : source.limit > 65536
  · simp only [if_pos hpages]
    rw [encodeGdtFields_eq (hself _ _), hcover, hcover]
  · simp only [if_neg hpages]
    rw [encodeGdtFields_eq (hself _ _), hcover]

lemma length_bytes (source : GdtStructured) : source.bytes.length = 8 := by
  unfold GdtStructured.bytes
  split
  · rfl
  · rfl

/-- A descriptor is eight bytes. -/
lemma segmentAt_congr (h : ∀ x, a ≤ x → x < a + 8 → mem' x = mem x) :
    segmentAt mem' a = segmentAt mem a := by
  have hbyte : ∀ k < 8, mem' (a + k) = mem (a + k) := fun k hk => h _ (by omega) (by omega)
  have h₀ : mem' a = mem a := hbyte 0 (by decide)
  have hbase : descriptorBase mem' a = descriptorBase mem a := by
    simp only [descriptorBase, hbyte 2 (by decide), hbyte 3 (by decide), hbyte 4 (by decide),
      hbyte 7 (by decide)]
  have hlimit : descriptorLimit20 mem' a = descriptorLimit20 mem a := by
    simp only [descriptorLimit20, h₀, hbyte 1 (by decide), hbyte 6 (by decide)]
  have hpages : descriptorGranularity mem' a ↔ descriptorGranularity mem a := by
    simp only [descriptorGranularity, hbyte 6 (by decide)]
  unfold segmentAt
  rw [hbase, hlimit, hbyte 5 (by decide), if_congr hpages rfl rfl]

/-- A limit that counts pages ends with one. -/
lemma limit_of_pages (hlow : source.limit &&& 0xFFF = 0xFFF) :
    source.limit.toNat % 2 ^ 12 = 4095 := by
  have hand := congrArg UInt32.toNat hlow
  rw [UInt32.toNat_and] at hand
  exact (Nat.and_two_pow_sub_one_eq_mod _ 12).symm.trans hand

/-- An entry that is accepted is read back. -/
theorem segmentAt_bytes (h : ¬ source.Invalid) :
    segmentAt (writeBytes mem target source.bytes) target = source.segment := by
  have hlt := source.limit.toNat_lt
  unfold GdtStructured.bytes
  unfold segmentAt GdtStructured.segment
  by_cases hpages : source.limit > 65536
  · have hlow : source.limit &&& 0xFFF = 0xFFF := by
      by_contra hne
      exact h ⟨hpages, hne⟩
    have hends := limit_of_pages hlow
    have hshift : (source.limit >>> 12).toNat = source.limit.toNat / 2 ^ 12 := by
      rw [UInt32.toNat_shiftRight, Nat.shiftRight_eq_div_pow]
      rfl
    simp only [if_pos hpages]
    rw [descriptorBase_gdtBytes, descriptorLimit20_gdtBytes (by decide),
      if_pos ((descriptorGranularity_gdtBytes (by decide) _ _ _).mpr (by decide)),
      gdtBytes_byte _ _ _ _ (by decide), hshift]
    congr 1
    omega
  · have hsmall : source.limit.toNat ≤ 65536 := UInt32.le_iff_toNat_le.mp (UInt32.not_lt.mp hpages)
    simp only [if_neg hpages]
    rw [descriptorBase_gdtBytes, descriptorLimit20_gdtBytes (by decide),
      if_neg (fun hbit => absurd ((descriptorGranularity_gdtBytes (by decide) _ _ _).mp hbit)
        (by decide)), gdtBytes_byte _ _ _ _ (by decide), Nat.mod_eq_of_lt (by omega)]
    rfl

/-! ## Tables -/

/-- The entries before `n` are encoded one by one, and none of them disturbs another. -/
lemma encodeGdtEntryAt_range (gdt : ℕ) (table : List GdtStructured) (mem : Mem) :
    ∀ n ≤ table.length, (∀ source ∈ table.take n, ¬ source.Invalid) →
      ∃ mem', (List.range n).foldlM (encodeGdtEntryAt gdt table) mem = .ok mem' ∧
        (∀ (i : ℕ) (hi : i < table.length), i < n →
          segmentAt mem' (gdt + 8 * i) = table[i].segment) ∧
        ∀ x, x < gdt ∨ gdt + 8 * n ≤ x → mem' x = mem x := by
  intro n
  induction n with
  | zero =>
    intro _ _
    exact ⟨mem, rfl, fun i _ hi => absurd hi (Nat.not_lt_zero i), fun _ _ => rfl⟩
  | succ n ih =>
    intro hn hvalid
    have htake : table.take (n + 1) = table.take n ++ [table[n]] :=
      (List.take_append_getElem hn).symm
    have hentry : ¬ (table[n]).Invalid := by
      apply hvalid
      rw [htake]
      exact List.mem_append_right _ List.mem_cons_self
    have hbefore : ∀ source ∈ table.take n, ¬ source.Invalid := by
      intro source hsource
      apply hvalid
      rw [htake]
      exact List.mem_append_left _ hsource
    rcases ih (by omega) hbefore with ⟨mem', hrun, hsegments, hframe⟩
    have hlength := length_bytes table[n]
    refine ⟨writeBytes mem' (gdt + 8 * n) (table[n]).bytes, ?_, ?_, ?_⟩
    · have hstep : encodeGdtEntryAt gdt table mem' n =
          .ok (writeBytes mem' (gdt + 8 * n) (table[n]).bytes) := by
        rw [encodeGdtEntryAt, List.getElem?_eq_getElem hn]
        exact encodeGdtEntry_eq hentry
      rw [List.range_succ, List.foldlM_append, hrun]
      simp only [List.foldlM_cons, List.foldlM_nil, hstep, ok_bind, pure_eq_ok]
    · intro i hi hlt
      rcases Nat.lt_succ_iff_lt_or_eq.mp hlt with hlt | heq
      · -- an entry in front of the new one
        rw [← hsegments i hi hlt]
        apply segmentAt_congr
        intro x _ hx
        exact writeBytes_of_outside (Or.inl (by omega))
      · simp only [heq]
        exact segmentAt_bytes hentry
    · intro x hx
      rw [writeBytes_of_outside (by omega)]
      exact hframe x (by omega)

/-- **Descriptors.** `encodeGdtEntry` rejects an entry for its limit, or else the processor decodes
it to the base, the limit and the type that were asked for, and nothing beyond its eight bytes is
written. `gdt_structured_to_gdt` does so for every entry of a table. -/
theorem gdt_decodes :
    (∀ (target : Addr) (source : GdtStructured) (mem : Mem),
      (source.Invalid → encodeGdtEntry target source mem = .error .panic) ∧
      (¬ source.Invalid → ∃ mem', encodeGdtEntry target source mem = .ok mem' ∧
        segmentAt mem' target = source.segment ∧
        ∀ x, x < target ∨ target + 8 ≤ x → mem' x = mem x)) ∧
    ∀ (gdt : Addr) (structuredGdt : List GdtStructured) (totalEntries : ℤ) (mem : Mem),
      totalEntries ≤ structuredGdt.length →
      (∀ source ∈ structuredGdt.take totalEntries.toNat, ¬ source.Invalid) →
      ∃ mem', gdtStructuredToGdt gdt structuredGdt totalEntries mem = .ok mem' ∧
        (∀ (i : ℕ) (hi : i < structuredGdt.length), (i : ℤ) < totalEntries →
          segmentAt mem' (gdt + 8 * i) = structuredGdt[i].segment) ∧
        ∀ x, x < gdt ∨ gdt + 8 * totalEntries.toNat ≤ x → mem' x = mem x := by
  constructor
  · intro target source mem
    refine ⟨fun h => encodeGdtEntry_invalid h, fun h => ?_⟩
    refine ⟨_, encodeGdtEntry_eq h, segmentAt_bytes h, fun x hx => ?_⟩
    rw [← length_bytes source] at hx
    exact writeBytes_of_outside hx
  · intro gdt structuredGdt totalEntries mem hlength hvalid
    rcases encodeGdtEntryAt_range gdt structuredGdt mem totalEntries.toNat (by omega) hvalid with
      ⟨mem', hrun, hsegments, hframe⟩
    exact ⟨mem', hrun, fun i hi hlt => hsegments i hi (by omega), hframe⟩

/-- The largest limit that counts bytes. -/
theorem gdt_decodes_threshold :
    ∃ mem', encodeGdtEntry 0x8000 ⟨0x12345678, 65536, 0xE9⟩ (fun _ => 0) = .ok mem' ∧
      segmentAt mem' 0x8000 = ⟨0x12345678, 65536, 0xE9⟩ ∧
      ∀ x, x < 0x8000 ∨ 0x8000 + 8 ≤ x → mem' x = 0 :=
  (gdt_decodes.1 0x8000 ⟨0x12345678, 65536, 0xE9⟩ (fun _ => 0)).2 (by decide)

end MarrowOS
