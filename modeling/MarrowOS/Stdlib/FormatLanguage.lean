import MarrowOS.Stdlib.Numerals
import MarrowOS.Stdlib.Printf

/-!
# The language of formats

A format is a list of directives: characters that stand for themselves, and conversions with a
length and a letter. `renderFormat` writes a format down and `parseFormat` reads it back; `meaning`
is what it prints and how many words of the arguments it uses. A `FormatItem` is a directive together
with a value of the type that it is for.
-/

namespace MarrowOS

open ByteMem CInt

/-! ## Syntax -/

inductive FormatLength
  | short
  | long
  | longLong
deriving DecidableEq, Repr

inductive Directive
  | text (c : UInt8)
  | conversion (length : FormatLength) (c : UInt8)
deriving DecidableEq, Repr

def FormatLength.chars : FormatLength → CString
  | short => []
  | long => [charL]
  | longLong => [charL, charL]

def Directive.render : Directive → CString
  | text c => [c]
  | conversion length c => charPercent :: (length.chars ++ [c])

def renderFormat (format : List Directive) : CString := format.flatMap Directive.render

/-- A directive that can be written down: no NUL, and no character that would start another
directive or make this one longer. -/
def Directive.Valid : Directive → Prop
  | text c => c ≠ 0 ∧ c ≠ charPercent
  | conversion .longLong c => c ≠ 0
  | conversion _ c => c ≠ 0 ∧ c ≠ charL

/-- Reads the directives of a string; `none` when its end cuts one short. -/
def parseFormat : CString → Option (List Directive)
  | [] => some []
  | c :: w =>
    if c ≠ charPercent then (parseFormat w).map (.text c :: ·)
    else match w with
      | [] => none
      | c :: w =>
        if c ≠ charL then (parseFormat w).map (.conversion .short c :: ·)
        else match w with
          | [] => none
          | c :: w =>
            if c ≠ charL then (parseFormat w).map (.conversion .long c :: ·)
            else match w with
              | [] => none
              | c :: w => (parseFormat w).map (.conversion .longLong c :: ·)

lemma parseFormat_text {c : UInt8} (hc : c ≠ charPercent) (w : CString) :
    parseFormat (c :: w) = (parseFormat w).map (.text c :: ·) := by
  rw [parseFormat.eq_def]
  exact if_pos hc

lemma parseFormat_short {c : UInt8} (hc : c ≠ charL) (w : CString) :
    parseFormat (charPercent :: c :: w) = (parseFormat w).map (.conversion .short c :: ·) := by
  rw [parseFormat.eq_def]
  exact (if_neg (not_not.mpr rfl)).trans (if_pos hc)

lemma parseFormat_long {c : UInt8} (hc : c ≠ charL) (w : CString) :
    parseFormat (charPercent :: charL :: c :: w) =
      (parseFormat w).map (.conversion .long c :: ·) := by
  rw [parseFormat.eq_def]
  exact (if_neg (not_not.mpr rfl)).trans ((if_neg (not_not.mpr rfl)).trans (if_pos hc))

lemma parseFormat_longLong (c : UInt8) (w : CString) :
    parseFormat (charPercent :: charL :: charL :: c :: w) =
      (parseFormat w).map (.conversion .longLong c :: ·) := by
  rw [parseFormat.eq_def]
  exact (if_neg (not_not.mpr rfl)).trans ((if_neg (not_not.mpr rfl)).trans
    (if_neg (not_not.mpr rfl)))

/-- A directive in front. -/
lemma parseFormat_render {d : Directive} (hd : d.Valid) (w : CString) :
    parseFormat (d.render ++ w) = (parseFormat w).map (d :: ·) := by
  cases d with
  | text c => exact parseFormat_text hd.2 w
  | conversion length c =>
    cases length with
    | short => exact parseFormat_short hd.2 w
    | long => exact parseFormat_long hd.2 w
    | longLong => exact parseFormat_longLong c w

/-- Reading inverts writing. -/
theorem parseFormat_renderFormat {format : List Directive} (hvalid : ∀ d ∈ format, d.Valid) :
    parseFormat (renderFormat format) = some format := by
  induction format with
  | nil => exact parseFormat.eq_1
  | cons d format ih =>
    rw [List.forall_mem_cons] at hvalid
    rw [renderFormat, List.flatMap_cons, parseFormat_render hvalid.1]
    show (parseFormat (renderFormat format)).map (d :: ·) = _
    rw [ih hvalid.2]
    rfl

/-- Writing inverts reading, and what was read can be written. -/
theorem renderFormat_of_parseFormat {w : CString} (hw : 0 ∉ w) {format : List Directive}
    (h : parseFormat w = some format) :
    (∀ d ∈ format, d.Valid) ∧ renderFormat format = w := by
  -- a directive that was read, in front of the rest
  have hcons : ∀ {d : Directive} {v : CString} {format : List Directive}, d.Valid →
      (parseFormat v).map (d :: ·) = some format →
      (∀ f, parseFormat v = some f → (∀ d ∈ f, d.Valid) ∧ renderFormat f = v) →
      (∀ d ∈ format, d.Valid) ∧ renderFormat format = d.render ++ v := by
    intro d v format hd hparse hrest
    rcases Option.map_eq_some_iff.mp hparse with ⟨f, hf, rfl⟩
    rcases hrest f hf with ⟨hvalid, hrender⟩
    refine ⟨List.forall_mem_cons.mpr ⟨hd, hvalid⟩, ?_⟩
    rw [← hrender]
    rfl
  induction hlength : w.length using Nat.strong_induction_on generalizing w format with
  | _ n ih =>
    subst hlength
    match w with
    | [] =>
      rw [parseFormat] at h
      cases h
      exact ⟨fun d hd => absurd hd List.not_mem_nil, rfl⟩
    | c :: w =>
      rw [List.mem_cons, not_or] at hw
      by_cases hc : c = charPercent
      · subst hc
        match w with
        | [] =>
          rw [parseFormat, if_neg (not_not.mpr rfl)] at h
          cases h
        | c :: w =>
          rw [List.mem_cons, not_or] at hw
          by_cases hl : c = charL
          · subst hl
            match w with
            | [] =>
              rw [parseFormat, if_neg (not_not.mpr rfl), if_neg (not_not.mpr rfl)] at h
              cases h
            | c :: w =>
              rw [List.mem_cons, not_or] at hw
              by_cases hll : c = charL
              · subst hll
                match w with
                | [] =>
                  rw [parseFormat, if_neg (not_not.mpr rfl), if_neg (not_not.mpr rfl),
                    if_neg (not_not.mpr rfl)] at h
                  cases h
                | c :: w =>
                  rw [List.mem_cons, not_or] at hw
                  rw [parseFormat_longLong] at h
                  exact hcons (d := .conversion .longLong c) (Ne.symm hw.2.2.2.1) h fun f hf =>
                    ih _ (by simp only [List.length_cons]; omega) hw.2.2.2.2 hf rfl
              · rw [parseFormat_long hll] at h
                exact hcons (d := .conversion .long c) ⟨Ne.symm hw.2.2.1, hll⟩ h fun f hf =>
                  ih _ (by simp only [List.length_cons]; omega) hw.2.2.2 hf rfl
          · rw [parseFormat_short hl] at h
            exact hcons (d := .conversion .short c) ⟨Ne.symm hw.2.1, hl⟩ h fun f hf =>
              ih _ (by simp only [List.length_cons]; omega) hw.2.2 hf rfl
      · rw [parseFormat_text hc] at h
        exact hcons (d := .text c) ⟨Ne.symm hw.1, hc⟩ h fun f hf =>
          ih _ (by simp only [List.length_cons]; omega) hw.2 hf rfl

/-! ## Meaning -/

/-- What a letter asks for. -/
inductive Conversion
  | signed
  | unsigned (base : ℕ) (upper : Bool)
  | str
  | char
  | pointer
  | verbatim
deriving DecidableEq, Repr

def conversionOf (length : FormatLength) (c : UInt8) : Conversion :=
  if c = 0x64 ∨ c = 0x69 then .signed
  else if c = 0x75 then .unsigned 10 false
  else if c = 0x78 then .unsigned 16 false
  else if c = 0x58 then .unsigned 16 true
  else if c = 0x6F then .unsigned 8 false
  else if length ≠ .short then .verbatim
  else if c = 0x73 then .str
  else if c = 0x63 then .char
  else if c = 0x70 then .pointer
  else .verbatim

/-- The next argument, of which a missing word counts as zero, and the words behind it. -/
def takeWord (ap : List UInt32) : ℕ × List UInt32 := ((ap.headD 0).toNat, ap.tail)

def takeWords : FormatLength → List UInt32 → ℕ × List UInt32
  | .longLong, ap => ((takeWord ap).1 + (takeWord (takeWord ap).2).1 * 2 ^ 32,
      (takeWord (takeWord ap).2).2)
  | _, ap => takeWord ap

/-- The bits of an argument. -/
def FormatLength.bits : FormatLength → ℕ
  | longLong => 64
  | _ => 32

def Directive.meaning : Directive → List UInt32 → List Printed × List UInt32
  | text c, ap => ([.chars [c]], ap)
  | conversion length c, ap =>
    let (val, rest) := takeWords length ap
    match conversionOf length c with
    | .signed => ([.chars (intNumeral (Int.bmod val (2 ^ length.bits)))], rest)
    | .unsigned base upper => ([.chars (natNumeral base upper val)], rest)
    | .str => ([.str val], rest)
    | .char => ([.chars [UInt8.ofNat val]], rest)
    | .pointer => ([.chars [0x30, 0x78], .chars (natNumeral 16 false val)], rest)
    | .verbatim => ([.chars [c]], ap)

/-- What is printed, piece by piece, and the arguments that are left. -/
def meaning : List Directive → List UInt32 → List Printed × List UInt32
  | [], ap => ([], ap)
  | d :: format, ap =>
    let (printed, ap) := d.meaning ap
    let (rest, ap) := meaning format ap
    (printed ++ rest, ap)

/-! ## Arguments of the right types -/

/-- The letters of the unsigned conversions. -/
inductive NumberBase
  | decimal
  | hex
  | upperHex
  | octal
deriving DecidableEq, Repr

def NumberBase.char : NumberBase → UInt8
  | decimal => 0x75
  | hex => 0x78
  | upperHex => 0x58
  | octal => 0x6F

def NumberBase.base : NumberBase → ℕ
  | decimal => 10
  | hex => 16
  | upperHex => 16
  | octal => 8

def NumberBase.upper : NumberBase → Bool
  | upperHex => true
  | _ => false

/-- A directive together with the value that is meant for it. -/
inductive FormatItem
  | text (c : UInt8)
  | percent
  | signed (length : FormatLength) (v : ℤ)
  | unsigned (length : FormatLength) (base : NumberBase) (v : ℕ)
  | str (sval : ℕ) (w : CString)
  | char (c : UInt8)
  | pointer (v : ℕ)

def FormatItem.directive : FormatItem → Directive
  | text c => .text c
  | percent => .conversion .short charPercent
  | signed length _ => .conversion length 0x64
  | unsigned length base _ => .conversion length base.char
  | str _ _ => .conversion .short 0x73
  | char _ => .conversion .short 0x63
  | pointer _ => .conversion .short 0x70

/-- The words that hold a number. -/
def FormatLength.words : FormatLength → ℕ → List UInt32
  | longLong, v => [UInt32.ofNat v, UInt32.ofNat (v / 2 ^ 32)]
  | _, v => [UInt32.ofNat v]

/-- The words of the value on the stack. -/
def FormatItem.args : FormatItem → List UInt32
  | text _ => []
  | percent => []
  | signed length v => length.words (v % 2 ^ length.bits).toNat
  | unsigned length _ v => length.words v
  | str sval _ => [UInt32.ofNat sval]
  | char c => [UInt32.ofNat c.toNat]
  | pointer v => [UInt32.ofNat v]

/-- How the value is to be shown. -/
def FormatItem.shows : FormatItem → CString
  | text c => [c]
  | percent => [charPercent]
  | signed _ v => intNumeral v
  | unsigned _ base v => natNumeral base.base base.upper v
  | str _ w => w
  | char c => [c]
  | pointer v => [0x30, 0x78] ++ natNumeral 16 false v

/-- The value is one of the type, and a string is in memory. -/
def FormatItem.Valid (mem : Mem) : FormatItem → Prop
  | text c => c ≠ 0 ∧ c ≠ charPercent
  | percent => True
  | signed length v => -2 ^ (length.bits - 1) ≤ v ∧ v < 2 ^ (length.bits - 1)
  | unsigned length _ v => v < 2 ^ length.bits
  | str sval w => StringAt mem sval w ∧ sval + w.length < 2 ^ 32
  | char _ => True
  | pointer v => v < 2 ^ 32

/-- The characters that reach the screen. -/
def Printed.text (mem : Mem) : Printed → CString
  | chars w => w
  | str sval => readString mem (2 ^ 32 - sval) sval

variable {mem : Mem}

lemma toNat_ofNat_word {v : ℕ} (hv : v < 2 ^ 32) : (UInt32.ofNat v).toNat = v := by
  rw [UInt32.toNat_ofNat']
  exact Nat.mod_eq_of_lt hv

lemma takeWord_word {v : ℕ} (hv : v < 2 ^ 32) (rest : List UInt32) :
    takeWord (UInt32.ofNat v :: rest) = (v, rest) := by
  have hhead : (UInt32.ofNat v :: rest).headD 0 = UInt32.ofNat v := rfl
  rw [takeWord, hhead, toNat_ofNat_word hv]
  rfl

/-- A number is taken back from its words. -/
lemma takeWords_words (length : FormatLength) {v : ℕ} (hv : v < 2 ^ length.bits)
    (rest : List UInt32) : takeWords length (length.words v ++ rest) = (v, rest) := by
  cases length with
  | short => exact takeWord_word hv rest
  | long => exact takeWord_word hv rest
  | longLong =>
    have hv : v < 2 ^ 64 := hv
    have hlow : takeWord (FormatLength.longLong.words v ++ rest) =
        (v % 2 ^ 32, UInt32.ofNat (v / 2 ^ 32) :: rest) := by
      rw [← takeWord_word (Nat.mod_lt v (by decide : 0 < 2 ^ 32))]
      have hmod : UInt32.ofNat (v % 2 ^ 32) = UInt32.ofNat v := by
        apply UInt32.toNat_inj.mp
        rw [UInt32.toNat_ofNat', UInt32.toNat_ofNat', Nat.mod_mod]
      rw [hmod]
      rfl
    have hhigh := takeWord_word (v := v / 2 ^ 32) (by omega) rest
    rw [takeWords, hlow, hhigh]
    exact congrArg (·, rest) (by omega)

/-- The residue of a number in range stands for it. -/
lemma bmod_residue {bits : ℕ} {v : ℤ} (hlo : -2 ^ (bits - 1) ≤ v) (hhi : v < 2 ^ (bits - 1))
    (hbits : 0 < bits) :
    ((v % 2 ^ bits).toNat < 2 ^ bits) ∧ Int.bmod ((v % 2 ^ bits).toNat : ℤ) (2 ^ bits) = v := by
  obtain ⟨k, rfl⟩ : ∃ k, bits = k + 1 := ⟨bits - 1, by omega⟩
  rw [Nat.add_sub_cancel] at hlo hhi
  have hpow : (2 : ℤ) ^ (k + 1) = 2 * 2 ^ k := by rw [pow_succ]; ring
  have hpos : (0 : ℤ) < 2 ^ (k + 1) := by positivity
  have hnonneg := Int.emod_nonneg v hpos.ne'
  have hlt := Int.emod_lt_of_pos v hpos
  refine ⟨?_, ?_⟩
  · rw [Int.toNat_lt hnonneg]
    exact_mod_cast hlt
  · have hcast : ((2 ^ (k + 1) : ℕ) : ℤ) = 2 ^ (k + 1) := by push_cast; rfl
    rw [Int.toNat_of_nonneg hnonneg, ← hcast, Int.emod_bmod]
    apply Int.bmod_eq_of_le
    all_goals
      rw [hcast, hpow]
      omega

lemma NumberBase.conversionOf_char (base : NumberBase) (length : FormatLength) :
    conversionOf length base.char = .unsigned base.base base.upper := by
  cases base <;> rfl

lemma Directive.valid_conversion {c : UInt8} (h0 : c ≠ 0) (hl : c ≠ charL)
    (length : FormatLength) : (conversion length c).Valid := by
  cases length with
  | short => exact ⟨h0, hl⟩
  | long => exact ⟨h0, hl⟩
  | longLong => exact h0

lemma FormatItem.directive_valid {item : FormatItem} (h : item.Valid mem) :
    item.directive.Valid := by
  cases item with
  | text c => exact h
  | percent => exact Directive.valid_conversion (by decide) (by decide) .short
  | signed length v => exact Directive.valid_conversion (by decide) (by decide) length
  | unsigned length base v =>
    cases base <;> exact Directive.valid_conversion (by decide) (by decide) length
  | str sval w => exact Directive.valid_conversion (by decide) (by decide) .short
  | char c => exact Directive.valid_conversion (by decide) (by decide) .short
  | pointer v => exact Directive.valid_conversion (by decide) (by decide) .short

/-- A directive prints its value and takes its words. -/
lemma FormatItem.meaning_directive {item : FormatItem} (h : item.Valid mem) (rest : List UInt32) :
    (item.directive.meaning (item.args ++ rest)).1.flatMap (Printed.text mem) = item.shows ∧
      (item.directive.meaning (item.args ++ rest)).2 = rest := by
  cases item with
  | text c => exact ⟨rfl, rfl⟩
  | percent => exact ⟨rfl, rfl⟩
  | signed length v =>
    have hbits : 0 < length.bits := by cases length <;> decide
    have hres := bmod_residue h.1 h.2 hbits
    have hwords := takeWords_words length hres.1 rest
    have hconv : conversionOf length 0x64 = .signed := rfl
    simp only [directive, args, Directive.meaning, hwords, hconv, hres.2]
    exact ⟨List.append_nil _, trivial⟩
  | unsigned length base v =>
    have hwords := takeWords_words length h rest
    simp only [directive, args, Directive.meaning, hwords, base.conversionOf_char]
    exact ⟨List.append_nil _, trivial⟩
  | str sval w =>
    rcases h with ⟨hw, hspace⟩
    have hword := takeWord_word (v := sval) (by omega) rest
    have htext : readString mem (2 ^ 32 - sval) sval = w := by
      rw [hw.readString, List.take_of_length_le (by omega)]
    have hconv : conversionOf .short 0x73 = .str := rfl
    simp only [directive, args, Directive.meaning, takeWords, List.cons_append, List.nil_append,
      hword, hconv]
    exact ⟨(List.append_nil _).trans htext, trivial⟩
  | char c =>
    have hlt := c.toNat_lt
    have hword := takeWord_word (v := c.toNat) (by omega) rest
    have hconv : conversionOf .short 0x63 = .char := rfl
    simp only [directive, args, Directive.meaning, takeWords, List.cons_append, List.nil_append,
      hword, hconv, UInt8.ofNat_toNat]
    exact ⟨rfl, trivial⟩
  | pointer v =>
    have hword := takeWord_word h rest
    have hconv : conversionOf .short 0x70 = .pointer := rfl
    simp only [directive, args, Directive.meaning, takeWords, List.cons_append, List.nil_append,
      hword, hconv]
    exact ⟨congrArg ([0x30, 0x78] ++ ·) (List.append_nil _), trivial⟩

lemma meaning_items {items : List FormatItem} (h : ∀ item ∈ items, item.Valid mem)
    (rest : List UInt32) :
    (meaning (items.map FormatItem.directive) (items.flatMap FormatItem.args ++ rest)).1.flatMap
        (Printed.text mem) = items.flatMap FormatItem.shows ∧
      (meaning (items.map FormatItem.directive)
        (items.flatMap FormatItem.args ++ rest)).2 = rest := by
  induction items with
  | nil => exact ⟨rfl, rfl⟩
  | cons item items ih =>
    rw [List.forall_mem_cons] at h
    have hitem := item.meaning_directive h.1 (items.flatMap FormatItem.args ++ rest)
    rw [List.flatMap_cons, List.append_assoc, List.flatMap_cons, List.map_cons]
    simp only [meaning, hitem.2, List.flatMap_append, hitem.1, ih h.2]
    exact ⟨trivial, trivial⟩

end MarrowOS
