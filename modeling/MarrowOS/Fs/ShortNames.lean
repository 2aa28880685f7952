import MarrowOS.Fs.FatDirectoryTheorems
import MarrowOS.Lib.Footprint
import MarrowOS.Lib.MemStrings
import Mathlib.Data.List.TakeWhile

/-!
# Short names of directory entries (`fat16.c`)

An entry of a directory holds a name of up to eight characters and an extension of up to three, both
padded with spaces. `fat16_get_full_relative_filename` writes them into a buffer as one string,
through a cursor that the two copies share. The functions are given here on memory, with what they
read; on the entry as a record they are `fat16GetFullRelativeFilename`.
-/

namespace MarrowOS

open ByteMem Footprint

namespace Reading

/-! ## Rendering -/

/-- The loop of `fat16_to_proper_string` with the cursor at `out`; `left` is `size - 1 - i`. -/
def properStringLoop : (left : ℕ) → (out input : Addr) → Mem → Traced (Addr × Mem)
  | 0, out, input, mem => do
    let c ← traceU8 mem input
    if c ≠ 0x00 ∧ c ≠ 0x20 then return (out + 1, Function.update mem out c)
    else return (out, mem)
  | left + 1, out, input, mem => do
    let c ← traceU8 mem input
    if c ≠ 0x00 ∧ c ≠ 0x20 then
      properStringLoop left (out + 1) (input + 1) (Function.update mem out c)
    else return (out, mem)

/-- Returns the cursor, which stands on the NUL. -/
def fat16ToProperString (out input : Addr) (size : ℕ) (mem : Mem) : Traced (Addr × Mem) := do
  let (out, mem) ← properStringLoop (size - 1) out input mem
  return (out, Function.update mem out 0x00)

/-- The fields `filename` and `ext` of the item at `item` are its first eleven bytes. -/
def fat16GetFullRelativeFilename (item out : Addr) (maxLen : ℕ) (mem : Mem) : Traced Mem := do
  let mem := fill mem out maxLen 0x00
  let (outTmp, mem) ← fat16ToProperString out item 8 mem
  let c ← traceU8 mem (item + 8)
  if c ≠ 0x00 ∧ c ≠ 0x20 then
    let mem := Function.update mem outTmp 0x2E
    let (_, mem) ← fat16ToProperString (outTmp + 1) (item + 8) 3 mem
    return mem
  else return mem

variable {mem : Mem} {item out input left maxLen : ℕ} {bs name ext : List UInt8}

/-- The bytes `bs` stand in memory from `a` on. -/
def BytesAt (mem : Mem) (a : ℕ) (bs : List UInt8) : Prop :=
  ∀ k < bs.length, mem (a + k) = bs.getD k 0

lemma BytesAt.congr {mem' : Mem} {a : ℕ} (h : BytesAt mem a bs)
    (hsame : ∀ x, a ≤ x → x < a + bs.length → mem' x = mem x) : BytesAt mem' a bs := by
  intro k hk
  rw [hsame (a + k) (by omega) (by omega)]
  exact h k hk

lemma BytesAt.tail {b : UInt8} {a : ℕ} (h : BytesAt mem a (b :: bs)) : BytesAt mem (a + 1) bs := by
  intro k hk
  have hnext := h (k + 1) (Nat.succ_lt_succ hk)
  rwa [show a + (k + 1) = a + 1 + k by omega, List.getD_cons_succ] at hnext

/-- The loop ends at the padding. -/
lemma properStringLoop_stop (left out : ℕ) {size : ℕ}
    (h : ¬ (mem input ≠ 0x00 ∧ mem input ≠ 0x20)) (hsize : 1 ≤ size) :
    (properStringLoop left out input mem).value = (out, mem) ∧
      (properStringLoop left out input mem).Within input size := by
  have hinside : (Span.mk input 1).Inside input size := ⟨le_rfl, Nat.add_le_add_left hsize input⟩
  cases left with
  | zero =>
    simp only [properStringLoop, value_bind, value_traceU8, within_bind, within_traceU8, if_neg h]
    exact ⟨rfl, hinside, within_pure _⟩
  | succ left =>
    simp only [properStringLoop, value_bind, value_traceU8, within_bind, within_traceU8, if_neg h]
    exact ⟨rfl, hinside, within_pure _⟩

/-- The loop copies the field up to its padding, and reads nothing behind the field. -/
lemma properStringLoop_eq (hlength : bs.length = left + 1) (hbytes : BytesAt mem input bs)
    (hapart : input + bs.length ≤ out ∨ out + bs.length ≤ input) :
    (properStringLoop left out input mem).value =
        (out + (MarrowOS.fat16ToProperString bs).length,
          writeBytes mem out (MarrowOS.fat16ToProperString bs)) ∧
      (properStringLoop left out input mem).Within input bs.length := by
  -- on the bytes that are left of the field
  induction left generalizing bs out input mem with
  | zero =>
    obtain ⟨b, rfl⟩ := List.length_eq_one_iff.mp hlength
    have hb : mem input = b := hbytes 0 Nat.one_pos
    have hinside : (Span.mk input 1).Inside input 1 := ⟨le_rfl, le_rfl⟩
    by_cases hplain : b ≠ 0x00 ∧ b ≠ 0x20
    · -- the field is full
      rw [MarrowOS.fat16ToProperString, if_pos hplain, ← writeBytes_cons]
      simp only [properStringLoop, value_bind, value_traceU8, within_bind, within_traceU8, hb,
        if_pos hplain]
      exact ⟨by rw [MarrowOS.fat16ToProperString, writeBytes_nil]; rfl, hinside, within_pure _⟩
    · rw [MarrowOS.fat16ToProperString, if_neg hplain, writeBytes_nil]
      rw [← hb] at hplain
      exact properStringLoop_stop 0 out hplain le_rfl
  | succ left ih =>
    cases bs with
    | nil => exact absurd hlength (by rw [List.length_nil]; omega)
    | cons b bs =>
      have hb : mem input = b := hbytes 0 (Nat.succ_pos _)
      rw [List.length_cons] at hlength hapart
      by_cases hplain : b ≠ 0x00 ∧ b ≠ 0x20
      · -- the store does not touch what is left of the field
        have hrest : BytesAt (Function.update mem out b) (input + 1) bs := by
          apply hbytes.tail.congr
          intro x hx hx'
          exact Function.update_of_ne (by omega) _ _
        rcases ih (show bs.length = left + 1 by omega) hrest
          (show input + 1 + bs.length ≤ out + 1 ∨ out + 1 + bs.length ≤ input + 1 by omega) with
          ⟨hvalue, hwithin⟩
        rw [MarrowOS.fat16ToProperString, if_pos hplain, ← writeBytes_cons]
        simp only [properStringLoop, value_bind, value_traceU8, within_bind, within_traceU8, hb,
          if_pos hplain, hvalue]
        refine ⟨?_, ?_, ?_⟩
        · rw [List.length_cons]
          congr 1
          omega
        · exact ⟨le_rfl, by rw [List.length_cons]; dsimp only; omega⟩
        · intro s hs
          rcases hwithin s hs with ⟨hlo, hhi⟩
          exact ⟨by omega, by rw [List.length_cons]; omega⟩
      · rw [MarrowOS.fat16ToProperString, if_neg hplain, writeBytes_nil]
        rw [← hb] at hplain
        exact properStringLoop_stop (left + 1) out hplain (Nat.succ_pos _)

/-- The field without its padding, with a NUL behind it. -/
lemma fat16ToProperString_eq {size : ℕ} (hsize : bs.length = size) (hpos : 0 < size)
    (hbytes : BytesAt mem input bs) (hapart : input + size ≤ out ∨ out + size ≤ input) :
    (fat16ToProperString out input size mem).value =
        (out + (MarrowOS.fat16ToProperString bs).length,
          writeBytes mem out (MarrowOS.fat16ToProperString bs ++ [0])) ∧
      (fat16ToProperString out input size mem).Within input size := by
  rw [← hsize] at hapart
  rcases properStringLoop_eq (show bs.length = size - 1 + 1 by omega) hbytes hapart with
    ⟨hvalue, hwithin⟩
  rw [hsize] at hwithin
  constructor
  · rw [fat16ToProperString, value_bind, hvalue, ← writeBytes_concat]
    rfl
  · rw [fat16ToProperString, within_bind]
    exact ⟨hwithin, within_pure _⟩

/-- The string for the two fields. -/
def fieldsString (name ext : List UInt8) : CString :=
  if ext.getD 0 0 ≠ 0x00 ∧ ext.getD 0 0 ≠ 0x20 then
    MarrowOS.fat16ToProperString name ++ 0x2E :: MarrowOS.fat16ToProperString ext
  else MarrowOS.fat16ToProperString name

/-- On a record it is the string that the search compares. -/
theorem fieldsString_toList (it : FatDirectoryItem) :
    fieldsString it.filename.toList it.ext.toList = MarrowOS.fat16GetFullRelativeFilename it := by
  have hfirst : it.ext.toList.getD 0 0 = it.ext[0] := by
    rw [List.getD_eq_getElem _ _ (by rw [Vector.length_toList]; decide), Vector.getElem_toList]
  rw [fieldsString, hfirst]
  rfl

/-- What is written into the buffer, and what is read of the item. -/
theorem fat16GetFullRelativeFilename_eq (hname : name.length = 8) (hext : ext.length = 3)
    (hnameAt : BytesAt mem item name) (hextAt : BytesAt mem (item + 8) ext)
    (hapart : item + 11 ≤ out ∨ out + max maxLen 13 ≤ item) :
    (fat16GetFullRelativeFilename item out maxLen mem).value =
        writeBytes (fill mem out maxLen 0x00) out (fieldsString name ext ++ [0]) ∧
      (fat16GetFullRelativeFilename item out maxLen mem).Within item 11 := by
  -- clearing the buffer leaves the fields alone, and so does the copy of the name
  have hnameAt' : BytesAt (fill mem out maxLen 0x00) item name := by
    apply hnameAt.congr
    intro x hx hx'
    exact fill_of_outside (by omega)
  have hlength := length_fat16ToProperString_le name
  have hextAt' : BytesAt (writeBytes (fill mem out maxLen 0x00) out
      (MarrowOS.fat16ToProperString name ++ [0])) (item + 8) ext := by
    apply hextAt.congr
    intro x hx hx'
    rw [writeBytes_of_outside, fill_of_outside (by omega)]
    rw [List.length_append, List.length_singleton]
    omega
  rcases fat16ToProperString_eq hname (by decide) hnameAt' (show _ ∨ out + 8 ≤ item by omega) with
    ⟨hcopy, hwithin⟩
  have hfirst : writeBytes (fill mem out maxLen 0x00) out
      (MarrowOS.fat16ToProperString name ++ [0]) (item + 8) = ext.getD 0 0 :=
    hextAt' 0 (by omega)
  have hnameIn : (fat16ToProperString out item 8 (fill mem out maxLen 0x00)).Within item 11 :=
    hwithin.sub 0 (by decide)
  have hfirstIn : (Span.mk (item + 8) 1).Inside item 11 := inside_add.mpr (by decide)
  unfold fieldsString
  by_cases hdot : ext.getD 0 0 ≠ 0x00 ∧ ext.getD 0 0 ≠ 0x20
  · -- the dot takes the place of the NUL, and the extension goes on behind it
    have hextAt'' : BytesAt (writeBytes (fill mem out maxLen 0x00) out
        (MarrowOS.fat16ToProperString name ++ [0x2E])) (item + 8) ext := by
      apply hextAt.congr
      intro x hx hx'
      rw [writeBytes_of_outside, fill_of_outside (by omega)]
      rw [List.length_append, List.length_singleton]
      omega
    rcases fat16ToProperString_eq hext (by decide) hextAt''
      (show _ ∨ out + (MarrowOS.fat16ToProperString name).length + 1 + 3 ≤ item + 8 by omega) with
      ⟨hcopy', hwithin'⟩
    have hbehind : out + (MarrowOS.fat16ToProperString name).length + 1 =
        out + (MarrowOS.fat16ToProperString name ++ [0x2E]).length := by
      rw [List.length_append, List.length_singleton, Nat.add_assoc]
    rw [if_pos hdot]
    constructor
    · simp only [fat16GetFullRelativeFilename, value_bind, hcopy, value_traceU8, hfirst,
        if_pos hdot, update_writeBytes_concat, hcopy', value_pure]
      rw [hbehind, writeBytes_append, List.append_assoc, List.append_assoc]
      rfl
    · simp only [fat16GetFullRelativeFilename, within_bind, hcopy, value_traceU8, within_traceU8,
        hfirst, if_pos hdot, update_writeBytes_concat]
      exact ⟨hnameIn, hfirstIn, hwithin'.sub 8 (by decide), within_pure _⟩
  · rw [if_neg hdot]
    constructor
    · simp only [fat16GetFullRelativeFilename, value_bind, hcopy, value_traceU8, hfirst,
        if_neg hdot, value_pure]
    · simp only [fat16GetFullRelativeFilename, within_bind, hcopy, value_traceU8, within_traceU8,
        hfirst, if_neg hdot]
      exact ⟨hnameIn, hfirstIn, within_pure _⟩

/-! ## Names of one to eight characters -/

/-- A field of `size` bytes, padded with spaces. -/
def padded (size : ℕ) (cs : List UInt8) : List UInt8 :=
  cs ++ List.replicate (size - cs.length) 0x20

/-- A name of one to eight characters and an extension of none to three, without spaces, NULs and
dots. -/
structure ShortName where
  name : List UInt8
  ext : List UInt8
  name_pos : 0 < name.length
  name_le : name.length ≤ 8
  ext_le : ext.length ≤ 3
  plain : ∀ c ∈ name ++ ext, c ≠ 0x00 ∧ c ≠ 0x20 ∧ c ≠ 0x2E

/-- The first eleven bytes of the entry. -/
def ShortName.bytes (n : ShortName) : List UInt8 := padded 8 n.name ++ padded 3 n.ext

def ShortName.rendered (n : ShortName) : CString :=
  if n.ext = [] then n.name else n.name ++ 0x2E :: n.ext

/-- The function is called on an entry with a short name, with a buffer apart from the entry. -/
structure OnShortName (n : ShortName) (mem : Mem) (item out maxLen : ℕ) : Prop where
  bytes : BytesAt mem item n.bytes
  apart : item + 11 ≤ out ∨ out + max maxLen 13 ≤ item

variable {n n' : ShortName} {mem' : Mem} {item' out' maxLen' : ℕ} {cs : List UInt8}

lemma length_padded {size : ℕ} (h : cs.length ≤ size) : (padded size cs).length = size := by
  rw [padded, List.length_append, List.length_replicate]
  omega

lemma ShortName.length_bytes (n : ShortName) : n.bytes.length = 11 := by
  rw [ShortName.bytes, List.length_append, length_padded n.name_le, length_padded n.ext_le]

lemma ShortName.name_plain (n : ShortName) : ∀ c ∈ n.name, c ≠ 0x00 ∧ c ≠ 0x20 ∧ c ≠ 0x2E :=
  fun c hc => n.plain c (List.mem_append_left _ hc)

lemma ShortName.ext_plain (n : ShortName) : ∀ c ∈ n.ext, c ≠ 0x00 ∧ c ≠ 0x20 ∧ c ≠ 0x2E :=
  fun c hc => n.plain c (List.mem_append_right _ hc)

/-- The copy stops at the padding, or at the end of a field without any. -/
lemma fat16ToProperString_padded (size : ℕ) (h : ∀ c ∈ cs, c ≠ 0x00 ∧ c ≠ 0x20 ∧ c ≠ 0x2E) :
    MarrowOS.fat16ToProperString (padded size cs) = cs := by
  have hcopy : ∀ k, MarrowOS.fat16ToProperString (cs ++ List.replicate k 0x20) = cs := by
    intro k
    induction cs with
    | nil =>
      cases k with
      | zero => rfl
      | succ k => exact if_neg (by decide)
    | cons c cs ih =>
      have hc := h c List.mem_cons_self
      rw [List.cons_append, MarrowOS.fat16ToProperString, if_pos ⟨hc.1, hc.2.1⟩,
        ih fun c hc => h c (List.mem_cons_of_mem _ hc)]
  exact hcopy _

/-- The dot is written where there is an extension. -/
lemma fieldsString_padded (n : ShortName) :
    fieldsString (padded 8 n.name) (padded 3 n.ext) = n.rendered := by
  rw [fieldsString, fat16ToProperString_padded _ n.name_plain,
    fat16ToProperString_padded _ n.ext_plain, ShortName.rendered]
  have hplain := n.ext_plain
  cases hext : n.ext with
  | nil => rfl
  | cons c cs =>
    rw [hext] at hplain
    have hc := hplain c List.mem_cons_self
    have hfirst : (padded 3 (c :: cs)).getD 0 0 = c := rfl
    rw [hfirst, if_pos ⟨hc.1, hc.2.1⟩, if_neg (List.cons_ne_nil c cs)]

lemma ShortName.length_rendered (n : ShortName) : n.rendered.length ≤ 12 := by
  have hname := n.name_le
  have hext := n.ext_le
  unfold ShortName.rendered
  split
  · omega
  · rw [List.length_append, List.length_cons]
    omega

lemma ShortName.not_mem_rendered (n : ShortName) : 0 ∉ n.rendered := by
  intro hmem
  unfold ShortName.rendered at hmem
  split at hmem
  · exact (n.name_plain 0 hmem).1 rfl
  · rcases List.mem_append.mp hmem with hmem | hmem
    · exact (n.name_plain 0 hmem).1 rfl
    · rcases List.mem_cons.mp hmem with hmem | hmem
      · exact absurd hmem (by decide)
      · exact (n.ext_plain 0 hmem).1 rfl

/-! ## Reading the name and the extension off the string -/

/-- The name is what stands in front of the dot. -/
lemma ShortName.takeWhile_rendered (n : ShortName) :
    n.rendered.takeWhile (· != 0x2E) = n.name := by
  have hname : ∀ c ∈ n.name, (c != 0x2E) = true := by
    intro c hc
    exact bne_iff_ne.mpr (n.name_plain c hc).2.2
  unfold ShortName.rendered
  split
  · exact List.takeWhile_eq_self_iff.mpr hname
  · rw [List.takeWhile_append_of_pos hname, List.takeWhile_cons_of_neg (by decide),
      List.append_nil]

/-- The extension is what stands behind it. -/
lemma ShortName.drop_rendered (n : ShortName) : n.rendered.drop (n.name.length + 1) = n.ext := by
  unfold ShortName.rendered
  split
  · rename_i hext
    rw [hext]
    exact List.drop_eq_nil_of_le (Nat.le_succ _)
  · rw [List.drop_append, List.drop_eq_nil_of_le (Nat.le_succ _), Nat.add_sub_cancel_left]
    rfl

/-- The string and the eleven bytes say the same. -/
theorem ShortName.rendered_inj : n.rendered = n'.rendered ↔ n.bytes = n'.bytes := by
  constructor
  · intro h
    have hname : n.name = n'.name := by
      rw [← n.takeWhile_rendered, ← n'.takeWhile_rendered, h]
    have hext : n.ext = n'.ext := by
      rw [← n.drop_rendered, ← n'.drop_rendered, h, hname]
    rw [ShortName.bytes, ShortName.bytes, hname, hext]
  · intro h
    have hlength : (padded 8 n.name).length = (padded 8 n'.name).length := by
      rw [length_padded n.name_le, length_padded n'.name_le]
    rcases List.append_inj h hlength with ⟨hname, hext⟩
    rw [← fieldsString_padded, ← fieldsString_padded, hname, hext]

/-! ## In memory -/

lemma BytesAt.append {a : ℕ} {bs' : List UInt8} (h : BytesAt mem a (bs ++ bs')) :
    BytesAt mem a bs ∧ BytesAt mem (a + bs.length) bs' := by
  constructor
  · intro k hk
    rw [h k (by rw [List.length_append]; omega), List.getD_append _ _ _ _ hk]
  · intro k hk
    rw [Nat.add_assoc, h (bs.length + k) (by rw [List.length_append]; omega),
      List.getD_append_right _ _ _ _ (Nat.le_add_right _ _), Nat.add_sub_cancel_left]

/-- The buffer holds the rendered name, and no byte outside of the entry's fields is read. -/
theorem OnShortName.rendered (h : OnShortName n mem item out maxLen) :
    (fat16GetFullRelativeFilename item out maxLen mem).value =
        writeBytes (fill mem out maxLen 0x00) out (n.rendered ++ [0]) ∧
      (fat16GetFullRelativeFilename item out maxLen mem).Within item 11 := by
  rcases h.bytes.append with ⟨hname, hext⟩
  rw [length_padded n.name_le] at hext
  rw [← fieldsString_padded]
  exact fat16GetFullRelativeFilename_eq (length_padded n.name_le) (length_padded n.ext_le) hname
    hext h.apart

lemma OnShortName.stringAt (h : OnShortName n mem item out maxLen) :
    StringAt (fat16GetFullRelativeFilename item out maxLen mem).value out n.rendered := by
  rw [h.rendered.1]
  exact stringAt_writeBytes n.not_mem_rendered

/-- Two entries hold the same name when their eleven bytes agree. -/
lemma bytes_eq_iff (h : BytesAt mem item n.bytes) (h' : BytesAt mem' item' n'.bytes) :
    n.bytes = n'.bytes ↔ ∀ k < 11, mem (item + k) = mem' (item' + k) := by
  have hlength := n.length_bytes
  have hlength' := n'.length_bytes
  constructor
  · intro heq k hk
    rw [h k (by omega), h' k (by omega), heq]
  · intro hsame
    apply List.ext_getElem (by omega)
    intro k hk hk'
    rw [← List.getD_eq_getElem _ 0 hk, ← List.getD_eq_getElem _ 0 hk', ← h k hk, ← h' k hk']
    exact hsame k (by omega)

/-- **Short names.** `fat16_get_full_relative_filename` renders a short name as its name, with a dot
and the extension behind it where there is one: at most twelve characters and a NUL. It reads the
eleven bytes of the two fields at most, and writes into its buffer only. Two entries are rendered as
one string exactly when their eleven bytes agree. -/
theorem short_names_render :
    (∀ (n : ShortName) (mem : Mem) (item out maxLen : ℕ), OnShortName n mem item out maxLen →
      StringAt (fat16GetFullRelativeFilename item out maxLen mem).value out n.rendered ∧
      n.rendered.length ≤ 12 ∧
      (fat16GetFullRelativeFilename item out maxLen mem).Within item 11 ∧
      ∀ x, x < out ∨ out + max maxLen 13 ≤ x →
        (fat16GetFullRelativeFilename item out maxLen mem).value x = mem x) ∧
    ∀ (n n' : ShortName) (mem mem' : Mem) (item item' out out' maxLen maxLen' : ℕ),
      OnShortName n mem item out maxLen → OnShortName n' mem' item' out' maxLen' →
      ((∃ w, StringAt (fat16GetFullRelativeFilename item out maxLen mem).value out w ∧
          StringAt (fat16GetFullRelativeFilename item' out' maxLen' mem').value out' w) ↔
        ∀ k < 11, mem (item + k) = mem' (item' + k)) := by
  constructor
  · intro n mem item out maxLen h
    have hlength := n.length_rendered
    refine ⟨h.stringAt, hlength, h.rendered.2, fun x hx => ?_⟩
    rw [h.rendered.1, writeBytes_of_outside, fill_of_outside (by omega)]
    rw [List.length_append, List.length_singleton]
    omega
  · intro n n' mem mem' item item' out out' maxLen maxLen' h h'
    rw [← bytes_eq_iff h.bytes h'.bytes, ← ShortName.rendered_inj]
    constructor
    · rintro ⟨w, hw, hw'⟩
      exact (h.stringAt.unique hw).trans (h'.stringAt.unique hw').symm
    · intro heq
      refine ⟨n.rendered, h.stringAt, ?_⟩
      rw [heq]
      exact h'.stringAt

/-- `KERNEL32.BIN`, which needs no padding. -/
def fullName : ShortName where
  name := [0x4B, 0x45, 0x52, 0x4E, 0x45, 0x4C, 0x33, 0x32]
  ext := [0x42, 0x49, 0x4E]
  name_pos := by decide
  name_le := by decide
  ext_le := by decide
  plain := by simp

theorem short_names_render_full :
    StringAt (fat16GetFullRelativeFilename 0 32 108 (writeBytes (fun _ => 0x41) 0
        fullName.bytes)).value 32 fullName.rendered ∧
      fullName.rendered.length ≤ 12 ∧
      (fat16GetFullRelativeFilename 0 32 108 (writeBytes (fun _ => 0x41) 0
        fullName.bytes)).Within 0 11 ∧
      ∀ x, x < 32 ∨ 32 + max 108 13 ≤ x →
        (fat16GetFullRelativeFilename 0 32 108 (writeBytes (fun _ => 0x41) 0
          fullName.bytes)).value x = writeBytes (fun _ => 0x41) 0 fullName.bytes x :=
  short_names_render.1 fullName _ 0 32 108 ⟨by unfold BytesAt; decide, by decide⟩

end Reading

end MarrowOS
