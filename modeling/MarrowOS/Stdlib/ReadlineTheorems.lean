import MarrowOS.Lib.MemStrings
import MarrowOS.Stdlib.Readline

/-!
# The line that is read

`marrowos_terminal_readline` runs an editor on the keys, whose backspace on an empty line is a
character of the line (`readlineLoop_eq`). It differs from the editor that was meant by that stray
character only, which the next backspace on the empty line removes. So it leaves the line that was
meant when there is no stray character at its end (`readsLine_iff`).
-/

namespace MarrowOS

open ByteMem CInt

variable {out limit n : ℕ} {max i : ℤ} {echo : Bool} {answers keys rest : List UInt8} {key : UInt8}
  {s s' : Readline} {line line' w : CString} {mem m : Mem} {stray : Bool} {a : ℕ}

/-! ## Line editors -/

/-- What a line becomes by a key other than a carriage return. -/
abbrev LineEditor := (key : UInt8) → (line : CString) → CString

/-- The line when it is ended by a carriage return or has `limit` characters; `none` before. -/
def editLine (edit : LineEditor) (limit : ℕ) :
    (keys : List UInt8) → (line : CString) → Option CString
  | [], line => if line.length = limit then some line else none
  | key :: keys, line =>
    if line.length = limit then some line
    else if key = keyReturn then some line
    else editLine edit limit keys (edit key line)

/-- A backspace removes the last character, if there is one. -/
def editKey : LineEditor := fun key line =>
  if key = keyBackspace then line.dropLast else line ++ [key]

/-- What the code does: a backspace on an empty line is a character. -/
def typeKey : LineEditor := fun key line =>
  if key = keyBackspace ∧ line ≠ [] then line.dropLast else line ++ [key]

/-! ## The loop -/

lemma marrowosGetkeyBlock_none (h : marrowosGetkeyBlock answers = none) :
    answers.filter (· ≠ 0) = [] := by
  induction answers with
  | nil => rfl
  | cons val answers ih =>
    rw [marrowosGetkeyBlock] at h
    by_cases h0 : val = 0
    · rw [if_pos h0] at h
      rw [List.filter_cons_of_neg (by simpa using h0)]
      exact ih h
    · rw [if_neg h0] at h
      cases h

lemma marrowosGetkeyBlock_some (h : marrowosGetkeyBlock answers = some (key, rest)) :
    answers.filter (· ≠ 0) = key :: rest.filter (· ≠ 0) ∧ key ≠ 0 ∧
      rest.length < answers.length := by
  induction answers with
  | nil => cases h
  | cons val answers ih =>
    rw [marrowosGetkeyBlock] at h
    by_cases h0 : val = 0
    · rw [if_pos h0] at h
      rw [List.filter_cons_of_neg (by simpa using h0)]
      rcases ih h with ⟨hfilter, hne, hlt⟩
      exact ⟨hfilter, hne, Nat.lt_succ_of_lt hlt⟩
    · rw [if_neg h0] at h
      rcases Prod.mk.inj (Option.some.inj h) with ⟨hkey, hrest⟩
      rw [← hkey, ← hrest, List.filter_cons_of_pos (by simpa using h0)]
      exact ⟨rfl, h0, Nat.lt_succ_self _⟩

/-- The line is in `out`, without a NUL, and all stores so far were inside of it. -/
structure Typed (out : ℕ) (limit : ℕ) (line : CString) (s : Readline) : Prop where
  bytes : ∀ j < line.length, s.mem (out + j) = line.getD j 0
  nonzero : 0 ∉ line
  length : line.length ≤ limit
  stores : ∀ i ∈ s.stores, 0 ≤ i ∧ i ≤ limit

lemma Typed.nil (out limit : ℕ) (mem : Mem) : Typed out limit [] ⟨mem, [], []⟩ :=
  ⟨fun _ hj => absurd hj (Nat.not_lt_zero _), List.not_mem_nil, Nat.zero_le _,
    fun _ hi => absurd hi List.not_mem_nil⟩

lemma Typed.print (h : Typed out limit line s) (printed : List UInt8) :
    Typed out limit line { s with printed } := ⟨h.bytes, h.nonzero, h.length, h.stores⟩

lemma store_mem (hspace : out + n < 2 ^ 32) (c : UInt8) (s : Readline) :
    (s.store out n c).mem = Function.update s.mem (out + n) c := by
  show Function.update s.mem (u32 (out + n)) c = _
  rw [← Nat.cast_add, u32_natCast_of_lt hspace]

lemma stores_store (h : Typed out limit line s) (hn : n ≤ limit) (c : UInt8) :
    ∀ i ∈ (s.store out n c).stores, 0 ≤ i ∧ i ≤ limit := by
  intro i hi
  rcases List.mem_cons.mp hi with heq | hi
  · rw [heq]
    omega
  · exact h.stores i hi

/-- A character that is stored behind the line. -/
lemma Typed.append (h : Typed out limit line s) (hlt : line.length < limit)
    (hspace : out + limit < 2 ^ 32) (hkey : key ≠ 0) :
    Typed out limit (line ++ [key]) (s.store out line.length key) := by
  refine ⟨fun j hj => ?_, ?_, ?_, stores_store h hlt.le key⟩
  · rw [store_mem (by omega)]
    rw [List.length_append, List.length_singleton] at hj
    by_cases heq : j = line.length
    · rw [heq, Function.update_self, List.getD_append_right _ _ _ _ le_rfl, Nat.sub_self]
      rfl
    · rw [Function.update_of_ne (by omega), List.getD_append _ _ _ _ (by omega)]
      exact h.bytes j (by omega)
  · rw [List.mem_append, List.mem_singleton, not_or]
    exact ⟨h.nonzero, hkey.symm⟩
  · rw [List.length_append, List.length_singleton]
    exact hlt

/-- A character that is removed. -/
lemma Typed.dropLast (h : Typed out limit line s) (hne : line ≠ [])
    (hspace : out + limit < 2 ^ 32) :
    Typed out limit line.dropLast (s.store out (line.length - 1 : ℕ) 0) := by
  have hlength := h.length
  have hpos := List.length_pos_iff.mpr hne
  refine ⟨fun j hj => ?_, fun h0 => h.nonzero (List.mem_of_mem_dropLast h0), ?_,
    stores_store h (by omega) 0⟩
  · rw [List.length_dropLast] at hj
    rw [store_mem (by omega), Function.update_of_ne (by omega), h.bytes j (by omega),
      List.getD_eq_getElem?_getD, List.getD_eq_getElem?_getD, List.getElem?_dropLast, if_pos hj]
  · rw [List.length_dropLast]
    omega

/-- **Step lemma**: the code edits the line by `typeKey`. -/
lemma readlineKey_eq (h : Typed out limit line s) (hlt : line.length < limit)
    (hspace : out + limit < 2 ^ 32) (hkey : key ≠ 0) :
    ∃ i s', readlineKey out echo key line.length s = (i, s') ∧
      i + 1 = (typeKey key line).length ∧ Typed out limit (typeKey key line) s' := by
  have hprinted : Typed out limit line
      (if echo then { s with printed := key :: s.printed } else s) := by
    split_ifs
    · exact h.print _
    · exact h
  by_cases hback : key = keyBackspace ∧ line ≠ []
  · have hpos := List.length_pos_iff.mpr hback.2
    have hguard : key = keyBackspace ∧ (line.length : ℤ) ≥ 1 := ⟨hback.1, by omega⟩
    have hindex : (line.length : ℤ) - 1 = (line.length - 1 : ℕ) := by omega
    have htyped := hprinted.dropLast hback.2 hspace
    rw [typeKey, if_pos hback]
    refine ⟨_, _, if_pos hguard, ?_, ?_⟩
    · rw [List.length_dropLast]
      omega
    · rw [hindex]
      exact htyped
  · have hguard : ¬ (key = keyBackspace ∧ (line.length : ℤ) ≥ 1) := by
      rintro ⟨heq, hpos⟩
      exact hback ⟨heq, List.length_pos_iff.mp (by omega)⟩
    rw [typeKey, if_neg hback]
    refine ⟨_, _, if_neg hguard, ?_, hprinted.append hlt hspace hkey⟩
    rw [List.length_append, List.length_singleton]
    rfl

lemma editLine_full {edit : LineEditor} (hfull : line.length = limit) (keys : List UInt8) :
    editLine edit limit keys line = some line := by
  cases keys with
  | nil => exact if_pos hfull
  | cons key keys => exact if_pos hfull

/-- **The loop** runs the editor on the keys. -/
lemma readlineLoop_eq (hmax : max = limit + 1) (hspace : out + limit < 2 ^ 32)
    (h : Typed out limit line s) (hn : answers.length < n) :
    ∃ s' line', Typed out limit line' s' ∧
      readlineLoop out max echo n answers line.length s =
        ((editLine typeKey limit (answers.filter (· ≠ 0)) line).map fun w => (w.length : ℤ), s') ∧
      ∀ w, editLine typeKey limit (answers.filter (· ≠ 0)) line = some w → w = line' := by
  -- on the fuel; the keys that are ignored use up answers as well
  induction n generalizing answers line s with
  | zero => exact absurd hn (Nat.not_lt_zero _)
  | succ n ih =>
    rw [readlineLoop]
    by_cases hfull : line.length = limit
    · have hstop : ¬ (line.length : ℤ) < max - 1 := by omega
      rw [if_neg hstop, editLine_full hfull]
      exact ⟨s, line, h, rfl, fun _ hw => (Option.some.inj hw).symm⟩
    have hlt : line.length < limit := lt_of_le_of_ne h.length hfull
    have hgo : (line.length : ℤ) < max - 1 := by omega
    rw [if_pos hgo]
    -- the next key, or none yet
    cases hkeys : marrowosGetkeyBlock answers with
    | none =>
      have hwait : editLine typeKey limit [] line = none := if_neg hfull
      rw [marrowosGetkeyBlock_none hkeys, hwait]
      exact ⟨s, line, h, rfl, fun _ hw => by cases hw⟩
    | some x =>
      rcases @marrowosGetkeyBlock_some answers x.2 x.1 hkeys with ⟨hfilter, hkey, hrest⟩
      rw [hfilter, editLine, if_neg hfull]
      by_cases hreturn : x.1 = keyReturn
      · simp only [if_pos hreturn]
        exact ⟨s, line, h, rfl, fun _ hw => (Option.some.inj hw).symm⟩
      · simp only [if_neg hreturn]
        rcases @readlineKey_eq out limit echo x.1 s line h hlt hspace hkey with
          ⟨i, s₁, hstep, hi, htyped⟩
        rw [hstep, hi]
        exact ih htyped (by omega)

/-- **`marrowos_terminal_readline`** leaves the line that its editor makes of the keys, with a NUL,
and stores inside of `out`. -/
theorem marrowosTerminalReadline_eq (hmax : max = limit + 1) (hspace : out + limit < 2 ^ 32)
    (answers : List UInt8) (mem : Mem) (echo : Bool) :
    ∃ s', marrowosTerminalReadline out max echo answers mem =
        ((editLine typeKey limit (answers.filter (· ≠ 0)) []).isSome, s') ∧
      (∀ i ∈ s'.stores, 0 ≤ i ∧ i ≤ limit) ∧
      ∀ w, editLine typeKey limit (answers.filter (· ≠ 0)) [] = some w → StringAt s'.mem out w := by
  rcases @readlineLoop_eq out limit _ max echo answers _ [] hmax hspace (Typed.nil out limit mem)
    (Nat.lt_succ_self answers.length) with ⟨s, line, htyped, hloop, hline⟩
  unfold marrowosTerminalReadline
  rw [show (0 : ℤ) = (([] : CString).length : ℤ) from rfl, hloop]
  cases hedit : editLine typeKey limit (answers.filter (· ≠ 0)) [] with
  | none => exact ⟨s, rfl, htyped.stores, fun _ hw => by cases hw⟩
  | some w =>
    have hw := hline w hedit
    subst hw
    refine ⟨_, rfl, stores_store htyped htyped.length 0, fun w' hw' => ?_⟩
    have hlength := htyped.length
    rw [← Option.some.inj hw']
    show StringAt (s.store out w.length 0).mem out w
    rw [store_mem (by omega)]
    refine stringAt_of_bytes (fun j hj => ?_) (Function.update_self ..) htyped.nonzero
    rw [Function.update_of_ne (by omega)]
    exact htyped.bytes j hj

/-! ## The stray backspace -/

/-- Whether there is no stray backspace in front of the line when it ends. The line that was meant
has `length` characters by now. -/
def EndsClean (limit : ℕ) : (keys : List UInt8) → (length : ℕ) → (stray : Bool) → Prop
  | [], length, stray => length + stray.toNat = limit → stray = false
  | key :: keys, length, stray =>
    if length + stray.toNat = limit then stray = false
    else if key = keyReturn then stray = false
    else EndsClean limit keys (if key = keyBackspace then length - 1 else length + 1)
      (if key = keyBackspace ∧ length = 0 then !stray else stray)

/-- The line of the code, when the one that was meant is `line`. -/
def withStray (stray : Bool) (line : CString) : CString :=
  if stray then keyBackspace :: line else line

lemma length_withStray (stray : Bool) (line : CString) :
    (withStray stray line).length = line.length + stray.toNat := by
  cases stray <;> rfl

lemma withStray_eq_iff : withStray stray line = line ↔ stray = false := by
  cases stray with
  | false => exact iff_of_true rfl rfl
  | true =>
    refine iff_of_false (fun heq => ?_) (by decide)
    exact List.cons_ne_self _ _ heq

/-- No backspace gets into the line that was meant. -/
lemma editKey_no_backspace (hline : keyBackspace ∉ line) (key : UInt8) :
    keyBackspace ∉ editKey key line := by
  intro hmem
  unfold editKey at hmem
  split_ifs at hmem with hback
  · exact hline (List.mem_of_mem_dropLast hmem)
  · rw [List.mem_append, List.mem_singleton] at hmem
    exact hmem.elim hline fun heq => hback heq.symm

lemma editLine_no_backspace (hline : keyBackspace ∉ line)
    (h : editLine editKey limit keys line = some line') : keyBackspace ∉ line' := by
  induction keys generalizing line with
  | nil =>
    rw [editLine] at h
    split_ifs at h
    rwa [← Option.some.inj h]
  | cons key keys ih =>
    rw [editLine] at h
    split_ifs at h
    · rwa [← Option.some.inj h]
    · rwa [← Option.some.inj h]
    · exact ih (editKey_no_backspace hline key) h

/-- A backspace on an empty line changes whether there is a stray one. -/
def strayAfter (key : UInt8) (line : CString) (stray : Bool) : Bool :=
  if key = keyBackspace ∧ line = [] then !stray else stray

/-- **Step lemma**: one key, on both lines. -/
lemma typeKey_withStray (stray : Bool) (line : CString) (key : UInt8) :
    typeKey key (withStray stray line) =
      withStray (strayAfter key line stray) (editKey key line) := by
  by_cases hback : key = keyBackspace
  · rw [editKey, if_pos hback]
    cases line with
    | nil =>
      rw [strayAfter, if_pos ⟨hback, rfl⟩]
      cases stray with
      | false =>
        show typeKey key [] = [keyBackspace]
        rw [typeKey, if_neg fun h => h.2 rfl, hback]
        rfl
      | true => exact if_pos ⟨hback, List.cons_ne_nil _ _⟩
    | cons c line =>
      have hstray : strayAfter key (c :: line) stray = stray :=
        if_neg fun h => List.cons_ne_nil _ _ h.2
      rw [hstray]
      cases stray with
      | false => exact if_pos ⟨hback, List.cons_ne_nil _ _⟩
      | true => exact if_pos ⟨hback, List.cons_ne_nil _ _⟩
  · have hstray : strayAfter key line stray = stray := if_neg fun h => hback h.1
    rw [hstray, editKey, if_neg hback, typeKey, if_neg fun h => hback h.1]
    cases stray <;> rfl

lemma length_editKey (key : UInt8) (line : CString) : (editKey key line).length =
    if key = keyBackspace then line.length - 1 else line.length + 1 := by
  unfold editKey
  split_ifs
  · exact List.length_dropLast ..
  · exact List.length_append ..

/-- When the line of the code is full, it is the one that was meant or has a stray backspace. -/
lemma editLine_eq_iff_of_full (hline : keyBackspace ∉ line)
    (hfull : line.length + stray.toNat = limit) (keys : List UInt8) :
    editLine typeKey limit keys (withStray stray line) = editLine editKey limit keys line ↔
      stray = false := by
  rw [← length_withStray] at hfull
  rw [editLine_full hfull]
  cases stray with
  | false => exact iff_of_true (editLine_full hfull keys).symm rfl
  | true =>
    refine iff_of_false (fun heq => ?_) (by decide)
    exact editLine_no_backspace hline heq.symm List.mem_cons_self

/-- The two editors end with the same line when there is no stray backspace at the end. -/
lemma editLine_eq_iff (hline : keyBackspace ∉ line) (hlength : line.length + stray.toNat ≤ limit) :
    editLine typeKey limit keys (withStray stray line) = editLine editKey limit keys line ↔
      EndsClean limit keys line.length stray := by
  -- on the keys, for the line with and without the stray character
  induction keys generalizing line stray with
  | nil =>
    by_cases hfull : line.length + stray.toNat = limit
    · rw [editLine_eq_iff_of_full hline hfull]
      exact ⟨fun h _ => h, fun h => h hfull⟩
    · have hcode : ¬ (withStray stray line).length = limit := by
        rw [length_withStray]
        exact hfull
      have hmeant : ¬ line.length = limit := by omega
      rw [editLine, if_neg hcode, editLine, if_neg hmeant]
      exact iff_of_true rfl fun h => absurd h hfull
  | cons key keys ih =>
    rw [EndsClean]
    by_cases hfull : line.length + stray.toNat = limit
    · rw [if_pos hfull]
      exact editLine_eq_iff_of_full hline hfull _
    have hcode : ¬ (withStray stray line).length = limit := by
      rw [length_withStray]
      exact hfull
    have hmeant : ¬ line.length = limit := by omega
    rw [if_neg hfull, editLine, if_neg hcode, editLine, if_neg hmeant]
    by_cases hreturn : key = keyReturn
    · rw [if_pos hreturn, if_pos hreturn, if_pos hreturn, Option.some_inj]
      exact withStray_eq_iff
    have hstray : strayAfter key line stray =
        if key = keyBackspace ∧ line.length = 0 then !stray else stray := by
      unfold strayAfter
      simp only [List.length_eq_zero_iff]
    rw [if_neg hreturn, if_neg hreturn, if_neg hreturn, typeKey_withStray, ← length_editKey,
      ← hstray]
    apply ih (editKey_no_backspace hline key)
    -- there is room for one more character, a stray backspace included
    rw [length_editKey, hstray]
    have hroom : line.length + stray.toNat < limit := lt_of_le_of_ne hlength hfull
    have hbool : (!stray).toNat + stray.toNat = 1 := by cases stray <;> rfl
    split_ifs with hback hempty hempty
    · have hzero : line.length = 0 := hempty.2
      omega
    · omega
    · exact absurd hempty.1 hback
    · omega

/-! ## Line editing -/

/-- The call has returned when the line has ended, and has left that line in `out` then. -/
def ReadsLine (out : ℕ) (max : ℤ) (echo : Bool) (answers : List UInt8) (mem : Mem) : Prop :=
  (∀ i ∈ (marrowosTerminalReadline out max echo answers mem).2.stores, 0 ≤ i ∧ i ≤ max - 1) ∧
  match editLine editKey (max - 1).toNat (answers.filter (· ≠ 0)) [] with
  | none => (marrowosTerminalReadline out max echo answers mem).1 = false
  | some line => (marrowosTerminalReadline out max echo answers mem).1 = true ∧
    StringAt (marrowosTerminalReadline out max echo answers mem).2.mem out line

lemma readsLine_iff_editLine_eq (hmax : max = limit + 1) (hspace : out + limit < 2 ^ 32) :
    ReadsLine out max echo answers mem ↔
      editLine typeKey limit (answers.filter (· ≠ 0)) [] =
        editLine editKey limit (answers.filter (· ≠ 0)) [] := by
  rcases marrowosTerminalReadline_eq hmax hspace answers mem echo with ⟨s', hrun, hstores, hline⟩
  have hlimit : (max - 1).toNat = limit := by omega
  have hstores' : ∀ i ∈ s'.stores, 0 ≤ i ∧ i ≤ max - 1 := by
    intro i hi
    have hrange := hstores i hi
    omega
  unfold ReadsLine
  rw [hrun, hlimit, and_iff_right hstores']
  cases hcode : editLine typeKey limit (answers.filter (· ≠ 0)) [] with
  | none =>
    cases hmeant : editLine editKey limit (answers.filter (· ≠ 0)) [] with
    | none => exact iff_of_true rfl rfl
    | some line => exact iff_of_false (fun h => by cases h.1) (fun h => by cases h)
  | some w =>
    have hw := hline w hcode
    cases hmeant : editLine editKey limit (answers.filter (· ≠ 0)) [] with
    | none => exact iff_of_false (fun h => by cases h) (fun h => by cases h)
    | some line =>
      rw [Option.some_inj]
      constructor
      · exact fun h => hw.unique h.2
      · intro heq
        rw [← heq]
        exact ⟨rfl, hw⟩

/-- **Line editing** leaves the line that was meant when there is no stray backspace at its end. -/
theorem readsLine_iff (hmax : 2 ≤ max) (hspace : out + max ≤ 2 ^ 32) :
    ReadsLine out max echo answers mem ↔
      EndsClean (max - 1).toNat (answers.filter (· ≠ 0)) 0 false := by
  have hlimit : max = ((max - 1).toNat : ℤ) + 1 := by omega
  rw [readsLine_iff_editLine_eq hlimit (by omega)]
  exact @editLine_eq_iff _ _ [] false List.not_mem_nil (Nat.zero_le _)

/-- No key yet, an `a` that is removed again, and the end. -/
theorem readsLine_a : ReadsLine 4096 1024 true [0, 0x61, keyBackspace, keyReturn] fun _ => 0 :=
  (readsLine_iff (by decide) (by decide)).mpr rfl

/-- A backspace on the empty line, and the end. -/
theorem readline_keeps_backspace : ¬ ∀ (out : ℕ) (max : ℤ) (echo : Bool) (answers : List UInt8)
    (mem : Mem), 2 ≤ max → out + max ≤ 2 ^ 32 → (∀ key ∈ answers, key ≠ 0) →
    ReadsLine out max echo answers mem := by
  intro h
  have hkeys : ∀ key ∈ [keyBackspace, keyReturn], key ≠ 0 := by simp
  have hreads := h 4096 1024 true _ (fun _ => 0) (by decide) (by decide) hkeys
  have hlimit : (1024 : ℤ) = (1023 : ℕ) + 1 := by decide
  have hlines := (readsLine_iff_editLine_eq hlimit (by decide)).mp hreads
  exact absurd hlines (by decide)

end MarrowOS
