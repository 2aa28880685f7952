import MarrowOS.Stdlib.Shell

/-!
# A session with the shell

What a user sees and what is started depends on the keys alone: they are split into lines as they
are typed, and each line starts the program that its first word names, with all of its words
(`shell_session`).
-/

namespace MarrowOS

open ByteMem CInt Fallible

variable {σ : Type} {A : Allocator σ} {held : σ → ℕ → Prop} {elsewhere : σ → σ} {f : ShellFrames}
  {s : Program σ} {out limit n : ℕ} {max : ℤ} {answers keys : List UInt8} {line w : CString}
  {r : Readline} {key : UInt8} {i : ℤ}

/-! ## The keys of a line -/

/-- The keys that are shown, and, when the line has ended, the line and the keys behind it. -/
def typeLine (limit : ℕ) :
    (keys : List UInt8) → (line : CString) → List UInt8 × Option (CString × List UInt8)
  | [], line => ([], if line.length = limit then some (line, []) else none)
  | key :: keys, line =>
    if line.length = limit then ([], some (line, key :: keys))
    else if key = keyReturn then ([], some (line, keys))
    else (key :: (typeLine limit keys (typeKey key line)).1,
      (typeLine limit keys (typeKey key line)).2)

/-- The line is that of the editor. -/
lemma typeLine_editLine (limit : ℕ) (keys : List UInt8) (line : CString) :
    (typeLine limit keys line).2.map Prod.fst = editLine typeKey limit keys line := by
  induction keys generalizing line with
  | nil =>
    rw [typeLine, editLine]
    split_ifs <;> rfl
  | cons key keys ih =>
    rw [typeLine, editLine]
    split_ifs
    · rfl
    · rfl
    · exact ih _

lemma typeLine_full (hfull : line.length = limit) (keys : List UInt8) :
    typeLine limit keys line = ([], some (line, keys)) := by
  cases keys with
  | nil => exact congrArg (Prod.mk []) (if_pos hfull)
  | cons key keys => exact if_pos hfull

/-- What the loop that reads a line returns, for the line and the keys behind it. -/
def LineRead (out limit : ℕ) (r : Option (ℤ × List UInt8) × Readline) :
    Option (CString × List UInt8) → Prop
  | none => r.1 = none
  | some (w, keys) => ∃ rest : List UInt8, r.1 = some ((w.length : ℤ), rest) ∧
    rest.filter (· ≠ 0) = keys ∧ Typed out limit w r.2

lemma readlineKey_printed (out : ℕ) (key : UInt8) (i : ℤ) (r : Readline) :
    (readlineKey out true key i r).2.printed = key :: r.printed := by
  unfold readlineKey
  dsimp only
  by_cases hback : key = keyBackspace ∧ i ≥ 1
  · rw [if_pos hback]
    rfl
  · rw [if_neg hback]
    rfl

/-- **The loop** uses the keys of one line, and shows them. -/
lemma readlineLoopRest_eq (hmax : max = limit + 1) (hspace : out + limit < 2 ^ 32)
    (h : Typed out limit line r) (hn : answers.length < n) :
    (readlineLoopRest out max true n answers line.length r).2.printed =
        (typeLine limit (answers.filter (· ≠ 0)) line).1.reverse ++ r.printed ∧
      LineRead out limit (readlineLoopRest out max true n answers line.length r)
        (typeLine limit (answers.filter (· ≠ 0)) line).2 := by
  -- on the fuel; the keys that are ignored use up answers as well
  induction n generalizing answers line r with
  | zero => exact absurd hn (Nat.not_lt_zero _)
  | succ n ih =>
    rw [readlineLoopRest]
    by_cases hfull : line.length = limit
    · have hstop : ¬ (line.length : ℤ) < max - 1 := by omega
      rw [if_neg hstop, typeLine_full hfull]
      exact ⟨rfl, answers, rfl, rfl, h⟩
    have hlt : line.length < limit := lt_of_le_of_ne h.length hfull
    have hgo : (line.length : ℤ) < max - 1 := by omega
    rw [if_pos hgo]
    cases hkeys : marrowosGetkeyBlock answers with
    | none =>
      rw [marrowosGetkeyBlock_none hkeys, typeLine, if_neg hfull]
      exact ⟨rfl, rfl⟩
    | some x =>
      rcases @marrowosGetkeyBlock_some answers x.2 x.1 hkeys with ⟨hfilter, hkey, hrest⟩
      rw [hfilter, typeLine, if_neg hfull]
      by_cases hreturn : x.1 = keyReturn
      · simp only [if_pos hreturn]
        exact ⟨rfl, x.2, rfl, rfl, h⟩
      · simp only [if_neg hreturn]
        rcases @readlineKey_eq out limit true x.1 r line h hlt hspace hkey with
          ⟨i, r₁, hstep, hi, htyped⟩
        have hprinted := readlineKey_printed out x.1 line.length r
        rw [hstep] at hprinted ⊢
        rcases @ih x.2 (typeKey x.1 line) r₁ htyped (by omega) with ⟨hlater, hread⟩
        rw [← hi] at hlater hread
        refine ⟨?_, hread⟩
        rw [hlater, hprinted, List.reverse_cons, List.append_assoc]
        rfl

/-- What the call that reads a line leaves. -/
structure ReadRest (out : ℕ) (line : CString) (keys rest : List UInt8) (r : Readline) : Prop where
  string : StringAt r.mem out line
  length : line.length ≤ 1023
  keys : rest.filter (· ≠ 0) = keys

lemma marrowosTerminalReadlineRest_eq (hspace : out + 1024 ≤ 2 ^ 32) (answers : List UInt8)
    (mem : Mem) :
    (marrowosTerminalReadlineRest out 1024 true answers mem).2.printed =
        (typeLine 1023 (answers.filter (· ≠ 0)) []).1.reverse ∧
      (((typeLine 1023 (answers.filter (· ≠ 0)) []).2 = none ∧
          (marrowosTerminalReadlineRest out 1024 true answers mem).1 = none) ∨
        ∃ line keys rest, (typeLine 1023 (answers.filter (· ≠ 0)) []).2 = some (line, keys) ∧
          (marrowosTerminalReadlineRest out 1024 true answers mem).1 = some rest ∧
          ReadRest out line keys rest
            (marrowosTerminalReadlineRest out 1024 true answers mem).2) := by
  have hlimit : (1024 : ℤ) = (1023 : ℕ) + 1 := by decide
  obtain ⟨hprinted, hread⟩ := @readlineLoopRest_eq out 1023 _ 1024 answers [] ⟨mem, [], []⟩ hlimit
    (by omega) (Typed.nil out 1023 mem) (Nat.lt_succ_self answers.length)
  rw [List.append_nil] at hprinted
  have hzero : (([] : CString).length : ℤ) = 0 := rfl
  rw [hzero] at hprinted hread
  unfold marrowosTerminalReadlineRest
  generalize readlineLoopRest out 1024 true (answers.length + 1) answers 0 ⟨mem, [], []⟩ = x
    at hprinted hread
  rcases x with ⟨left, r⟩
  cases htype : (typeLine 1023 (answers.filter (· ≠ 0)) []).2 with
  | none =>
    rw [htype] at hread
    have hleft : left = none := hread
    subst hleft
    exact ⟨hprinted, Or.inl ⟨rfl, rfl⟩⟩
  | some y =>
    rw [htype] at hread
    rcases y with ⟨line, keys⟩
    rcases hread with ⟨rest, hleft, hkeys, htyped⟩
    have hleft : left = some ((line.length : ℤ), rest) := hleft
    have hlength := htyped.length
    subst hleft
    refine ⟨hprinted, Or.inr ⟨line, keys, rest, rfl, rfl, ?_, hlength, hkeys⟩⟩
    show StringAt (r.store out line.length 0).mem out line
    rw [store_mem (by omega)]
    refine stringAt_of_bytes (fun j hj => ?_) (Function.update_self ..) htyped.nonzero
    rw [Function.update_of_ne (by omega)]
    exact htyped.bytes j hj

/-! ## What a session is -/

/-- What a user sees of the shell, and the commands that are started. -/
inductive ShellEvent
  | print (text : CString)
  | putchar (c : UInt8)
  | command (arguments : List CString)
deriving DecidableEq, Repr

/-- The command of a line, if it has a word. -/
def lineCommand (line : CString) : List ShellEvent :=
  if words line = [] then [] else [.command (argumentTexts line)]

/-- The first `n` rounds of a session, as far as the keys go. -/
def session : (n : ℕ) → (keys : List UInt8) → List ShellEvent
  | 0, _ => []
  | n + 1, keys =>
    .print shellPrompt :: (typeLine 1023 keys []).1.map .putchar ++
      match (typeLine 1023 keys []).2 with
      | none => []
      | some (line, keys) =>
        .print shellNewline :: lineCommand line ++ .print shellNewline :: session n keys

/-- The call shows, or starts, what the event says. -/
def ShellCall.Shows : ShellCall → ShellEvent → Prop
  | .print text, .print text' => text = text'
  | .putchar c, .putchar c' => c = c'
  | .system root mem, .command arguments => Lists mem root arguments
  | _, _ => False

/-- The buffers of the shell, which no allocation gets. -/
structure ShellFramesOk (held : σ → ℕ → Prop) (h : σ) (f : ShellFrames) : Prop
    extends Frames held h f.buf f.scommand where
  line_fits : f.line + 1024 ≤ 2 ^ 32
  line_apart : ∀ x, f.line ≤ x → x < f.line + 1024 → x < f.buf ∨ f.buf + 1024 ≤ x

/-- In each of the first `n` rounds there are allocations for all words of the line. -/
def RoundsGranted (A : Allocator σ) (elsewhere : σ → σ) (f : ShellFrames) :
    (n : ℕ) → (answers : List UInt8) → Program σ → Prop
  | 0, _, _ => True
  | n + 1, answers, s =>
    (∀ line keys, (typeLine 1023 (answers.filter (· ≠ 0)) []).2 = some (line, keys) →
      grantedRequests A (words line).length (elsewhere s.heap) = (words line).length) ∧
    ∀ calls rest s', shellRound A elsewhere f answers s = .ok (calls, some (rest, s')) →
      RoundsGranted A elsewhere f n rest s'

/-! ## Rounds -/

lemma Frames.kept {h h' : σ} {buf scommand : ℕ} (hframes : Frames held h buf scommand)
    (hkept : ∀ x, held h x → held h' x) : Frames held h' buf scommand :=
  ⟨⟨hframes.stack.pos, hframes.stack.fits, fun x h₀ h₁ => hkept x (hframes.stack.held x h₀ h₁)⟩,
    hframes.buf_fits, hframes.apart⟩

lemma shows_putchars (keys : List UInt8) :
    List.Forall₂ ShellCall.Shows (keys.map .putchar) (keys.map .putchar) := by
  rw [List.forall₂_map_left_iff, List.forall₂_map_right_iff]
  exact List.forall₂_same.mpr fun _ _ => rfl

/-- The list for the words of a line: it is null when there are none. -/
lemma Parsed.command {h : σ} {s' : Program σ} {root : ℕ} (hlength : line.length ≤ 1023)
    (hparsed : Parsed A held (words (line.take 1023)) h s' root)
    (hgranted : grantedRequests A (words line).length h = (words line).length) :
    s'.sp = 0 ∧ List.Forall₂ ShellCall.Shows
      ((if root = 0 then none else some root).toList.map fun root => .system root s'.mem)
      (lineCommand line) := by
  rw [List.take_of_length_le hlength] at hparsed
  have hlists := hparsed.lists
  rw [hgranted, List.take_length] at hlists
  refine ⟨hparsed.saved.mpr hgranted, ?_⟩
  unfold lineCommand
  by_cases hwords : words line = []
  · have hroot : root = 0 := by
      rw [hwords] at hlists
      rcases hlists with ⟨nodes, hchain, htexts⟩
      rw [List.map_nil, List.map_eq_nil_iff] at htexts
      rw [htexts] at hchain
      exact hchain
    rw [if_pos hroot, if_pos hwords]
    exact List.Forall₂.nil
  · have hroot : root ≠ 0 := by
      rintro rfl
      have hnil := hlists.unique (lists_zero s'.mem)
      exact hwords (List.map_eq_nil_iff.mp hnil)
    rw [if_neg hroot, if_neg hwords]
    exact List.Forall₂.cons hlists List.Forall₂.nil

section
variable (hA : GrantsApart A held) (helsewhere : ∀ h x, held h x → held (elsewhere h) x)
include hA helsewhere

/-- **Step lemma**: a round in which the line does not end, and one in which it does. -/
lemma shellRound_eq (hframes : ShellFramesOk held s.heap f) (hsp : s.sp = 0)
    (hgranted : ∀ line keys, (typeLine 1023 (answers.filter (· ≠ 0)) []).2 = some (line, keys) →
      grantedRequests A (words line).length (elsewhere s.heap) = (words line).length) :
    ((typeLine 1023 (answers.filter (· ≠ 0)) []).2 = none ∧
      shellRound A elsewhere f answers s = .ok (.print shellPrompt ::
        (typeLine 1023 (answers.filter (· ≠ 0)) []).1.map .putchar, none)) ∨
    ∃ line keys rest command s',
      (typeLine 1023 (answers.filter (· ≠ 0)) []).2 = some (line, keys) ∧
      shellRound A elsewhere f answers s = .ok (.print shellPrompt ::
        (typeLine 1023 (answers.filter (· ≠ 0)) []).1.map .putchar ++ .print shellNewline ::
          command ++ [.print shellNewline], some (rest, s')) ∧
      List.Forall₂ ShellCall.Shows command (lineCommand line) ∧ rest.filter (· ≠ 0) = keys ∧
      ShellFramesOk held s'.heap f ∧ s'.sp = 0 := by
  obtain ⟨hprinted, hread⟩ := marrowosTerminalReadlineRest_eq hframes.line_fits answers s.mem
  unfold shellRound
  generalize marrowosTerminalReadlineRest f.line 1024 true answers s.mem = x at hprinted hread
  rcases x with ⟨left, r⟩
  have hecho : r.echo = (typeLine 1023 (answers.filter (· ≠ 0)) []).1.map .putchar := by
    have hprinted : r.printed = (typeLine 1023 (answers.filter (· ≠ 0)) []).1.reverse := hprinted
    rw [Readline.echo, hprinted, List.reverse_reverse]
  rcases hread with ⟨hnone, hleft⟩ | ⟨line, keys, rest, htype, hleft, hrest⟩
  · have hleft : left = none := hleft
    subst hleft
    refine Or.inl ⟨hnone, ?_⟩
    rw [← hecho]
  · have hleft : left = some rest := hleft
    subst hleft
    right
    -- the line is where `marrowos_system_run` finds its command
    have hfits := hframes.line_fits
    have hlength := hrest.length
    have hcommand : CommandAt r.mem f.line line f.buf 1024 :=
      ⟨hrest.string, by omega, fun x h₀ h₁ => hframes.line_apart x h₀ (by omega)⟩
    have hframes' : Frames held (elsewhere s.heap) f.buf f.scommand :=
      hframes.toFrames.kept (helsewhere s.heap)
    rcases marrowosSystemRun_eq (s := { s with mem := r.mem, heap := elsewhere s.heap }) hA hframes'
      hsp hcommand with ⟨root, s', hrun, hparsed⟩
    rcases hparsed.command hlength (hgranted line keys htype) with ⟨hsp', hshows⟩
    refine ⟨line, keys, rest, _, s', htype, ?_, hshows, hrest.keys, ?_, hsp'⟩
    · dsimp only
      rw [hrun, hecho]
      rfl
    · exact ⟨hframes'.kept hparsed.kept, hframes.line_fits, hframes.line_apart⟩

/-- **Run lemma**: the first `n` rounds show the session. -/
lemma shellLoop_eq (hframes : ShellFramesOk held s.heap f) (hsp : s.sp = 0)
    (hgranted : RoundsGranted A elsewhere f n answers s) :
    ∃ calls, shellLoop A elsewhere f n answers s = .ok calls ∧
      List.Forall₂ ShellCall.Shows calls (session n (answers.filter (· ≠ 0))) := by
  induction n generalizing answers s with
  | zero => exact ⟨[], rfl, List.Forall₂.nil⟩
  | succ n ih =>
    have hprint : ∀ text, ShellCall.Shows (.print text) (.print text) := fun _ => rfl
    have hprompt := List.Forall₂.cons (hprint shellPrompt)
      (shows_putchars (typeLine 1023 (answers.filter (· ≠ 0)) []).1)
    rw [shellLoop, session]
    rcases shellRound_eq hA helsewhere hframes hsp hgranted.1 with
      ⟨hnone, hround⟩ | ⟨line, keys, rest, command, s', htype, hround, hcommand, hkeys, hframes',
        hsp'⟩
    · rw [hround, hnone, List.append_nil]
      exact ⟨_, rfl, hprompt⟩
    · rcases ih hframes' hsp' (hgranted.2 _ _ _ hround) with ⟨later, hloop, hlater⟩
      rw [hround, htype, ← hkeys, ok_bind]
      simp only [hloop]
      refine ⟨_, rfl, ?_⟩
      · rw [List.append_assoc, List.append_assoc]
        exact List.rel_append hprompt (List.rel_append (List.Forall₂.cons (hprint shellNewline)
          hcommand) (List.Forall₂.cons (hprint shellNewline) hlater))

end

/-- **A session**: while there are allocations for every word, the shell shows each key that is
typed, and a line starts one command, with its words in order, each cut to 511 characters. Commands
do not disturb each other, whatever other programs allocate meanwhile. -/
theorem shell_session (hA : GrantsApart A held)
    (helsewhere : ∀ h x, held h x → held (elsewhere h) x) (hframes : ShellFramesOk held s.heap f)
    (hsp : s.sp = 0) (hgranted : RoundsGranted A elsewhere f n answers s) :
    ∃ calls, shellMain A elsewhere f n answers s = .ok calls ∧
      List.Forall₂ ShellCall.Shows calls
        (.print shellBanner :: session n (answers.filter (· ≠ 0))) := by
  rcases shellLoop_eq hA helsewhere hframes hsp hgranted with ⟨calls, hloop, hshows⟩
  refine ⟨.print shellBanner :: calls, ?_, List.Forall₂.cons rfl hshows⟩
  rw [shellMain, hloop]
  rfl

/-- `a`, a `c` that is taken back, ` b`, and the end of the line. -/
def twoWordsKeys : List UInt8 := [0x61, 0x63, keyBackspace, 0x20, 0x62, keyReturn]

example : session 2 twoWordsKeys = [.print shellPrompt, .putchar 0x61, .putchar 0x63,
    .putchar keyBackspace, .putchar 0x20, .putchar 0x62, .print shellNewline,
    .command [[0x61], [0x62]], .print shellNewline, .print shellPrompt] := by decide

theorem shell_session_twoWords : ∃ calls,
    shellMain slots id ⟨4096, 16384, 8192⟩ 1 (0 :: twoWordsKeys) (withSlots 2) = .ok calls ∧
      List.Forall₂ ShellCall.Shows calls (.print shellBanner :: session 1 twoWordsKeys) := by
  have hframes : ShellFramesOk (fun h x => x < h.2) (2, 65536) ⟨4096, 16384, 8192⟩ :=
    ⟨⟨onStack_slots 2 8192 sizeofScommand (by decide) (by decide), by decide,
      fun _ h₀ _ => Or.inr (le_trans (by decide) h₀)⟩, by decide,
      fun _ _ h₁ => Or.inl (lt_of_lt_of_le h₁ (by decide))⟩
  have hkeys : (0 :: twoWordsKeys).filter (· ≠ 0) = twoWordsKeys := by decide
  have hgranted : RoundsGranted slots id ⟨4096, 16384, 8192⟩ 1 (0 :: twoWordsKeys)
      (withSlots 2) := by
    refine ⟨fun line keys htype => ?_, fun _ _ _ _ => trivial⟩
    have hline : (typeLine 1023 twoWordsKeys []).2 = some ([0x61, 0x20, 0x62], []) := by decide
    rw [hkeys, hline] at htype
    rw [← (Prod.mk.inj (Option.some.inj htype)).1]
    decide
  have h := shell_session slots_grantsApart (fun _ _ hx => hx) hframes rfl hgranted
  rwa [hkeys] at h

end MarrowOS
