import MarrowOS.Console.Classic
import MarrowOS.Console.KeyboardTheorems
import Mathlib.Data.List.Count

/-!
# What is typed arrives

A key types the character of the table, as a capital after an odd number of presses of Caps Lock. As
long as no more than 1024 characters wait in a buffer, every process is handed, in order and through
any switches, what was typed while it was the current process, and nothing else
(`typing_arrives`).
-/

namespace MarrowOS

open CInt Ring Runs

/-! ## What the keys type -/

/-- The character of a key without Caps Lock. -/
def uncapital (c : UInt8) : UInt8 := if 0x41 ≤ c ∧ c ≤ 0x5A then c + 32 else c

/-- The text of a scan code: a character or nothing. -/
def keyText (caps : Bool) (scancode : UInt8) : List UInt8 :=
  if scancode &&& classicKeyboardKeyReleased ≠ 0 then []
  else match keyboardScanSetOne[scancode.toNat]? with
    | none => []
    | some c => if c = 0 then [] else [if caps then c else uncapital c]

/-- Caps Lock was pressed an odd number of times. -/
def capsOn (codes : List (Addr × UInt8)) : Bool :=
  (codes.countP fun code => code.2 = classicKeyboardCapslock) % 2 = 1

/-- What was typed while `process` was the current process, with the state that Caps Lock was in
before. -/
def typedTo (process : Addr) (before : List (Addr × UInt8)) : List (Addr × UInt8) → List UInt8
  | [] => []
  | code :: codes =>
    let before := before ++ [code]
    (if code.1 = process then keyText (capsOn before) code.2 else []) ++
      typedTo process before codes

/-- What was typed to a process since it was created. -/
def TypingSession.typed (s : TypingSession) (process : Addr) : List UInt8 :=
  typedTo process (s.codes.take (s.born process)) (s.codes.drop (s.born process))

lemma typedTo_concat (process : Addr) (before codes : List (Addr × UInt8)) (code : Addr × UInt8) :
    typedTo process before (codes ++ [code]) = typedTo process before codes ++
      if code.1 = process then keyText (capsOn (before ++ codes ++ [code])) code.2 else [] := by
  induction codes generalizing before with
  | nil => simp [typedTo]
  | cons c codes ih =>
    rw [List.cons_append, typedTo, typedTo, ih, List.append_assoc, List.append_assoc,
      List.append_assoc, List.append_assoc, List.singleton_append]
    rfl

lemma capsOn_concat (codes : List (Addr × UInt8)) (code : Addr × UInt8) :
    capsOn (codes ++ [code]) =
      if code.2 = classicKeyboardCapslock then !capsOn codes else capsOn codes := by
  unfold capsOn
  rw [List.countP_append, List.countP_singleton]
  by_cases hcode : code.2 = classicKeyboardCapslock
  · rw [if_pos (decide_eq_true hcode), if_pos hcode, ← decide_not]
    congr 1
    rw [eq_iff_iff]
    omega
  · rw [if_neg (by simpa using hcode), if_neg hcode, Nat.add_zero]

/-! ## The interrupt -/

/-- The two values of `capslock_state`. -/
def capslockState (caps : Bool) : ℤ := if caps then keyboardCapsLockOn else keyboardCapsLockOff

/-- The code that is as large as the table. -/
lemma scancodeToChar_outOfBounds (state : ℤ) :
    classicKeyboardScancodeToChar state 0x52 = .error .outOfBounds := rfl

lemma scancodeToChar_eq {caps : Bool} {scancode : UInt8} (hreleased : scancode &&& 0x80 = 0)
    (hsize : scancode ≠ 0x52) :
    classicKeyboardScancodeToChar (capslockState caps) scancode =
      .ok ((keyText caps scancode).headD 0) := by
  have hne : scancode.toNat ≠ 82 := fun h => hsize (UInt8.toNat_inj.mp h)
  have hlength : keyboardScanSetOne.length = 82 := rfl
  unfold classicKeyboardScancodeToChar keyText
  rw [if_neg (not_not.mpr hreleased)]
  by_cases hlarge : scancode.toNat > keyboardScanSetOne.length
  · rw [if_pos hlarge, List.getElem?_eq_none hlarge.le]
    rfl
  · rw [if_neg hlarge, List.getElem?_eq_getElem (by omega)]
    generalize keyboardScanSetOne[scancode.toNat] = c
    by_cases hc : c = 0
    · subst hc
      cases caps <;> rfl
    · cases caps with
      | false => simp [hc, capslockState, uncapital]
      | true => simp [hc, capslockState]

/-- The characters of the table stay characters. -/
lemma keyText_ne_zero (caps : Bool) (scancode : UInt8) : ∀ c ∈ keyText caps scancode, c ≠ 0 := by
  intro c hc
  unfold keyText at hc
  split at hc
  · cases hc
  split at hc
  · cases hc
  rename_i d hd
  split at hc
  · cases hc
  rename_i hd0
  rw [List.mem_singleton.mp hc]
  split
  · exact hd0
  unfold uncapital
  split
  · rename_i hcap
    intro hzero
    have h₁ := UInt8.le_iff_toNat_le.mp hcap.1
    have h₂ := UInt8.le_iff_toNat_le.mp hcap.2
    have hsum : (d.toNat + 32) % 2 ^ 8 = 0 := by
      rw [show (32 : ℕ) = (32 : UInt8).toNat from rfl, ← UInt8.toNat_add, hzero]
      rfl
    simp only [UInt8.toNat_ofNat] at h₁ h₂
    omega
  · exact hd0

/-- What the handler does to the buffers. -/
def pushText (text : List UInt8) (w : KeyboardWorld) : KeyboardWorld :=
  text.foldl (fun w c => keyboardPush c w) w

/-- At most one character. -/
lemma keyText_cases (caps : Bool) (scancode : UInt8) :
    keyText caps scancode = [] ∨ ∃ c, c ≠ 0 ∧ keyText caps scancode = [c] := by
  have hne := keyText_ne_zero caps scancode
  unfold keyText at hne ⊢
  split
  · exact Or.inl rfl
  · split
    · exact Or.inl rfl
    · split
      · exact Or.inl rfl
      · rename_i hreleased _ d hd hd0
        refine Or.inr ⟨_, hne _ ?_, rfl⟩
        rw [if_neg hreleased]
        simp [hd, hd0]

/-- One interrupt: the state of Caps Lock is the parity of its presses, and the text of the code is
pushed. -/
lemma handleInterrupt_eq {w w' : ClassicWorld} {codes : List (Addr × UInt8)} {process : Addr}
    {scancode : UInt8} (hcaps : w.capslockState = capslockState (capsOn codes))
    (hw : classicKeyboardHandleInterrupt scancode w = .ok w') :
    w'.capslockState = capslockState (capsOn (codes ++ [(process, scancode)])) ∧
      w'.keyboards = pushText (keyText (capsOn (codes ++ [(process, scancode)])) scancode)
        w.keyboards := by
  rcases w with ⟨state, keyboards⟩
  obtain rfl : state = capslockState (capsOn codes) := hcaps
  unfold classicKeyboardHandleInterrupt at hw
  by_cases hreleased : scancode &&& classicKeyboardKeyReleased ≠ 0
  · rw [if_pos hreleased] at hw
    rw [← Except.ok.inj hw]
    have hcode : ¬ scancode = classicKeyboardCapslock := by
      rintro rfl
      exact hreleased rfl
    rw [capsOn_concat, if_neg hcode, keyText, if_pos hreleased]
    exact ⟨rfl, rfl⟩
  · have hstate : (if scancode = classicKeyboardCapslock then
          if capslockState (capsOn codes) = keyboardCapsLockOn then keyboardCapsLockOff
          else keyboardCapsLockOn
        else capslockState (capsOn codes)) =
        capslockState (capsOn (codes ++ [(process, scancode)])) := by
      rw [capsOn_concat]
      split
      · cases capsOn codes <;> rfl
      · rfl
    rw [if_neg hreleased] at hw
    simp only [hstate] at hw
    generalize capsOn (codes ++ [(process, scancode)]) = caps at hw ⊢
    by_cases hsize : scancode = 0x52
    · rw [hsize, scancodeToChar_outOfBounds] at hw
      cases hw
    · rw [scancodeToChar_eq (not_not.mp hreleased) hsize] at hw
      rcases keyText_cases caps scancode with htext | ⟨c, hc, htext⟩
      · rw [htext] at hw ⊢
        rw [← Except.ok.inj hw]
        exact ⟨rfl, rfl⟩
      · rw [htext] at hw ⊢
        have hw : (if c ≠ 0 then .ok ⟨capslockState caps, keyboardPush c keyboards⟩
          else .ok ⟨capslockState caps, keyboards⟩ : Except Fault ClassicWorld) = .ok w' := hw
        rw [if_pos hc] at hw
        rw [← Except.ok.inj hw]
        exact ⟨rfl, rfl⟩

/-! ## The buffers -/

/-- The world as seen by a process: the keys go to it, and a task of it runs. -/
def KeyboardWorld.seenBy (w : KeyboardWorld) (process : Addr) : KeyboardWorld :=
  ⟨process, 1, fun _ => process, w.keyboard⟩

/-- The buffer of a process holds what was typed to it and not handed to it yet. -/
def Buffers (w : KeyboardWorld) (process : Addr) (typed popped : List UInt8) : Prop :=
  KeyboardInv ⟨w.seenBy process, typed, popped⟩

section
variable {w w' : KeyboardWorld} {process : Addr} {typed popped text : List UInt8} {c : UInt8}

/-- Only the process's own buffer matters. -/
lemma Buffers.congr (h : Buffers w process typed popped)
    (hkeyboard : w'.keyboard process = w.keyboard process) : Buffers w' process typed popped := by
  have hbuffer : KeyboardRun.keyboard ⟨w'.seenBy process, typed, popped⟩ =
      KeyboardRun.keyboard ⟨w.seenBy process, typed, popped⟩ := hkeyboard
  rcases h with ⟨h₁, h₂, h₃, h₄, h₅, h₆, h₇, h₈⟩
  refine ⟨h₁, h₂, h₃, ?_, ?_, h₆, ?_, h₈⟩
  · rw [hbuffer]
    exact h₄
  · rw [hbuffer]
    exact h₅
  · rw [hbuffer]
    exact h₇

/-- A new process. -/
lemma buffers_cleared (hprocess : process ≠ 0)
    (hcleared : w.keyboard process = clearedKeyboardBuffer) : Buffers w process [] [] :=
  KeyboardStart.inv ⟨hprocess, one_ne_zero, rfl, hcleared⟩

/-- A push stores the buffer of the current process, if it stores one. -/
lemma keyboardPush_cases (c : UInt8) (w : KeyboardWorld) : keyboardPush c w = w ∨
    ∃ keyboard, keyboardPush c w = w.setKeyboard w.currentProcess keyboard := by
  unfold keyboardPush
  by_cases hprocess : w.currentProcess = 0
  · exact Or.inl (if_pos hprocess)
  · by_cases hc : c = 0
    · exact Or.inl ((if_neg hprocess).trans (if_pos hc))
    · exact Or.inr ⟨_, (if_neg hprocess).trans (if_neg hc)⟩

/-- A pop stores the buffer of the current task's process, if it stores one. -/
lemma keyboardPop_cases (w : KeyboardWorld) : (keyboardPop w).2 = w ∨
    ∃ keyboard, (keyboardPop w).2 = w.setKeyboard (w.taskProcess w.currentTask) keyboard := by
  by_cases htask : w.currentTask = 0
  · rw [keyboardPop, if_pos htask]
    exact Or.inl rfl
  · by_cases hc : (w.keyboard (w.taskProcess w.currentTask)).buffer
        (keyboardIndex (w.keyboard (w.taskProcess w.currentTask)).head) = 0
    · rw [keyboardPop_of_zero htask rfl hc]
      exact Or.inl rfl
    · rw [keyboardPop_of_ne_zero htask rfl rfl hc]
      exact Or.inr ⟨_, rfl⟩

lemma keyboardPush_of_ne (c : UInt8) (hne : process ≠ w.currentProcess) :
    (keyboardPush c w).keyboard process = w.keyboard process := by
  rcases keyboardPush_cases c w with h | ⟨keyboard, h⟩
  · rw [h]
  · rw [h]
    exact Function.update_of_ne hne _ _

lemma keyboardPop_of_ne (hne : process ≠ w.taskProcess w.currentTask) :
    (keyboardPop w).2.keyboard process = w.keyboard process := by
  rcases keyboardPop_cases w with h | ⟨keyboard, h⟩
  · rw [h]
  · rw [h]
    exact Function.update_of_ne hne _ _

/-- A character for the current process. -/
lemma Buffers.push (h : Buffers w w.currentProcess typed popped) (hc : c ≠ 0)
    (hfits : typed.length < popped.length + marrowosKeyboardBufferSize) :
    Buffers (keyboardPush c w) w.currentProcess (typed ++ [c]) popped := by
  have hpush := h.step_push hc hfits
  have hseen : (keyboardPush c w).seenBy w.currentProcess =
      keyboardPush c (w.seenBy w.currentProcess) := by
    have hprocess : w.currentProcess ≠ 0 := h.process
    simp only [keyboardPush, KeyboardWorld.seenBy, if_neg hprocess, if_neg hc,
      KeyboardWorld.setKeyboard]
  unfold Buffers
  rw [hseen]
  exact hpush

/-- The next character of the process whose task is the current one. -/
lemma Buffers.pop (h : Buffers w (w.taskProcess w.currentTask) typed popped)
    (htask : w.currentTask ≠ 0) :
    (keyboardPop w).1 = typed.getD popped.length 0 ∧
      Buffers (keyboardPop w).2 (w.taskProcess w.currentTask) typed
        (if (keyboardPop w).1 = 0 then popped else popped ++ [(keyboardPop w).1]) := by
  generalize hprocess : w.taskProcess w.currentTask = process at h
  have hkeyboard : w.keyboard (w.taskProcess w.currentTask) = w.keyboard process := by rw [hprocess]
  have hseen : keyboardPop (w.seenBy process) =
      ((keyboardPop w).1, (keyboardPop w).2.seenBy process) := by
    by_cases hc : (w.keyboard process).buffer (keyboardIndex (w.keyboard process).head) = 0
    · rw [keyboardPop_of_zero one_ne_zero (w := w.seenBy process) rfl hc,
        keyboardPop_of_zero htask hkeyboard hc]
    · rw [keyboardPop_of_ne_zero one_ne_zero (w := w.seenBy process) rfl rfl hc,
        keyboardPop_of_ne_zero htask hkeyboard rfl hc, hprocess]
      rfl
  have hpop := h.step_pop
  rw [hseen] at hpop
  refine ⟨?_, hpop⟩
  have hvalue : (keyboardPop (w.seenBy process)).1 = (keyboardPop w).1 := by rw [hseen]
  rw [← hvalue]
  have hpending : KeyboardRun.pending ⟨w.seenBy process, typed, popped⟩ =
      typed.drop popped.length := rfl
  cases hdrop : typed.drop popped.length with
  | nil =>
    rw [h.pop_nil (hpending.trans hdrop), List.getD_eq_default]
    exact List.drop_eq_nil_iff.mp hdrop
  | cons d queue =>
    rw [h.pop_cons (hpending.trans hdrop), List.getD_eq_getElem?_getD,
      ← List.head?_drop, hdrop]
    rfl

end

/-! ## Sessions -/

/-- A character that comes finds room in the buffer of the current process. -/
def TypingFits (s : TypingSession) : TypingOp → Prop
  | .interrupt scancode =>
    let process := s.classic.keyboards.currentProcess
    keyText (capsOn (s.codes ++ [(process, scancode)])) scancode ≠ [] →
      (s.typed process).length < (s.popped process).length + marrowosKeyboardBufferSize
  | _ => True

/-- Every process was handed the first characters that were typed to it, and the task that runs is
handed the next one when it asks, `0` when there is none. -/
structure TypingOk (s : TypingSession) : Prop where
  order : ∀ process ∈ s.live, s.popped process <+: s.typed process
  next : s.classic.keyboards.taskProcess s.classic.keyboards.currentTask ∈ s.live →
    s.classic.keyboards.currentTask ≠ 0 → (keyboardPop s.classic.keyboards).1 =
      (s.typed (s.classic.keyboards.taskProcess s.classic.keyboards.currentTask)).getD
        (s.popped (s.classic.keyboards.taskProcess s.classic.keyboards.currentTask)).length 0

structure TypingInv (s : TypingSession) : Prop where
  distinct : s.live.Nodup
  caps : s.classic.capslockState = capslockState (capsOn s.codes)
  process : s.classic.keyboards.currentProcess = 0 ∨ s.classic.keyboards.currentProcess ∈ s.live
  live : ∀ process ∈ s.live, process ≠ 0 ∧ s.born process ≤ s.codes.length
  buffers : ∀ process ∈ s.live,
    Buffers s.classic.keyboards process (s.typed process) (s.popped process)

variable {s s' : TypingSession}

lemma TypingInv.ok (h : TypingInv s) : TypingOk s :=
  ⟨fun process hprocess => (h.buffers process hprocess).order,
    fun hlive htask => ((h.buffers _ hlive).pop htask).1⟩

/-- One more scan code. -/
lemma typed_concat {code : Addr × UInt8} {process : Addr} (hborn : s.born process ≤ s.codes.length)
    (classic : ClassicWorld) :
    TypingSession.typed { s with classic, codes := s.codes ++ [code] } process =
      s.typed process ++
        if code.1 = process then keyText (capsOn (s.codes ++ [code])) code.2 else [] := by
  unfold TypingSession.typed
  simp only [List.take_append_of_le_length hborn, List.drop_append_of_le_length hborn]
  rw [typedTo_concat, List.take_append_drop]

lemma typingStep_interrupt {scancode : UInt8} (h : TypingInv s)
    (hfits : TypingFits s (.interrupt scancode))
    (hstep : typingStep s (.interrupt scancode) = some s') : TypingInv s' := by
  unfold typingStep at hstep
  cases hw : classicKeyboardHandleInterrupt scancode s.classic with
  | error fault =>
    simp only [hw] at hstep
    cases hstep
  | ok classic =>
    simp only [hw] at hstep
    rw [← Option.some.inj hstep]
    have hcaps := h.caps
    rcases @handleInterrupt_eq _ _ _ s.classic.keyboards.currentProcess _ hcaps hw with
      ⟨hcaps', hkeyboards⟩
    have htyped := fun process hprocess =>
      @typed_concat s (s.classic.keyboards.currentProcess, scancode) process
        (h.live process hprocess).2 classic
    simp only [TypingFits] at hfits
    rcases keyText_cases (capsOn (s.codes ++ [(s.classic.keyboards.currentProcess, scancode)]))
      scancode with htext | ⟨c, hc, htext⟩
    · rw [htext] at hkeyboards
      have hsame : classic.keyboards = s.classic.keyboards := hkeyboards
      refine ⟨h.distinct, hcaps', ?_, fun process hprocess => ⟨(h.live process hprocess).1, ?_⟩,
        fun process hprocess => ?_⟩
      · rw [hsame]
        exact h.process
      · exact le_trans (h.live process hprocess).2 (by simp)
      · rw [htyped process hprocess]
        simp only [htext, ite_self, List.append_nil, hsame]
        exact h.buffers process hprocess
    · rw [htext] at hkeyboards
      have hpush : classic.keyboards = keyboardPush c s.classic.keyboards := hkeyboards
      have hroom := hfits (by rw [htext]; exact List.cons_ne_nil _ _)
      refine ⟨h.distinct, hcaps', ?_, fun process hprocess => ⟨(h.live process hprocess).1, ?_⟩,
        fun process hprocess => ?_⟩
      · rw [hpush]
        rcases keyboardPush_cases c s.classic.keyboards with heq | ⟨keyboard, heq⟩
        · rw [heq]
          exact h.process
        · rw [heq]
          exact h.process
      · exact le_trans (h.live process hprocess).2 (by simp)
      · rw [htyped process hprocess, hpush, htext]
        by_cases hcurrent : s.classic.keyboards.currentProcess = process
        · subst hcurrent
          rw [if_pos rfl]
          exact (h.buffers _ hprocess).push hc hroom
        · rw [if_neg hcurrent, List.append_nil]
          exact (h.buffers process hprocess).congr
            (keyboardPush_of_ne c fun heq => hcurrent heq.symm)

/-- A key that the current task is handed. -/
def TypingSession.handed (s : TypingSession) (c : UInt8) : Addr → List UInt8 :=
  let process := s.classic.keyboards.taskProcess s.classic.keyboards.currentTask
  if c = 0 then s.popped else Function.update s.popped process (s.popped process ++ [c])

lemma typingStep_getkey_eq (s : TypingSession) : typingStep s .getkey =
    some { s with
      classic := { s.classic with keyboards := (keyboardPop s.classic.keyboards).2 }
      popped := s.handed (keyboardPop s.classic.keyboards).1 } := rfl

lemma handed_of_ne {process : Addr} {c : UInt8}
    (hne : process ≠ s.classic.keyboards.taskProcess s.classic.keyboards.currentTask) :
    s.handed c process = s.popped process := by
  unfold TypingSession.handed
  split
  · rfl
  · exact Function.update_of_ne hne _ _

lemma handed_current (c : UInt8) :
    s.handed c (s.classic.keyboards.taskProcess s.classic.keyboards.currentTask) =
      if c = 0 then s.popped (s.classic.keyboards.taskProcess s.classic.keyboards.currentTask)
      else s.popped (s.classic.keyboards.taskProcess s.classic.keyboards.currentTask) ++ [c] := by
  unfold TypingSession.handed
  split
  · rfl
  · exact Function.update_self _ _ _

lemma typingStep_getkey (h : TypingInv s) (hstep : typingStep s .getkey = some s') :
    TypingInv s' := by
  have hprocess : (keyboardPop s.classic.keyboards).2.currentProcess =
      s.classic.keyboards.currentProcess := by
    rcases keyboardPop_cases s.classic.keyboards with heq | ⟨keyboard, heq⟩
    · rw [heq]
    · rw [heq]
      rfl
  have hbuffers (process : Addr) (hlive : process ∈ s.live) :
      Buffers (keyboardPop s.classic.keyboards).2 process (s.typed process)
        (s.handed (keyboardPop s.classic.keyboards).1 process) := by
    have hbuffer := h.buffers process hlive
    by_cases hcurrent : process = s.classic.keyboards.taskProcess s.classic.keyboards.currentTask
    · by_cases htask : s.classic.keyboards.currentTask = 0
      · rw [show keyboardPop s.classic.keyboards = (0, s.classic.keyboards) by
          rw [keyboardPop, if_pos htask]]
        exact hbuffer
      · subst hcurrent
        rw [handed_current]
        exact (hbuffer.pop htask).2
    · rw [handed_of_ne hcurrent]
      exact hbuffer.congr (keyboardPop_of_ne hcurrent)
  rw [typingStep_getkey_eq] at hstep
  generalize keyboardPop s.classic.keyboards = pop at hstep hprocess hbuffers
  rw [← Option.some.inj hstep]
  refine ⟨h.distinct, h.caps, ?_, h.live, hbuffers⟩
  rw [hprocess]
  exact h.process

lemma typingStep_processNew {process task : Addr} (h : TypingInv s)
    (hstep : typingStep s (.processNew process task) = some s') : TypingInv s' := by
  rw [typingStep] at hstep
  split at hstep
  · rename_i hnew
    rcases hnew with ⟨hprocess, hfresh, -⟩
    rw [← Option.some.inj hstep]
    refine ⟨List.nodup_cons.mpr ⟨hfresh, h.distinct⟩, h.caps,
      h.process.imp_right (List.mem_cons_of_mem _), fun p hp => ?_, fun p hp => ?_⟩
    · by_cases heq : p = process
      · simp only [heq, Function.update_self]
        exact ⟨hprocess, le_rfl⟩
      · simp only [Function.update_of_ne heq]
        exact h.live p (List.mem_of_ne_of_mem heq hp)
    · simp only [TypingSession.typed]
      by_cases heq : p = process
      · rw [heq, Function.update_self, Function.update_self, List.drop_length]
        exact buffers_cleared hprocess (Function.update_self _ _ _)
      · rw [Function.update_of_ne heq, Function.update_of_ne heq]
        exact (h.buffers p (List.mem_of_ne_of_mem heq hp)).congr (Function.update_of_ne heq _ _)
  · cases hstep

lemma typingStep_processEnd {process next task : Addr} (h : TypingInv s)
    (hstep : typingStep s (.processEnd process next task) = some s') : TypingInv s' := by
  rw [typingStep] at hstep
  split at hstep
  · rename_i hends
    rcases hends with ⟨-, hnext, -⟩
    rw [← Option.some.inj hstep]
    refine ⟨h.distinct.erase process, h.caps, ?_, fun p hp => h.live p (List.mem_of_mem_erase hp),
      fun p hp => (h.buffers p (List.mem_of_mem_erase hp)).congr rfl⟩
    dsimp only
    split
    · exact Or.inr hnext
    · rename_i hother
      exact h.process.imp_right fun hlive => h.distinct.mem_erase_iff.mpr ⟨hother, hlive⟩
  · cases hstep

lemma typingStep_inv {op : TypingOp} (h : TypingInv s) (hfits : TypingFits s op)
    (hstep : typingStep s op = some s') : TypingInv s' := by
  cases op with
  | interrupt scancode => exact typingStep_interrupt h hfits hstep
  | getkey => exact typingStep_getkey h hstep
  | processSwitch process =>
    rw [typingStep] at hstep
    split at hstep
    · rename_i hlive
      rw [← Option.some.inj hstep]
      exact ⟨h.distinct, h.caps, Or.inr hlive, h.live, fun p hp => (h.buffers p hp).congr rfl⟩
    · cases hstep
  | taskSwitch task =>
    rw [typingStep] at hstep
    split at hstep
    · rw [← Option.some.inj hstep]
      exact ⟨h.distinct, h.caps, h.process, h.live, fun p hp => (h.buffers p hp).congr rfl⟩
    · cases hstep
  | processNew process task => exact typingStep_processNew h hstep
  | processEnd process next task => exact typingStep_processEnd h hstep

/-- **Typing.** From boot on, whatever keys are pressed and released, whichever processes and tasks
come, go and are switched to and whoever asks for keys, as long as a buffer is not full when a
character comes: every process was handed, from the first one on, the characters of the keys that
were pressed while it was the current process, with capitals after an odd number of presses of Caps
Lock, and the task that runs is handed the next one when it asks. -/
theorem typing_arrives (keyboard : Addr → KeyboardBuffer) (taskProcess : Addr → Addr)
    {ops : List TypingOp}
    (hfits : Meets typingStep TypingFits (startTyping keyboard taskProcess) ops) :
    Throughout typingStep TypingOk (startTyping keyboard taskProcess) ops :=
  (throughout_of_meets (fun _ _ _ h hfits hstep => typingStep_inv h hfits hstep)
    ⟨List.nodup_nil, rfl, Or.inl rfl, fun _ h => absurd h List.not_mem_nil,
      fun _ h => absurd h List.not_mem_nil⟩ hfits).imp fun _ h => h.ok

/-- A process gets a capital A, with Caps Lock. -/
theorem typing_arrives_capital :
    Throughout typingStep TypingOk (startTyping (fun _ => clearedKeyboardBuffer) fun _ => 0)
      [.processNew 4096 8192, .processSwitch 4096, .taskSwitch 8192, .interrupt 0x3A,
        .interrupt 0x1E, .getkey] := by
  refine typing_arrives _ _ ⟨trivial, fun s₁ h₁ => ⟨trivial, fun s₂ h₂ => ⟨trivial, fun s₃ h₃ =>
    ⟨fun h => absurd rfl h, fun s₄ h₄ => ⟨fun _ => ?_, fun _ _ => ⟨trivial, fun _ _ => trivial⟩⟩⟩⟩⟩⟩
  cases h₁
  cases h₂
  cases h₃
  cases h₄
  decide

end MarrowOS
