import MarrowOS.Console.Keyboard
import MarrowOS.Lib.Ring
import MarrowOS.Lib.Runs

/-!
# The keyboard buffer is a queue until it overflows

One process is the current process and the process of the current task. As long as at most 1024
characters are pending its ring holds exactly these, so that they are popped in the order they
were pushed in (`keyboard_fifo`) and never get stuck (`keyboard_neverStuck`). A character more
overwrites the oldest one, which the next pop then returns before its elders
(`keyboard_overflow_reorders`).
-/

namespace MarrowOS

open CInt Ring Runs

/-- The keys go to a process that has just been loaded and whose task is the current one. -/
structure KeyboardStart (w : KeyboardWorld) : Prop where
  process : w.currentProcess ≠ 0
  task : w.currentTask ≠ 0
  same : w.taskProcess w.currentTask = w.currentProcess
  cleared : w.keyboard w.currentProcess = clearedKeyboardBuffer

/-- At most 1024 characters are pending after the call. -/
def PushFits (r : KeyboardRun) : KeyboardOp → Prop
  | .keyboardPush _ => r.pushed.length < r.popped.length + marrowosKeyboardBufferSize
  | .keyboardPop => True

/-- What was popped is what was pushed, from the first character on, and a pop answers `0` when
and only when all of it was popped. -/
structure FifoOk (r : KeyboardRun) : Prop where
  order : r.popped <+: r.pushed
  empty_iff : (keyboardPop r.world).1 = 0 ↔ r.popped = r.pushed
  unchanged : (keyboardPop r.world).1 = 0 → (keyboardPop r.world).2 = r.world

/-- The buffer that the pushes store to. -/
def KeyboardRun.keyboard (r : KeyboardRun) : KeyboardBuffer :=
  r.world.keyboard r.world.currentProcess

/-- A character in the buffer can be popped, and the characters popped kept their order. -/
structure NeverStuck (r : KeyboardRun) : Prop where
  pops : (∃ j < marrowosKeyboardBufferSize, r.keyboard.buffer j ≠ 0) → (keyboardPop r.world).1 ≠ 0
  order : r.popped.Sublist r.pushed

/-! ## The invariant -/

/-- The characters that were pushed and not popped. -/
def KeyboardRun.pending (r : KeyboardRun) : List UInt8 := r.pushed.drop r.popped.length

/-- The counters count pushes and pops, and the ring holds the pending characters. -/
structure KeyboardInv (r : KeyboardRun) : Prop where
  process : r.world.currentProcess ≠ 0
  task : r.world.currentTask ≠ 0
  same : r.world.taskProcess r.world.currentTask = r.world.currentProcess
  tail : r.keyboard.tail = i32 r.pushed.length
  head : r.keyboard.head = i32 r.popped.length
  order : r.popped <+: r.pushed
  ring : Holds marrowosKeyboardBufferSize 0 r.keyboard.buffer r.popped.length r.pending
  nonzero : ∀ c ∈ r.pushed, c ≠ 0

/-- The counters may wrap: the size of the ring divides the range of an `int`. -/
lemma keyboardIndex_i32 (n : ℕ) : keyboardIndex (i32 n) = n % marrowosKeyboardBufferSize := by
  unfold keyboardIndex u32 i32
  simp only [marrowosKeyboardBufferSize]
  have hmod : Int.bmod n (2 ^ 32) % (2 ^ 32 : ℕ) = n % (2 ^ 32 : ℕ) := Int.bmod_emod
  omega

lemma i32_i32_succ (n : ℕ) : i32 (i32 n + 1) = i32 (n + 1 : ℕ) := by
  unfold i32
  rw [Int.bmod_add_bmod]
  rfl

variable {r : KeyboardRun} {c : UInt8} {queue : List UInt8}

lemma KeyboardInv.pending_nonzero (h : KeyboardInv r) : ∀ c ∈ r.pending, c ≠ 0 :=
  fun c hc => h.nonzero c (List.mem_of_mem_drop hc)

lemma KeyboardInv.length_pushed (h : KeyboardInv r) :
    r.pushed.length = r.popped.length + r.pending.length := by
  have hle := h.order.length_le
  rw [KeyboardRun.pending, List.length_drop]
  omega

lemma KeyboardInv.pushed_eq (h : KeyboardInv r) : r.pushed = r.popped ++ r.pending := by
  rcases h.order with ⟨queue, hqueue⟩
  rw [KeyboardRun.pending, ← hqueue, List.drop_left]

lemma KeyboardStart.inv {w : KeyboardWorld} (h : KeyboardStart w) : KeyboardInv ⟨w, [], []⟩ := by
  have hkeyboard : KeyboardRun.keyboard ⟨w, [], []⟩ = clearedKeyboardBuffer := h.cleared
  refine ⟨h.process, h.task, h.same, ?_, ?_, List.nil_prefix, ?_, ?_⟩
  · rw [hkeyboard]
    exact (i32_of_lt le_rfl (by omega)).symm
  · rw [hkeyboard]
    exact (i32_of_lt le_rfl (by omega)).symm
  · rw [hkeyboard]
    exact holds_nil 0
  · intro c hc
    exact absurd hc List.not_mem_nil

/-! ## One call -/

lemma keyboardPop_of_zero {w : KeyboardWorld} {keyboard : KeyboardBuffer}
    (htask : w.currentTask ≠ 0)
    (hkeyboard : w.keyboard (w.taskProcess w.currentTask) = keyboard)
    (hc : keyboard.buffer (keyboardIndex keyboard.head) = 0) : keyboardPop w = (0, w) := by
  subst hkeyboard
  unfold keyboardPop
  rw [if_neg htask]
  exact if_pos hc

lemma keyboardPop_of_ne_zero {w : KeyboardWorld} {keyboard : KeyboardBuffer}
    (htask : w.currentTask ≠ 0)
    (hkeyboard : w.keyboard (w.taskProcess w.currentTask) = keyboard)
    (hbuffer : keyboard.buffer (keyboardIndex keyboard.head) = c) (hc : c ≠ 0) :
    keyboardPop w = (c, w.setKeyboard (w.taskProcess w.currentTask)
      { keyboard with
        buffer := Function.update keyboard.buffer (keyboardIndex keyboard.head) 0
        head := i32 (keyboard.head + 1) }) := by
  subst hkeyboard hbuffer
  unfold keyboardPop
  rw [if_neg htask]
  exact if_neg hc

/-- A pop reads the cell of the oldest pending character. -/
lemma KeyboardInv.pop_nil (h : KeyboardInv r) (hpending : r.pending = []) :
    keyboardPop r.world = (0, r.world) := by
  have hcell := h.ring.first (by decide)
  rw [hpending, List.getD_nil] at hcell
  have hkeyboard : r.world.keyboard (r.world.taskProcess r.world.currentTask) = r.keyboard := by
    rw [h.same]
    rfl
  apply keyboardPop_of_zero h.task hkeyboard
  rw [h.head, keyboardIndex_i32, hcell]

lemma KeyboardInv.pop_cons (h : KeyboardInv r) (hpending : r.pending = c :: queue) :
    keyboardPop r.world =
      (c, r.world.setKeyboard r.world.currentProcess
        { r.keyboard with
          buffer := Function.update r.keyboard.buffer
            (r.popped.length % marrowosKeyboardBufferSize) 0
          head := i32 (r.popped.length + 1 : ℕ) }) := by
  have hc : c ≠ 0 := h.pending_nonzero c (by rw [hpending]; exact List.mem_cons_self)
  have hcell := h.ring.first (by decide)
  rw [hpending, List.getD_cons_zero] at hcell
  have hkeyboard : r.world.keyboard (r.world.taskProcess r.world.currentTask) = r.keyboard := by
    rw [h.same]
    rfl
  have hpop := keyboardPop_of_ne_zero h.task hkeyboard
    (by rw [h.head, keyboardIndex_i32, hcell]) hc
  rw [hpop, h.same, h.head, keyboardIndex_i32, i32_i32_succ]

/-- A pop answers `0` exactly when nothing is pending. -/
lemma KeyboardInv.pop_eq_zero_iff (h : KeyboardInv r) :
    (keyboardPop r.world).1 = 0 ↔ r.pending = [] := by
  constructor
  · intro hzero
    by_contra hne
    rcases List.exists_cons_of_ne_nil hne with ⟨c, queue, hpending⟩
    rw [h.pop_cons hpending] at hzero
    exact h.pending_nonzero c (by rw [hpending]; exact List.mem_cons_self) hzero
  · intro hpending
    rw [h.pop_nil hpending]

/-- The first pending character joins the popped ones. -/
lemma drop_popped_append (hpending : r.pending = c :: queue) :
    r.pushed.drop (r.popped ++ [c]).length = queue := by
  rw [List.length_append, ← List.drop_drop]
  show r.pending.drop 1 = queue
  rw [hpending]
  rfl

/-- The buffer after a `setKeyboard` of the current process. -/
lemma keyboard_setKeyboard (w : KeyboardWorld) (keyboard : KeyboardBuffer)
    (pushed popped : List UInt8) :
    KeyboardRun.keyboard ⟨w.setKeyboard w.currentProcess keyboard, pushed, popped⟩ = keyboard := by
  simp [KeyboardRun.keyboard]

lemma KeyboardInv.step_pop (h : KeyboardInv r) :
    KeyboardInv { r with
      world := (keyboardPop r.world).2
      popped := if (keyboardPop r.world).1 = 0 then r.popped
        else r.popped ++ [(keyboardPop r.world).1] } := by
  cases hpending : r.pending with
  | nil =>
    rw [h.pop_nil hpending]
    exact h
  | cons c queue =>
    have hc : c ≠ 0 := h.pending_nonzero c (by rw [hpending]; exact List.mem_cons_self)
    have hring := h.ring
    rw [hpending] at hring
    have hpushed := h.pushed_eq
    rw [hpending] at hpushed
    rw [h.pop_cons hpending]
    simp only [if_neg hc]
    refine ⟨h.process, h.task, h.same, ?_, ?_, ?_, ?_, h.nonzero⟩
    · rw [keyboard_setKeyboard]
      exact h.tail
    · rw [keyboard_setKeyboard, List.length_append, List.length_singleton]
    · show r.popped ++ [c] <+: r.pushed
      refine ⟨queue, ?_⟩
      rw [hpushed, List.append_assoc]
      rfl
    · show Holds _ 0 _ (r.popped ++ [c]).length (r.pushed.drop (r.popped ++ [c]).length)
      rw [drop_popped_append hpending, List.length_append, keyboard_setKeyboard]
      exact hring.pop

/-- A push stores behind the last character pushed, pending or not. -/
lemma KeyboardInv.push_eq (h : KeyboardInv r) (hc : c ≠ 0) :
    keyboardPush c r.world = r.world.setKeyboard r.world.currentProcess
      { r.keyboard with
        buffer := Function.update r.keyboard.buffer
          (r.pushed.length % marrowosKeyboardBufferSize) c
        tail := i32 (r.pushed.length + 1 : ℕ) } := by
  unfold keyboardPush
  rw [if_neg h.process, if_neg hc]
  show r.world.setKeyboard r.world.currentProcess
    { r.keyboard with
      buffer := Function.update r.keyboard.buffer (keyboardIndex r.keyboard.tail) c
      tail := i32 (r.keyboard.tail + 1) } = _
  rw [h.tail, keyboardIndex_i32, i32_i32_succ]

lemma KeyboardInv.step_push (h : KeyboardInv r) (hc : c ≠ 0)
    (hfits : PushFits r (.keyboardPush c)) :
    KeyboardInv { r with world := keyboardPush c r.world, pushed := r.pushed ++ [c] } := by
  have hlen := h.length_pushed
  have hlt : r.pending.length < marrowosKeyboardBufferSize := by
    have hlt : r.pushed.length < r.popped.length + marrowosKeyboardBufferSize := hfits
    omega
  rw [h.push_eq hc]
  refine ⟨h.process, h.task, h.same, ?_, ?_, ?_, ?_, ?_⟩
  · rw [keyboard_setKeyboard, List.length_append, List.length_singleton]
  · rw [keyboard_setKeyboard]
    exact h.head
  · exact h.order.trans (List.prefix_append _ _)
  · show Holds _ 0 _ r.popped.length ((r.pushed ++ [c]).drop r.popped.length)
    rw [List.drop_append_of_le_length h.order.length_le, keyboard_setKeyboard, hlen]
    exact h.ring.push hlt c
  · intro d hd
    rcases List.mem_append.mp hd with hd | hd
    · exact h.nonzero d hd
    · rw [List.mem_singleton.mp hd]
      exact hc

lemma keyboardStep_inv {op : KeyboardOp} {r' : KeyboardRun} (h : KeyboardInv r)
    (hfits : PushFits r op) (hstep : keyboardStep r op = some r') : KeyboardInv r' := by
  cases op with
  | keyboardPush c =>
    by_cases hc : c ≠ 0
    · rw [keyboardStep, if_pos hc] at hstep
      rw [← Option.some.inj hstep]
      exact h.step_push hc hfits
    · rw [keyboardStep, if_neg hc] at hstep
      exact absurd hstep (by simp)
  | keyboardPop =>
    rw [← Option.some.inj hstep]
    exact h.step_pop

/-! ## Runs -/

lemma KeyboardInv.fifoOk (h : KeyboardInv r) : FifoOk r := by
  have hpushed := h.pushed_eq
  refine ⟨h.order, ?_, ?_⟩
  · rw [h.pop_eq_zero_iff]
    constructor
    · intro hpending
      rw [hpushed, hpending, List.append_nil]
    · intro heq
      have hlen := h.length_pushed
      rw [heq] at hlen
      exact List.length_eq_zero_iff.mp (by omega)
  · intro hzero
    rw [h.pop_nil (h.pop_eq_zero_iff.mp hzero)]

lemma KeyboardInv.neverStuck (h : KeyboardInv r) : NeverStuck r := by
  refine ⟨?_, h.order.sublist⟩
  rw [h.ring.exists_ne_empty_iff h.pending_nonzero, Ne, Ne, h.pop_eq_zero_iff]
  exact id

/-- **Keyboard FIFO.** As long as the pushes lead the pops by at most 1024 the buffer is a
queue. -/
theorem keyboard_fifo {w : KeyboardWorld} (hw : KeyboardStart w) (ops : List KeyboardOp)
    (hfits : Meets keyboardStep PushFits ⟨w, [], []⟩ ops) :
    Throughout keyboardStep FifoOk ⟨w, [], []⟩ ops :=
  (throughout_of_meets (fun _ _ _ h hfits hstep => keyboardStep_inv h hfits hstep)
    hw.inv hfits).imp fun _ h => h.fifoOk

/-- A keyboard whose keys go to the process at `4096` with the task at `8192`. -/
def oneKeyboard : KeyboardWorld := ⟨4096, 8192, fun _ => 4096, fun _ => clearedKeyboardBuffer⟩

lemma oneKeyboard_start : KeyboardStart oneKeyboard := ⟨by decide, by decide, rfl, rfl⟩

/-- One key is pressed and two are asked for. -/
theorem keyboard_fifo_oneKey :
    Throughout keyboardStep FifoOk ⟨oneKeyboard, [], []⟩
      [.keyboardPush 0x41, .keyboardPop, .keyboardPop] :=
  keyboard_fifo oneKeyboard_start _
    ⟨by show 0 < 0 + 1024; decide, fun _ _ => ⟨trivial, fun _ _ => ⟨trivial, fun _ _ => trivial⟩⟩⟩

/-- **Keyboard progress.** As long as the pushes lead the pops by at most 1024 no character is
stuck in the buffer. -/
theorem keyboard_neverStuck {w : KeyboardWorld} (hw : KeyboardStart w) (ops : List KeyboardOp)
    (hfits : Meets keyboardStep PushFits ⟨w, [], []⟩ ops) :
    Throughout keyboardStep NeverStuck ⟨w, [], []⟩ ops :=
  (throughout_of_meets (fun _ _ _ h hfits hstep => keyboardStep_inv h hfits hstep)
    hw.inv hfits).imp fun _ h => h.neverStuck

theorem keyboard_neverStuck_oneKey :
    Throughout keyboardStep NeverStuck ⟨oneKeyboard, [], []⟩ [.keyboardPush 0x41, .keyboardPop] :=
  keyboard_neverStuck oneKeyboard_start _
    ⟨by show 0 < 0 + 1024; decide, fun _ _ => ⟨trivial, fun _ _ => trivial⟩⟩

/-! ## Overflow -/

/-- With 1024 characters pending, one more takes the place of the oldest: it is popped first, and
the pop after it answers the second oldest. -/
theorem KeyboardInv.overflow (h : KeyboardInv r) {x y : UInt8}
    (hpending : r.pending = x :: y :: queue)
    (hfull : r.pending.length = marrowosKeyboardBufferSize) (hc : c ≠ 0) :
    (keyboardPop (keyboardPush c r.world)).1 = c ∧
      (keyboardPop (keyboardPop (keyboardPush c r.world)).2).1 = y := by
  have hy : y ≠ 0 := h.pending_nonzero y (by rw [hpending]; simp)
  let first := r.popped.length % marrowosKeyboardBufferSize
  -- the new character lies in the cell that `head` stands at
  have hpush : keyboardPush c r.world = r.world.setKeyboard r.world.currentProcess
      { r.keyboard with
        buffer := Function.update r.keyboard.buffer first c
        tail := i32 (r.pushed.length + 1 : ℕ) } := by
    rw [h.push_eq hc, h.length_pushed, hfull, Nat.add_mod_right]
  have hpop := keyboardPop_of_ne_zero (w := keyboardPush c r.world) (c := c)
    (by rw [hpush]; exact h.task) rfl (by simp [hpush, h.same, h.head, keyboardIndex_i32, first]) hc
  refine ⟨by rw [hpop], ?_⟩
  -- the next cell still holds what was pushed there a turn ago
  have hcell : r.keyboard.buffer ((r.popped.length + 1) % marrowosKeyboardBufferSize) = y := by
    have hcell := h.ring.cell 1 (by decide)
    rwa [hpending] at hcell
  have hapart : (r.popped.length + 1) % marrowosKeyboardBufferSize ≠ first := by
    simp only [first, marrowosKeyboardBufferSize]
    omega
  have hnext := keyboardPop_of_ne_zero (w := (keyboardPop (keyboardPush c r.world)).2) (c := y)
    (by rw [hpop, hpush]; exact h.task) rfl
    (by
      rw [hpop, hpush]
      simp only [KeyboardWorld.setKeyboard_taskProcess, KeyboardWorld.setKeyboard_currentTask,
        h.same, KeyboardWorld.setKeyboard_keyboard, h.head, i32_i32_succ, keyboardIndex_i32]
      rw [Function.update_of_ne hapart, Function.update_of_ne hapart, hcell])
    hy
  rw [hnext]

/-- Pushes that fit leave their characters pending. -/
lemma KeyboardInv.run_push (c : UInt8) (hc : c ≠ 0) (n : ℕ) {r : KeyboardRun} (h : KeyboardInv r)
    (hfits : r.pending.length + n ≤ marrowosKeyboardBufferSize) :
    ∃ r', run keyboardStep r (List.replicate n (.keyboardPush c)) = some r' ∧ KeyboardInv r' ∧
      r'.pushed = r.pushed ++ List.replicate n c ∧ r'.popped = r.popped := by
  induction n generalizing r with
  | zero => exact ⟨r, rfl, h, by simp, rfl⟩
  | succ n ih =>
    have hpush : PushFits r (.keyboardPush c) := by
      show r.pushed.length < r.popped.length + marrowosKeyboardBufferSize
      rw [h.length_pushed]
      omega
    have hinv := h.step_push hc hpush
    have hlen : (r.pushed ++ [c]).length = r.popped.length + _ := hinv.length_pushed
    rw [List.length_append, List.length_singleton, h.length_pushed] at hlen
    rcases ih hinv (by omega) with ⟨r', hrun, hinv', hpushed, hpopped⟩
    refine ⟨r', run_cons.mpr ⟨_, if_pos hc, hrun⟩, hinv', ?_, hpopped⟩
    rw [hpushed, List.append_assoc, List.replicate_succ]
    rfl

lemma keyboardStep_pop (hpop : (keyboardPop r.world).1 = c) (hc : c ≠ 0) :
    keyboardStep r .keyboardPop =
      some ⟨(keyboardPop r.world).2, r.pushed, r.popped ++ [c]⟩ := by
  subst hpop
  unfold keyboardStep
  simp only [if_neg hc]

/-- A full buffer of one character, another character and two pops: the last one comes out
first. -/
lemma overflow_run {w : KeyboardWorld} (hw : KeyboardStart w) {b : UInt8} (hb : b ≠ 0)
    (hc : c ≠ 0) :
    ∃ r, run keyboardStep ⟨w, [], []⟩ (List.replicate 1024 (.keyboardPush b) ++
        [.keyboardPush c, .keyboardPop, .keyboardPop]) = some r ∧
      r.pushed = List.replicate 1024 b ++ [c] ∧ r.popped = [c, b] := by
  rcases hw.inv.run_push b hb 1024 le_rfl with ⟨r, hrun, hinv, hpushed, hpopped⟩
  have hpushed' : r.pushed = List.replicate 1024 b := hpushed
  have hpopped' : r.popped = [] := hpopped
  have hpending : r.pending = b :: b :: List.replicate 1022 b := by
    rw [KeyboardRun.pending, hpushed', hpopped', List.length_nil, List.drop_zero]
    rfl
  have hfull : r.pending.length = marrowosKeyboardBufferSize := by
    rw [KeyboardRun.pending, hpushed', hpopped', List.length_nil, List.drop_zero,
      List.length_replicate]
  rcases hinv.overflow hpending hfull hc with ⟨hfirst, hsecond⟩
  let r₁ : KeyboardRun := ⟨keyboardPush c r.world, r.pushed ++ [c], r.popped⟩
  have hpop₁ := keyboardStep_pop (r := r₁) hfirst hc
  have hpop₂ := keyboardStep_pop (r := ⟨(keyboardPop r₁.world).2, r₁.pushed, r₁.popped ++ [c]⟩)
    hsecond hb
  refine ⟨_, run_append.mpr ⟨r, hrun, run_cons.mpr ⟨r₁, if_pos hc, run_cons.mpr ⟨_, hpop₁,
    run_cons.mpr ⟨_, hpop₂, rfl⟩⟩⟩⟩, ?_, ?_⟩
  · show r.pushed ++ [c] = _
    rw [hpushed']
  · show r.popped ++ [c] ++ [b] = _
    rw [hpopped']
    rfl

/-- 1024 times one key, then another one. -/
theorem keyboard_overflow_reorders :
    ¬ ∀ (w : KeyboardWorld) (_ : KeyboardStart w) (ops : List KeyboardOp),
      Throughout keyboardStep NeverStuck ⟨w, [], []⟩ ops := by
  intro h
  rcases overflow_run oneKeyboard_start (b := 0x42) (c := 0x43) (by decide) (by decide) with
    ⟨r, hrun, hpushed, hpopped⟩
  have horder := ((h _ oneKeyboard_start _).last hrun).order
  rw [hpushed, hpopped, List.sublist_append_iff] at horder
  -- the first character popped is not among the 1024, so both would have to be the last one
  rcases horder with ⟨l₁, l₂, heq, h₁, h₂⟩
  cases l₁ with
  | nil =>
    have hlen := h₂.length_le
    rw [← List.nil_append l₂, ← heq] at hlen
    exact absurd hlen (by decide)
  | cons x l₁ =>
    have hx : x = 0x43 := (List.cons.inj heq).1.symm
    have hmem := List.eq_of_mem_replicate (h₁.subset List.mem_cons_self)
    rw [hx] at hmem
    exact absurd hmem (by decide)

end MarrowOS
