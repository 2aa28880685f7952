import MarrowOS.Config
import MarrowOS.Lib.CInt
import Mathlib.Logic.Function.Basic
import Mathlib.Tactic.Lemma

/-!
# The keyboard buffers (`keyboard.c`)

Every process has a ring of 1024 characters with two counters. A key press is stored in the ring
of the current process, and the current task reads from the ring of its own process. A cell
that is not in use holds `0`; the counters are `int`s that wrap, and there is no count.
-/

namespace MarrowOS

open CInt

@[simp] abbrev marrowosKeyboardBufferSize : ℕ := 1024

/-- `struct keyboard_buffer`. -/
structure KeyboardBuffer where
  buffer : ℕ → UInt8
  tail : ℤ
  head : ℤ

/-- `process_init` clears the buffer. -/
def clearedKeyboardBuffer : KeyboardBuffer := ⟨fun _ => 0, 0, 0⟩

/-- The cursors `process_current` and `task_current`, null when there is none, the `process`
field of the tasks and the `keyboard` field of the processes. -/
structure KeyboardWorld where
  currentProcess : Addr
  currentTask : Addr
  taskProcess : Addr → Addr
  keyboard : Addr → KeyboardBuffer

/-- Store the buffer of a process. -/
def KeyboardWorld.setKeyboard (w : KeyboardWorld) (process : Addr) (keyboard : KeyboardBuffer) :
    KeyboardWorld :=
  { w with keyboard := Function.update w.keyboard process keyboard }

@[simp] lemma KeyboardWorld.setKeyboard_currentProcess (w : KeyboardWorld) (process : Addr)
    (keyboard : KeyboardBuffer) :
    (w.setKeyboard process keyboard).currentProcess = w.currentProcess := rfl

@[simp] lemma KeyboardWorld.setKeyboard_currentTask (w : KeyboardWorld) (process : Addr)
    (keyboard : KeyboardBuffer) :
    (w.setKeyboard process keyboard).currentTask = w.currentTask := rfl

@[simp] lemma KeyboardWorld.setKeyboard_taskProcess (w : KeyboardWorld) (process : Addr)
    (keyboard : KeyboardBuffer) :
    (w.setKeyboard process keyboard).taskProcess = w.taskProcess := rfl

@[simp] lemma KeyboardWorld.setKeyboard_keyboard (w : KeyboardWorld) (process : Addr)
    (keyboard : KeyboardBuffer) : (w.setKeyboard process keyboard).keyboard process = keyboard := by
  simp [setKeyboard]

/-- The remainder is taken of unsigned numbers. -/
def keyboardIndex (counter : ℤ) : ℕ := u32 counter % marrowosKeyboardBufferSize

def keyboardGetTailIndex (keyboard : KeyboardBuffer) : ℕ := keyboardIndex keyboard.tail

def keyboardPush (c : UInt8) (w : KeyboardWorld) : KeyboardWorld :=
  let process := w.currentProcess
  if process = 0 then w
  else if c = 0 then w
  else
    let keyboard := w.keyboard process
    let realIndex := keyboardGetTailIndex keyboard
    let buffer := Function.update keyboard.buffer realIndex c
    let tail := i32 (keyboard.tail + 1)
    w.setKeyboard process { keyboard with buffer, tail }

def keyboardPop (w : KeyboardWorld) : UInt8 × KeyboardWorld :=
  if w.currentTask = 0 then (0, w)
  else
    let process := w.taskProcess w.currentTask
    let keyboard := w.keyboard process
    let realIndex := keyboardIndex keyboard.head
    let c := keyboard.buffer realIndex
    if c = 0x00 then (0, w)
    else
      let buffer := Function.update keyboard.buffer realIndex 0
      let head := i32 (keyboard.head + 1)
      (c, w.setKeyboard process { keyboard with buffer, head })

/-! ## Runs -/

/-- The keyboard, the characters pushed and the characters popped so far. -/
structure KeyboardRun where
  world : KeyboardWorld
  pushed : List UInt8
  popped : List UInt8

inductive KeyboardOp
  | keyboardPush (c : UInt8)
  | keyboardPop
deriving DecidableEq, Repr

/-- One call. Only characters other than `0` are pushed, and a pop that answers `0` popped
nothing. -/
def keyboardStep (r : KeyboardRun) : KeyboardOp → Option KeyboardRun
  | .keyboardPush c =>
    if c ≠ 0 then some { r with world := keyboardPush c r.world, pushed := r.pushed ++ [c] }
    else none
  | .keyboardPop =>
    let (c, world) := keyboardPop r.world
    some { r with world, popped := if c = 0 then r.popped else r.popped ++ [c] }

end MarrowOS
