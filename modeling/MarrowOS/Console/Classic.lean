import MarrowOS.Console.Keyboard

/-!
# The classic keyboard (`classic.c`)

An interrupt of the keyboard brings a scan code of set one: a key that is released has bit 7 set,
Caps Lock turns the capitals of the table on and off, and every other key has the character of the
table, or none. A `TypingSession` adds the processes and tasks that come and go and that the kernel
switches between; its history variables are the scan codes so far, each with the process that was
current, and what each process was handed.
-/

namespace MarrowOS

@[simp] abbrev keyboardCapsLockOn : ℤ := 0
@[simp] abbrev keyboardCapsLockOff : ℤ := 1

@[simp] abbrev classicKeyboardCapslock : UInt8 := 0x3A
@[simp] abbrev classicKeyboardKeyReleased : UInt8 := 0x80

def keyboardScanSetOne : List UInt8 :=
  [0x00, 0x1B, 0x31, 0x32, 0x33, 0x34, 0x35, -- 1 to 5
    0x36, 0x37, 0x38, 0x39, 0x30, 0x2D, 0x3D, -- 6 to 0, - =
    0x08, 0x09, 0x51, 0x57, 0x45, 0x52, 0x54, -- QWERT
    0x59, 0x55, 0x49, 0x4F, 0x50, 0x5B, 0x5D, -- YUIOP [ ]
    0x0D, 0x00, 0x41, 0x53, 0x44, 0x46, 0x47, -- ASDFG
    0x48, 0x4A, 0x4B, 0x4C, 0x3B, 0x27, 0x60, -- HJKL ; ' and the backtick
    0x00, 0x5C, 0x5A, 0x58, 0x43, 0x56, 0x42, -- \ ZXCVB
    0x4E, 0x4D, 0x2C, 0x2E, 0x2F, 0x00, 0x2A, -- NM , . / *
    0x00, 0x20, 0x00, 0x00, 0x00, 0x00,
    0x00, 0x00, 0x00, 0x00, 0x00, 0x00,
    0x00, 0x37, 0x38, 0x39, 0x2D, 0x34, 0x35, -- 7 8 9 - 4 5
    0x36, 0x2B, 0x31, 0x32, 0x33, 0x30, 0x2E] -- 6 + 1 2 3 0 .

/-- The characters are not negative as `char`s. -/
def classicKeyboardScancodeToChar (capslockState : ℤ) (scancode : UInt8) : Except Fault UInt8 :=
  let sizeOfKeyboardSetOne := keyboardScanSetOne.length
  if scancode.toNat > sizeOfKeyboardSetOne then .ok 0
  else match keyboardScanSetOne[scancode.toNat]? with
    -- the code that equals the size is let through
    | none => .error .outOfBounds
    | some c =>
      if capslockState = keyboardCapsLockOff then
        .ok (if 0x41 ≤ c ∧ c ≤ 0x5A then c + 32 else c)
      else .ok c

/-- The state of `classic_keyboard`, and the buffers that its characters go to. -/
structure ClassicWorld where
  capslockState : ℤ
  keyboards : KeyboardWorld

/-- `classic_keyboard_init`. -/
def classicKeyboardInit (keyboards : KeyboardWorld) : ClassicWorld :=
  ⟨keyboardCapsLockOff, keyboards⟩

def classicKeyboardHandleInterrupt (scancode : UInt8) (w : ClassicWorld) :
    Except Fault ClassicWorld := do
  if scancode &&& classicKeyboardKeyReleased ≠ 0 then return w
  else
    let capslockState :=
      if scancode = classicKeyboardCapslock then
        if w.capslockState = keyboardCapsLockOn then keyboardCapsLockOff else keyboardCapsLockOn
      else w.capslockState
    let w := { w with capslockState }
    let c ← classicKeyboardScancodeToChar w.capslockState scancode
    if c ≠ 0 then return { w with keyboards := keyboardPush c w.keyboards } else return w

/-! ## Runs -/

structure TypingSession where
  classic : ClassicWorld
  /-- the processes that were created and have not ended -/
  live : List Addr
  codes : List (Addr × UInt8)
  /-- how many scan codes had come when a process was created -/
  born : Addr → ℕ
  popped : Addr → List UInt8

/-- The keyboard interrupts; the current task asks for a key; `process_switch` and `task_switch`; a
process and its task are created; a process ends, another one becomes the current process if that
was the one, and the task of another one is entered. -/
inductive TypingOp
  | interrupt (scancode : UInt8)
  | getkey
  | processSwitch (process : Addr)
  | taskSwitch (task : Addr)
  | processNew (process task : Addr)
  | processEnd (process next task : Addr)
deriving DecidableEq, Repr

def typingStep (s : TypingSession) : TypingOp → Option TypingSession
  | .interrupt scancode =>
    match classicKeyboardHandleInterrupt scancode s.classic with
    | .error _ => none
    | .ok classic =>
      some { s with classic, codes := s.codes ++ [(s.classic.keyboards.currentProcess, scancode)] }
  | .getkey =>
    let w := s.classic.keyboards
    let (c, keyboards) := keyboardPop w
    let process := w.taskProcess w.currentTask
    let popped := if c = 0 then s.popped
      else Function.update s.popped process (s.popped process ++ [c])
    some { s with classic := { s.classic with keyboards }, popped }
  | .processSwitch process =>
    if process ∈ s.live then
      let keyboards := { s.classic.keyboards with currentProcess := process }
      some { s with classic := { s.classic with keyboards } }
    else none
  | .taskSwitch task =>
    if task ≠ 0 ∧ s.classic.keyboards.taskProcess task ∈ s.live then
      let keyboards := { s.classic.keyboards with currentTask := task }
      some { s with classic := { s.classic with keyboards } }
    else none
  | .processNew process task =>
    if process ≠ 0 ∧ process ∉ s.live ∧ task ≠ 0 then
      let w := s.classic.keyboards
      let keyboards := { w with
        taskProcess := Function.update w.taskProcess task process
        keyboard := Function.update w.keyboard process clearedKeyboardBuffer }
      some { s with
        classic := { s.classic with keyboards }
        live := process :: s.live
        born := Function.update s.born process s.codes.length
        popped := Function.update s.popped process [] }
    else none
  | .processEnd process next task =>
    let w := s.classic.keyboards
    let live := s.live.erase process
    if process ∈ s.live ∧ next ∈ live ∧ task ≠ 0 ∧ w.taskProcess task ∈ live then
      let keyboards := { w with
        currentProcess := if w.currentProcess = process then next else w.currentProcess
        currentTask := task }
      some { s with classic := { s.classic with keyboards }, live }
    else none

/-- No process yet, and no key pressed. -/
def startTyping (keyboard : Addr → KeyboardBuffer) (taskProcess : Addr → Addr) : TypingSession :=
  ⟨classicKeyboardInit ⟨0, 0, taskProcess, keyboard⟩, [], [], fun _ => 0, fun _ => []⟩

end MarrowOS
