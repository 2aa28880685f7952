import MarrowOS.Idt.Idt
import MarrowOS.Task.ContextSwitch

/-!
# Traps (`idt.c`, `idt.asm`, `task.c`)

Every way from user code into the kernel and back: exceptions, with an error code on the stack or
without, the clock, devices, vectors that nobody registered a callback for, system calls by number,
and `idt_zero`, which saves nothing. A `TrapRun` adds to a `CpuRun` the data segments and the page
directory that are active.
-/

namespace MarrowOS

open CInt

/-! ## The tables after boot -/

inductive InterruptCallback
  | idtHandleException
  | idtClock
  | classicKeyboardHandleInterrupt
deriving DecidableEq, Repr

/-- `ISR_KEYBOARD_INTERRUPT`. -/
@[simp] abbrev isrKeyboardInterrupt : ℕ := 0x21

/-- The callbacks that `idt_init` and `classic_keyboard_init` register. -/
def bootCallbacks : Callbacks InterruptCallback :=
  let interruptCallbacks := idtInitCallbacks .idtHandleException .idtClock fun _ => none
  (idtRegisterInterruptCallback isrKeyboardInterrupt (some .classicKeyboardHandleInterrupt)
    interruptCallbacks).2

def bootCommands : Callbacks Isr80hCommand :=
  match isr80hRegisterCommands fun _ => none with
  | .ok isr80hCommands => isr80hCommands
  | .error _ => fun _ => none

/-! ## The stack -/

/-- The vectors for which the processor pushes an error code, when it is not `int` that asks for
them. -/
def errorCodeVectors : List ℕ := [8, 10, 11, 12, 13, 14, 17, 21, 29, 30]

/-- The kernel stack after `pushad`, the word pushed last at the head. The entry points of all
vectors are the same, with an error code in front of the instruction pointer or without. -/
def trapEntry (errorCode : Option ℕ) (cpu : Registers) : List ℕ :=
  let stack := [cpu.ip, cpu.cs, cpu.flags, cpu.esp, cpu.ss]
  let stack := errorCode.toList ++ stack
  let esp := kernelStack - 4 * stack.length
  [cpu.edi, cpu.esi, cpu.ebp, esp, cpu.ebx, cpu.edx, cpu.ecx, cpu.eax] ++ stack

/-- `task_current_save_state`, with the frame on the stack. -/
def CpuRun.taskCurrentSaveState (r : CpuRun) (stack : List ℕ) : Option CpuRun := do
  let frame ← interruptFrameAt stack
  let task := r.tasks.list.currentTask
  if task = 0 then none
  else
    let list := taskSaveState task frame r.tasks.list
    return { r with
      tasks := { r.tasks with list }
      frames := Function.update r.frames r.running (some frame)
      entered := none }

/-- `task_free`; a task created in its place later has no frame yet. -/
def CpuRun.taskFree (r : CpuRun) (task : ℕ) : Option CpuRun := do
  let tasks ← taskStep r.tasks (.taskFree task)
  return { r with tasks, frames := Function.update r.frames task none }

/-! ## Page directories -/

/-- The run, the segment in `ds`, `es`, `fs` and `gs`, and the page directory in `cr3`. -/
structure TrapRun where
  run : CpuRun
  ds : ℕ
  directory : ℕ

namespace TrapRun

/-- The directory of a task. -/
def directoryOf (r : TrapRun) (task : ℕ) : ℕ :=
  (r.run.tasks.list.tasks task).pageDirectory.directoryEntry

/-- `kernel_page`, with the directory of the kernel. -/
def kernelPage (kernelDirectory : ℕ) (r : TrapRun) : TrapRun :=
  { r with ds := kernelDataSelector, directory := kernelDirectory }

/-- `task_page`: `user_registers`, and `task_switch` to the current task. -/
def taskPage (r : TrapRun) : TrapRun :=
  { r with ds := userDataSegment, directory := r.directoryOf r.run.tasks.list.currentTask }

/-- `task_switch(task); task_return(&task->registers)`. -/
def enter (task : ℕ) (r : TrapRun) : Option TrapRun := do
  let run ← r.run.switchTo task
  let registers := (r.run.tasks.list.tasks task).registers
  -- `mov ax,[ebx+44]`
  return { run, ds := registers.word 44 % 2 ^ 16, directory := r.directoryOf task }

def taskNext (r : TrapRun) : Option TrapRun :=
  let nextTask := taskGetNext r.run.tasks.list
  if nextTask = 0 then none else r.enter nextTask

/-- `process_terminate(task_current()->process); task_next()`. With no task left there is no
`current_task` to go on from. -/
def terminate (r : TrapRun) : Option TrapRun := do
  let run ← r.run.taskFree r.run.tasks.list.currentTask
  if run.tasks.list.currentTask = 0 then none else taskNext { r with run }

/-- Back to the interrupted code, with the registers that `popad` and `iret` found. -/
def returnTo (cpu : Registers) (r : TrapRun) : TrapRun :=
  { r with run := { r.run with cpu, entered := none } }

end TrapRun

/-! ## Handlers -/

/-- What a system call does to the tasks: it returns, having perhaps created one, or it starts the
one that it created. -/
inductive CommandEffect
  | returns (created : Option NewTask) (result : ℕ)
  | starts (new : NewTask)

/-- Only the two commands that load programs create tasks; the first returns without one. -/
def Isr80hCommand.allows : Isr80hCommand → CommandEffect → Bool
  | .isr80hCommand6ProcessLoadStart, .returns created result => created.isNone && result == 0
  | .isr80hCommand7InvokeSystemCommand, _ => true
  | .isr80hCommand6ProcessLoadStart, .starts _ => true
  | _, .returns created _ => created.isNone
  | _, .starts _ => false

/-- The end of a system call with an effect on the tasks. -/
def TrapRun.finishCommand (effect : CommandEffect) (stack : List ℕ) (r : TrapRun) :
    Option TrapRun :=
  match effect with
  | .returns created result => do
    let run ← match created with
      | none => some r.run
      | some new => r.run.taskNew new
    let cpu ← isr80hReturn result stack
    return ({ r with run } : TrapRun).taskPage.returnTo cpu
  | .starts new => do
    let run ← r.run.taskNew new
    ({ r with run } : TrapRun).enter new.task

/-- `isr80h_handle_command` with the function that it found, and the end of the system call. -/
def TrapRun.isr80hHandleCommand (commandFunc : Option Isr80hCommand) (effect : CommandEffect)
    (stack : List ℕ) (r : TrapRun) : Option TrapRun :=
  match commandFunc with
  | none => r.finishCommand (.returns none 0) stack
  | some .isr80hCommand9Exit => r.terminate
  | some commandFunc => if commandFunc.allows effect then r.finishCommand effect stack else none

section
variable (kernelDirectory : ℕ)

/-- `interrupt_handler`, and what is left of the entry point behind it. The handler of the keyboard
is left with one of the two directories active. -/
def interruptHandler (interrupt : ℕ) (stack : List ℕ) (r : TrapRun) : Option TrapRun := do
  let r := r.kernelPage kernelDirectory
  match bootCallbacks interrupt with
  | none =>
    let cpu ← interruptReturn stack
    return r.taskPage.returnTo cpu
  | some callback =>
    let run ← r.run.taskCurrentSaveState stack
    let r := { r with run }
    match callback with
    | .idtHandleException => r.terminate
    | .idtClock => r.taskNext
    | .classicKeyboardHandleInterrupt =>
      let cpu ← interruptReturn stack
      return r.taskPage.returnTo cpu

/-- `isr80h_handler`, and what is left of the entry point behind it. -/
def isr80hHandler (effect : CommandEffect) (stack : List ℕ) (r : TrapRun) : Option TrapRun := do
  let command := i32 r.run.cpu.eax
  let r := r.kernelPage kernelDirectory
  let run ← r.run.taskCurrentSaveState stack
  ({ r with run } : TrapRun).isr80hHandleCommand (isr80hCommandFunc bootCommands command) effect
    stack

/-! ## Runs -/

/-- Load some processes, then run the first one. -/
def bootTraps (tasks : ℕ → Task) (cpu : Registers) (created : List NewTask) : Option TrapRun := do
  let run ← created.foldlM CpuRun.taskNew ⟨cpu, emptyTaskRun tasks, 0, fun _ => none, fun _ => {},
    none⟩
  if run.tasks.list.currentTask = 0 then none
  else TrapRun.enter run.tasks.list.taskHead ⟨run, kernelDataSelector, kernelDirectory⟩

/-- The user's code changes its registers; it divides by zero, and `idt_zero` returns with any
values in the registers that C functions do not keep; a vector is taken; a system call is made. -/
inductive Trap
  | user (cpu : Registers)
  | idtZero (eax ecx edx : ℕ)
  | vector (interrupt : ℕ) (errorCode : Option ℕ)
  | isr80h (effect : CommandEffect)

/-- User code has no other code and stack segments to load. -/
def trapStep (r : TrapRun) : Trap → Option TrapRun
  | .user cpu =>
    if cpu.cs = r.run.cpu.cs ∧ cpu.ss = r.run.cpu.ss then some (r.returnTo cpu) else none
  | .idtZero eax ecx edx => some (r.returnTo { r.run.cpu with eax, ecx, edx })
  | .vector interrupt errorCode =>
    if interrupt = 0 ∨ interrupt = 0x80 ∨ 256 ≤ interrupt then none
    else if errorCode.isSome ∧ interrupt ∉ errorCodeVectors then none
    else interruptHandler kernelDirectory interrupt (trapEntry errorCode r.run.cpu) r
  | .isr80h effect => isr80hHandler kernelDirectory effect (trapEntry none r.run.cpu) r

end

end MarrowOS
