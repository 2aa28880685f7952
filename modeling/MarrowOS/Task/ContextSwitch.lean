import MarrowOS.Config
import MarrowOS.Task.TaskList

/-!
# Context switches (`task.asm`, `idt.asm`, `idt.c`)

The processor and `pushad` leave the registers of the running task on the kernel stack, where C
code reads them as a `struct interrupt_frame` and copies them to the `struct registers` of the
current task. `task_return` loads such a structure by fixed offsets. A `CpuRun` is a processor in
user mode and the task list; its history variables say whose registers the processor runs, what
the last entry of each task into the kernel left on the stack, what `task_init` gave it, and what
the last step entered through `task_return`.
-/

namespace MarrowOS

/-! ## Entering the kernel -/

/-- `struct interrupt_frame`. -/
structure InterruptFrame where
  edi : ℕ
  esi : ℕ
  ebp : ℕ
  reserved : ℕ
  ebx : ℕ
  edx : ℕ
  ecx : ℕ
  eax : ℕ
  ip : ℕ
  cs : ℕ
  flags : ℕ
  esp : ℕ
  ss : ℕ
deriving DecidableEq, Repr

/-- `tss.esp0`. -/
@[simp] abbrev kernelStack : ℕ := 0x600000

/-- The words on the kernel stack after the processor took an interrupt in user mode and `pushad`
ran, the one pushed last at the head. -/
def interruptEntry (cpu : Registers) : List ℕ :=
  let stack := []
  -- pushed by the processor
  let stack := cpu.ss :: stack
  let stack := cpu.esp :: stack
  let stack := cpu.flags :: stack
  let stack := cpu.cs :: stack
  let stack := cpu.ip :: stack
  -- `pushad`; the stack pointer it saves is the kernel's
  let esp := kernelStack - 4 * stack.length
  let stack := cpu.eax :: stack
  let stack := cpu.ecx :: stack
  let stack := cpu.edx :: stack
  let stack := cpu.ebx :: stack
  let stack := esp :: stack
  let stack := cpu.ebp :: stack
  let stack := cpu.esi :: stack
  cpu.edi :: stack

/-- The structure that lies at the top of the stack. -/
def interruptFrameAt : List ℕ → Option InterruptFrame
  | edi :: esi :: ebp :: reserved :: ebx :: edx :: ecx :: eax :: ip :: cs :: flags :: esp :: ss ::
      _ => some { edi, esi, ebp, reserved, ebx, edx, ecx, eax, ip, cs, flags, esp, ss }
  | _ => none

def taskSaveState (task : ℕ) (frame : InterruptFrame) (s : TaskList) : TaskList :=
  let registers : Registers :=
    { ip := frame.ip
      cs := frame.cs
      flags := frame.flags
      esp := frame.esp
      ss := frame.ss
      eax := frame.eax
      ebp := frame.ebp
      ebx := frame.ebx
      ecx := frame.ecx
      edi := frame.edi
      edx := frame.edx
      esi := frame.esi }
  s.write task { s.tasks task with registers }

/-! ## Leaving the kernel -/

/-- `popad` and `iret`: the way back to the interrupted code. `popad` skips the stack pointer. -/
def interruptReturn : List ℕ → Option Registers
  | edi :: esi :: ebp :: _ :: ebx :: edx :: ecx :: eax :: ip :: cs :: flags :: esp :: ss :: _ =>
    some { edi, esi, ebp, ebx, edx, ecx, eax, ip, cs, flags, esp, ss }
  | _ => none

/-- The end of `isr80h_wrapper`, with the result of the system call. -/
def isr80hReturn (result : ℕ) (stack : List ℕ) : Option Registers :=
  (interruptReturn stack).map fun cpu => { cpu with eax := result }

/-- The word at an offset of a `struct registers`. -/
def Registers.word (regs : Registers) : (offset : ℕ) → ℕ
  | 0 => regs.edi
  | 4 => regs.esi
  | 8 => regs.ebp
  | 12 => regs.ebx
  | 16 => regs.edx
  | 20 => regs.ecx
  | 24 => regs.eax
  | 28 => regs.ip
  | 32 => regs.cs
  | 36 => regs.flags
  | 40 => regs.esp
  | 44 => regs.ss
  | _ => 0

/-- The interrupt enable flag. -/
@[simp] abbrev flagsIf : ℕ := 0x200

/-- `restore_general_purpose_registers`; the segment of the user stack comes later. -/
def restoreGeneralPurposeRegisters (regs cpu : Registers) : Registers :=
  let cpu := { cpu with edi := regs.word 0 }
  let cpu := { cpu with esi := regs.word 4 }
  let cpu := { cpu with ebp := regs.word 8 }
  let cpu := { cpu with edx := regs.word 16 }
  let cpu := { cpu with ecx := regs.word 20 }
  let cpu := { cpu with eax := regs.word 24 }
  { cpu with ebx := regs.word 12 }

/-- `iretd` to user mode. -/
def iretd (stack : List ℕ) (cpu : Registers) : Option Registers :=
  match stack with
  | ip :: cs :: flags :: esp :: ss :: _ => some { cpu with ip, cs, flags, esp, ss }
  | _ => none

/-- `task_return`, from the kernel's registers `cpu`. -/
def taskReturn (regs cpu : Registers) : Option Registers :=
  let stack := []
  let stack := regs.word 44 :: stack
  let stack := regs.word 40 :: stack
  let eax := regs.word 36 ||| flagsIf
  let stack := eax :: stack
  let stack := regs.word 32 :: stack
  let stack := regs.word 28 :: stack
  iretd stack (restoreGeneralPurposeRegisters regs cpu)

/-! ## Runs -/

/-- A processor in user mode, the task list and the history. -/
structure CpuRun where
  cpu : Registers
  tasks : TaskRun
  /-- The task whose registers the processor runs. -/
  running : ℕ
  /-- What the last entry of a task into the kernel left on the stack. -/
  frames : ℕ → Option InterruptFrame
  /-- What `task_init` gave a task. -/
  initial : ℕ → Registers
  /-- The task that the last step entered through `task_return`, and the registers it got. -/
  entered : Option (ℕ × Registers)

/-- A process that was loaded: its task, with the page directory `task_init` made for it. -/
structure NewTask where
  task : ℕ
  pageDirectory : Paging4gbChunk
  process : ℕ
  elfEntry : Option ℕ

/-- `task_new` succeeds. -/
def CpuRun.taskNew (r : CpuRun) (new : NewTask) : Option CpuRun := do
  let registers := taskInitRegisters new.elfEntry
  let tasks ← taskStep r.tasks (.taskNew new.task new.pageDirectory registers new.process)
  return { r with tasks, initial := Function.update r.initial new.task registers }

/-- The user's code is interrupted or asks for a system call, and its registers are saved in the
current task. -/
def CpuRun.enterKernel (r : CpuRun) : Option (List ℕ × CpuRun) := do
  let stack := interruptEntry r.cpu
  let frame ← interruptFrameAt stack
  let task := r.tasks.list.currentTask
  if task = 0 then none
  else
    let list := taskSaveState task frame r.tasks.list
    return (stack, { r with
      tasks := { r.tasks with list }
      frames := Function.update r.frames r.running (some frame)
      entered := none })

/-- `task_switch(task); task_return(&task->registers)`. -/
def CpuRun.switchTo (r : CpuRun) (task : ℕ) : Option CpuRun := do
  let list := taskSwitchCurrent task r.tasks.list
  let cpu ← taskReturn (list.tasks task).registers r.cpu
  return { r with
    cpu
    tasks := { r.tasks with list }
    running := task
    entered := some (task, cpu) }

/-- `task_run_first_ever_task`. -/
def CpuRun.taskRunFirstEverTask (r : CpuRun) : Option CpuRun :=
  if r.tasks.list.currentTask = 0 then none else r.switchTo r.tasks.list.taskHead

/-- Load some processes, then run the first one. -/
def bootRun (tasks : ℕ → Task) (cpu : Registers) (created : List NewTask) : Option CpuRun := do
  let r ← created.foldlM CpuRun.taskNew
    ⟨cpu, emptyTaskRun tasks, 0, fun _ => none, fun _ => {}, none⟩
  r.taskRunFirstEverTask

/-- The user's code changes the registers; the clock ticks; a device interrupts the user's code;
a system call returns, having perhaps loaded a process; a system call loads a process and
switches to it. -/
inductive CpuOp
  | user (cpu : Registers)
  | idtClock
  | interrupt
  | isr80h (created : Option NewTask) (result : ℕ)
  | isr80hStart (new : NewTask)

def cpuStep (r : CpuRun) : CpuOp → Option CpuRun
  | .user cpu => some { r with cpu, entered := none }
  | .idtClock => do
    let (_, r) ← r.enterKernel
    let nextTask := taskGetNext r.tasks.list
    if nextTask = 0 then none else r.switchTo nextTask
  | .interrupt => do
    let (stack, r) ← r.enterKernel
    let cpu ← interruptReturn stack
    return { r with cpu }
  | .isr80h created result => do
    let (stack, r) ← r.enterKernel
    let r ← match created with
      | none => some r
      | some new => r.taskNew new
    let cpu ← isr80hReturn result stack
    return { r with cpu }
  | .isr80hStart new => do
    let (_, r) ← r.enterKernel
    let r ← r.taskNew new
    r.switchTo new.task

end MarrowOS
