import MarrowOS.Console.Terminal
import MarrowOS.Lib.MemStrings
import MarrowOS.Task.StringCopy

/-!
# System calls that write text (`isr80h/io.c`, `task.c`)

A program passes the arguments of a system call on its stack. `task_get_stack_item` reads them
there, through the page directory of the task, at the stack pointer that `task_current_save_state`
saved.
-/

namespace MarrowOS

open ByteMem CInt

/-- The word at `virt`, byte by byte. -/
def loadWord (load : ℕ → Option UInt8) (virt : ℕ) : Option ℕ := do
  let b₀ ← load virt
  let b₁ ← load (u32 (virt + 1))
  let b₂ ← load (u32 (virt + 2))
  let b₃ ← load (u32 (virt + 3))
  return b₀.toNat + b₁.toNat * 2 ^ 8 + b₂.toNat * 2 ^ 16 + b₃.toNat * 2 ^ 24

/-- The directory of the task is active for this one access. -/
def taskGetStackItem (task : ℕ) (index : ℤ) (k : Kernel) : Option ℕ :=
  let spPtr := (k.tasks.tasks task).registers.esp
  let directory := (k.tasks.tasks task).pageDirectory.directoryEntry
  loadWord ((ActivePage.task directory).load k.machine.mem) (u32 (spPtr + 4 * index))

/-- What the system calls work on: the kernel and the screen. -/
structure Services where
  kernel : Kernel
  terminal : Terminal

/-- The task that makes the system call. -/
def Services.task (s : Services) : ℕ := s.kernel.tasks.currentTask

/-- `buf` is the address of the buffer, on the stack of the kernel. It is cleared first, so there is
a NUL in it whatever `copy_string_from_task` does. -/
def isr80hCommand1Print (buf : ℕ) (s : Services) : Option (ℕ × Services) := do
  let userSpaceMsgBuffer ← taskGetStackItem s.task 0 s.kernel
  let k := s.kernel.withMem (fill s.kernel.machine.mem buf 1024 0)
  let (_, k) ← copyStringFromTask s.task userSpaceMsgBuffer buf 1024 k
  let str := readString k.machine.mem 1024 buf
  return (0, { kernel := k, terminal := print (str.map (·.toBitVec)) s.terminal })

/-- The character is the low byte of the item. -/
def isr80hCommand3Putchar (s : Services) : Option (ℕ × Services) := do
  let item ← taskGetStackItem s.task 0 s.kernel
  let c := BitVec.ofNat 8 item
  return (0, { s with terminal := terminalWritechar c 15 s.terminal })

end MarrowOS
