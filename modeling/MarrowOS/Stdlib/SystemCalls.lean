import MarrowOS.Isr80h.Io
import MarrowOS.Task.Traps

/-!
# System calls of a program (`marrowos.asm`)

Each function of `marrowos.asm` passes its argument on to the kernel: it pushes the argument that
its caller pushed, puts the number of the system call in `eax` and executes `int 0x80`. Here are
these functions as programs for the few instructions that they use, with a stack that is in the
memory of the task, behind its page directory.
-/

namespace MarrowOS

open ByteMem CInt

/-! ## A program and the kernel -/

/-- The registers of the program that runs, and the kernel. -/
structure UserProgram where
  cpu : Registers
  services : Services

/-- The directory of the current task, which is active while it runs. -/
def Services.directory (s : Services) : ℕ :=
  (s.kernel.tasks.tasks s.task).pageDirectory.directoryEntry

def Services.mem (s : Services) : Mem := s.kernel.machine.mem

/-- The same kernel with another memory. -/
def Services.withMem (s : Services) (mem : Mem) : Services :=
  { s with kernel := s.kernel.withMem mem }

@[simp] lemma Services.withMem_mem (s : Services) (mem : Mem) : (s.withMem mem).mem = mem := rfl
@[simp] lemma Services.withMem_directory (s : Services) (mem : Mem) :
    (s.withMem mem).directory = s.directory := rfl
@[simp] lemma Services.withMem_withMem (s : Services) (mem mem' : Mem) :
    (s.withMem mem).withMem mem' = s.withMem mem' := rfl

/-- The program may look at a byte that is present and that everyone may access. -/
def Services.userLoad (s : Services) (virt : ℕ) : Option UInt8 :=
  let entry := pageEntry s.mem s.directory virt
  if entry &&& pagingIsPresent ≠ 0 ∧ entry &&& pagingAccessFromAll ≠ 0 then
    some (s.mem (translate s.mem s.directory virt))
  else none

def Services.userStore (s : Services) (virt : ℕ) (c : UInt8) : Option Services :=
  if UserWritable (pageEntry s.mem s.directory virt) then
    some (s.withMem (Function.update s.mem (translate s.mem s.directory virt) c))
  else none

/-- The word is stored byte by byte. -/
def Services.userStoreWord (s : Services) (virt word : ℕ) : Option Services :=
  (List.range 4).foldlM (fun s (i : ℕ) => s.userStore (u32 (virt + i)) (byteOf word i)) s

/-! ## Instructions -/

/-- The registers that are named. -/
inductive Reg
  | eax
  | ebp
  | esp
deriving DecidableEq, Repr

def Registers.get (regs : Registers) : Reg → ℕ
  | .eax => regs.eax
  | .ebp => regs.ebp
  | .esp => regs.esp

def Registers.set (regs : Registers) (value : ℕ) : Reg → Registers
  | .eax => { regs with eax := value }
  | .ebp => { regs with ebp := value }
  | .esp => { regs with esp := value }

inductive Instruction
  | push (src : Reg)
  /-- `push dword[base+offset]` -/
  | pushDword (base : Reg) (offset : ℕ)
  | mov (dest src : Reg)
  /-- `mov dest,value` -/
  | movValue (dest : Reg) (value : ℕ)
  | add (dest : Reg) (value : ℕ)
  | int (interrupt : ℕ)
  | pop (dest : Reg)
  | ret
deriving DecidableEq, Repr

namespace UserProgram

def push (word : ℕ) (r : UserProgram) : Option UserProgram := do
  let esp := u32 (r.cpu.esp - 4)
  let services ← r.services.userStoreWord esp word
  return { cpu := { r.cpu with esp }, services }

def pop (r : UserProgram) : Option (ℕ × UserProgram) := do
  let word ← loadWord r.services.userLoad r.cpu.esp
  return (word, { r with cpu := { r.cpu with esp := u32 (r.cpu.esp + 4) } })

section
variable (commands : Isr80hCommand → Services → Option (ℕ × Services))
  (addFlags : ℕ → ℕ → ℕ)

/-- `isr80h_wrapper` and `isr80h_handler`, for a system call that returns to its caller: the
registers are saved in the task, the function is called, and its result comes back in `eax`. -/
def isr80h (r : UserProgram) : Option UserProgram := do
  let stack := trapEntry none r.cpu
  let frame ← interruptFrameAt stack
  let task := r.services.task
  if task = 0 then none
  else
    let kernel := { r.services.kernel with
      tasks := taskSaveState task frame r.services.kernel.tasks }
    let services := { r.services with kernel }
    let (result, services) ← match isr80hCommandFunc bootCommands (i32 r.cpu.eax) with
      | none => some (0, services)
      | some commandFunc => commands commandFunc services
    let cpu ← isr80hReturn result stack
    return { cpu, services }

/-- One instruction. Where the next one is does not matter before `ret`; `addFlags` are the flags of
an addition. -/
def exec (r : UserProgram) : Instruction → Option UserProgram
  | .push src => r.push (r.cpu.get src)
  | .pushDword base offset => do
    let word ← loadWord r.services.userLoad (u32 (r.cpu.get base + offset))
    r.push word
  | .mov dest src => some { r with cpu := r.cpu.set (r.cpu.get src) dest }
  | .movValue dest value => some { r with cpu := r.cpu.set value dest }
  | .add dest value =>
    let flags := addFlags (r.cpu.get dest) value
    some { r with cpu := { r.cpu.set (u32 (r.cpu.get dest + value)) dest with flags } }
  | .int interrupt => if interrupt = 0x80 then r.isr80h commands else none
  | .pop dest => do
    let (word, r) ← r.pop
    return { r with cpu := r.cpu.set word dest }
  | .ret => do
    let (ip, r) ← r.pop
    return { r with cpu := { r.cpu with ip } }

/-- The instructions of a function, up to its `ret`. -/
def execAll (code : List Instruction) (r : UserProgram) : Option UserProgram :=
  code.foldlM (fun r i => r.exec commands addFlags i) r

end

end UserProgram

/-! ## The functions -/

namespace Asm

/-- A function with one argument. -/
def argumentFunction (command : ℕ) : List Instruction :=
  [.push .ebp, .mov .ebp .esp, .movValue .eax command, .pushDword .ebp 8, .int 0x80, .add .esp 4,
    .pop .ebp, .ret]

/-- A function without arguments. -/
def plainFunction (command : ℕ) : List Instruction :=
  [.push .ebp, .mov .ebp .esp, .movValue .eax command, .int 0x80, .pop .ebp, .ret]

/-- It pushes its argument first. -/
def print : List Instruction :=
  [.push .ebp, .mov .ebp .esp, .pushDword .ebp 8, .movValue .eax 1, .int 0x80, .add .esp 4,
    .pop .ebp, .ret]

def marrowosGetkey : List Instruction := plainFunction 2
def marrowosPutchar : List Instruction := argumentFunction 3
def marrowosMalloc : List Instruction := argumentFunction 4
def marrowosFree : List Instruction := argumentFunction 5
def marrowosProcessLoadStart : List Instruction := argumentFunction 6
def marrowosSystem : List Instruction := argumentFunction 7
def marrowosProcessGetArguments : List Instruction := argumentFunction 8
def marrowosExit : List Instruction := plainFunction 9

/-- The functions, with what they ask for and the number of their arguments. -/
def functions : List (List Instruction × Isr80hCommand × ℕ) :=
  [(print, .isr80hCommand1Print, 1),
    (marrowosGetkey, .isr80hCommand2Getkey, 0),
    (marrowosPutchar, .isr80hCommand3Putchar, 1),
    (marrowosMalloc, .isr80hCommand4Malloc, 1),
    (marrowosFree, .isr80hCommand5Free, 1),
    (marrowosProcessLoadStart, .isr80hCommand6ProcessLoadStart, 1),
    (marrowosSystem, .isr80hCommand7InvokeSystemCommand, 1),
    (marrowosProcessGetArguments, .isr80hCommand8GetProgramArguments, 1),
    (marrowosExit, .isr80hCommand9Exit, 0)]

end Asm

end MarrowOS
