import MarrowOS.Config
import MarrowOS.Lib.ByteMem

/-!
# The interrupt descriptor table (`idt.c`, `idt.h`)

`idt_init` gives every vector a gate that leads to the vector's entry point in `idt.asm`. The two
tables behind the entry points, of callbacks for the vectors and of commands for the system call,
are filled while the kernel starts. `vectorGate` looks a vector up as the processor does.
-/

namespace MarrowOS

open ByteMem CInt

/-! ## Gates -/

/-- `sizeof(struct idt_desc)`, which is packed. -/
@[simp] abbrev sizeofIdtDesc : ℕ := 8

/-- `struct idtr_desc`. -/
structure IdtrDesc where
  limit : ℕ
  base : ℕ
deriving DecidableEq, Repr

/-- The entry points of `idt.asm`, where the linker put them. -/
structure EntryPoints where
  interruptPointerTable : ℕ → UInt32
  idtZero : UInt32
  isr80hWrapper : UInt32

def idtSet (idtrDescriptors : Addr) (interruptNo : ℕ) (address : UInt32) (mem : Mem) : Mem :=
  let desc := idtrDescriptors + sizeofIdtDesc * interruptNo
  -- `offset_1`, `selector`, `zero`, `type_attr`, `offset_2`
  let mem := writeU16 mem desc (address &&& 0x0000ffff).toNat
  let mem := writeU16 mem (desc + 2) kernelCodeSelector
  let mem := Function.update mem (desc + 4) 0x00
  let mem := Function.update mem (desc + 5) 0xEE
  writeU16 mem (desc + 6) (address >>> 16).toNat

/-- The gates that `idt_init` sets, and the descriptor that it hands to the processor. -/
def idtInitGates (entries : EntryPoints) (idtrDescriptors : UInt32) (mem : Mem) : IdtrDesc × Mem :=
  let table := idtrDescriptors.toNat
  let mem := fill mem table (sizeofIdtDesc * marrowosTotalInterrupts) 0
  let idtr := ⟨sizeofIdtDesc * marrowosTotalInterrupts - 1, table⟩
  let mem := (List.range marrowosTotalInterrupts).foldl
    (fun mem i => idtSet table i (entries.interruptPointerTable i) mem) mem
  let mem := idtSet table 0 entries.idtZero mem
  let mem := idtSet table 0x80 entries.isr80hWrapper mem
  (idtr, mem)

/-- What a gate says. -/
structure Gate where
  offset : ℕ
  selector : ℕ
  present : Bool
  /-- the least privilege that may ask for the vector -/
  dpl : ℕ
  /-- `0xE` is a 32-bit interrupt gate: interrupts are off behind it -/
  type : ℕ
deriving DecidableEq, Repr

/-- The gate at `a` as the processor reads it. -/
def gateAt (mem : Mem) (a : Addr) : Gate where
  offset := readU16 mem a + readU16 mem (a + 6) * 2 ^ 16
  selector := readU16 mem (a + 2)
  present := (mem (a + 5)).toNat / 2 ^ 7 = 1
  dpl := (mem (a + 5)).toNat / 2 ^ 5 % 4
  type := (mem (a + 5)).toNat % 2 ^ 5

/-- The gate of a vector, when it lies within the limit. -/
def vectorGate (idtr : IdtrDesc) (mem : Mem) (vector : ℕ) : Option Gate :=
  if sizeofIdtDesc * vector + 7 ≤ idtr.limit then
    some (gateAt mem (idtr.base + sizeofIdtDesc * vector))
  else none

/-! ## Callbacks -/

section
variable {γ : Type}

/-- A table of function pointers, `none` for the null pointer. -/
abbrev Callbacks (γ : Type) := ℕ → Option γ

def idtRegisterInterruptCallback (interrupt : ℤ) (interruptCallback : Option γ)
    (interruptCallbacks : Callbacks γ) : ℤ × Callbacks γ :=
  if interrupt < 0 ∨ interrupt ≥ marrowosTotalInterrupts then (-einvarg, interruptCallbacks)
  else (marrowosAllOk, Function.update interruptCallbacks interrupt.toNat interruptCallback)

/-- The callbacks that `idt_init` registers. -/
def idtInitCallbacks (idtHandleException idtClock : γ) (interruptCallbacks : Callbacks γ) :
    Callbacks γ :=
  let interruptCallbacks := (List.range 0x20).foldl
    (fun t (i : ℕ) => (idtRegisterInterruptCallback i (some idtHandleException) t).2)
    interruptCallbacks
  (idtRegisterInterruptCallback 0x20 (some idtClock) interruptCallbacks).2

/-! ## Commands -/

def isr80hRegisterCommand (commandId : ℤ) (command : Option γ) (isr80hCommands : Callbacks γ) :
    Except Fault (Callbacks γ) :=
  if commandId < 0 ∨ commandId ≥ marrowosMaxIsr80hCommands then .error .panic
  else if (isr80hCommands commandId.toNat).isSome then .error .panic
  else .ok (Function.update isr80hCommands commandId.toNat command)

/-- The function that `isr80h_handle_command` calls; without one the result is null. -/
def isr80hCommandFunc (isr80hCommands : Callbacks γ) (command : ℤ) : Option γ :=
  if command < 0 ∨ command ≥ marrowosMaxIsr80hCommands then none
  else isr80hCommands command.toNat

end

/-- The functions of the system calls. -/
inductive Isr80hCommand
  | isr80hCommand0Sum
  | isr80hCommand1Print
  | isr80hCommand2Getkey
  | isr80hCommand3Putchar
  | isr80hCommand4Malloc
  | isr80hCommand5Free
  | isr80hCommand6ProcessLoadStart
  | isr80hCommand7InvokeSystemCommand
  | isr80hCommand8GetProgramArguments
  | isr80hCommand9Exit
deriving DecidableEq, Repr

/-- The calls of `isr80h_register_commands`; the numbers are those of `enum Systemcommands`. -/
def isr80hRegistrations : List (ℤ × Isr80hCommand) :=
  [(0, .isr80hCommand0Sum),
    (1, .isr80hCommand1Print),
    (2, .isr80hCommand2Getkey),
    (3, .isr80hCommand3Putchar),
    (4, .isr80hCommand4Malloc),
    (5, .isr80hCommand5Free),
    (6, .isr80hCommand6ProcessLoadStart),
    (7, .isr80hCommand7InvokeSystemCommand),
    (8, .isr80hCommand8GetProgramArguments),
    (9, .isr80hCommand9Exit)]

/-- Calls of `isr80h_register_command`, one after the other. -/
def isr80hRegisterAll {γ : Type} (calls : List (ℤ × γ)) (isr80hCommands : Callbacks γ) :
    Except Fault (Callbacks γ) :=
  calls.foldlM (fun t call => isr80hRegisterCommand call.1 (some call.2) t) isr80hCommands

def isr80hRegisterCommands (isr80hCommands : Callbacks Isr80hCommand) :
    Except Fault (Callbacks Isr80hCommand) :=
  isr80hRegisterAll isr80hRegistrations isr80hCommands

end MarrowOS
