import MarrowOS.Lib.FirstSlot
import MarrowOS.Memory.KernelHeap
import MarrowOS.Task.TaskList

/-!
# Processes and their memory (`process.c`)

A process keeps the pointers it was given by `process_malloc` in a table of 1024 allocations.
`process_malloc` takes blocks from the kernel heap and maps them, at their own address, into
the address space of the process; `process_free` undoes both.

`Kernel` is the state these functions work on: the kernel heap and memory, the task list, the
blocks that other parts of the kernel hold, and the table of processes.
-/

namespace MarrowOS

open ByteMem CInt FirstSlot

/-! ## Types -/

/-- `struct process_allocation`. -/
structure ProcessAllocation where
  ptr : ℕ
  size : ℕ
deriving DecidableEq, Repr

/-- `PROCESS_FILE_TYPE`. -/
inductive ProcessFileType
  | elf
  | binary
deriving DecidableEq, Repr

/-- `struct elf_file`, at address `addr`. -/
structure ElfFile where
  addr : ℕ
  elfMemory : ℕ
  virtualBaseAddress : ℕ
  virtualEndAddress : ℕ
  physicalBaseAddress : ℕ
  physicalEndAddress : ℕ
deriving DecidableEq, Repr

/-- `struct process`, at address `addr`; `task` is the address of its task, and of the union
`ptr` and `elfFile` the one that `filetype` names is in use. -/
structure Process where
  addr : ℕ
  id : ℕ
  task : ℕ
  allocations : List ProcessAllocation
  filetype : ProcessFileType
  ptr : ℕ
  elfFile : Option ElfFile
  stack : ℕ
  size : ℕ
deriving DecidableEq, Repr

@[simp] abbrev sizeofProcess : ℕ := 9364
@[simp] abbrev sizeofElfFile : ℕ := 132
@[simp] abbrev sizeofTask : ℕ := 64

/-- The state of the kernel. The pointers that its file layer holds are in `fileBlocks`. -/
structure Kernel where
  machine : Machine KernelHeap
  tasks : TaskList
  fileBlocks : List Alloc
  processes : List (Option Process)

/-- `process->task->page_directory`. -/
def Kernel.pageDirectory (k : Kernel) (process : Process) : Paging4gbChunk :=
  (k.tasks.tasks process.task).pageDirectory

/-- The same kernel with another heap and memory. -/
def Kernel.withMachine (k : Kernel) (machine : Machine KernelHeap) : Kernel := { k with machine }

/-- The same kernel with another memory. -/
def Kernel.withMem (k : Kernel) (mem : Mem) : Kernel :=
  k.withMachine { k.machine with mem }

@[simp] lemma Kernel.withMachine_machine (k : Kernel) (m : Machine KernelHeap) :
    (k.withMachine m).machine = m := rfl
@[simp] lemma Kernel.withMachine_tasks (k : Kernel) (m : Machine KernelHeap) :
    (k.withMachine m).tasks = k.tasks := rfl
@[simp] lemma Kernel.withMachine_fileBlocks (k : Kernel) (m : Machine KernelHeap) :
    (k.withMachine m).fileBlocks = k.fileBlocks := rfl
@[simp] lemma Kernel.withMachine_processes (k : Kernel) (m : Machine KernelHeap) :
    (k.withMachine m).processes = k.processes := rfl
@[simp] lemma Kernel.withMachine_pageDirectory (k : Kernel) (m : Machine KernelHeap)
    (process : Process) : (k.withMachine m).pageDirectory process = k.pageDirectory process := rfl

/-- `process_get`. -/
def processGet (k : Kernel) (processId : ℤ) : Option Process :=
  if processId < 0 ∨ processId ≥ marrowosMaxProcesses then none
  else (k.processes[processId.toNat]?).join

/-- `processes[slot] = process`. -/
def Kernel.setProcess (k : Kernel) (slot : ℕ) (process : Process) : Kernel :=
  { k with processes := k.processes.set slot (some process) }

/-- `process_init`, in the structure at `addr`. -/
def processInit (addr : ℕ) : Process where
  addr
  id := 0
  task := 0
  allocations := List.replicate marrowosMaxProgramAllocation ⟨0, 0⟩
  filetype := .elf
  ptr := 0
  elfFile := none
  stack := 0
  size := 0

/-! ## Allocations -/

def processFindFreeAllocationIndex (process : Process) : ℤ :=
  match firstSlot (fun a : ProcessAllocation => a.ptr == 0) process.allocations with
  | none => -enomem
  | some (i, _) => i

/-- Returns the pointer, null on failure. -/
def processMalloc (process : Process) (size : ℕ) (k : Kernel) :
    Except Fault (ℕ × Process × Kernel) := do
  let (ptr, m) ← kzalloc kernelAllocator size k.machine
  if ptr = 0 then return (0, process, k.withMachine m)
  else
    let index := processFindFreeAllocationIndex process
    if index < 0 then return (0, process, k.withMachine (kfree kernelAllocator ptr m))
    else
      let (res, mem) := pagingMapTo (k.pageDirectory process) ptr ptr
        (pagingAlignAddress (u32 (ptr + size)))
        (pagingIsWritable ||| pagingIsPresent ||| pagingAccessFromAll) m.mem
      let m := { m with mem }
      if res < 0 then return (0, process, k.withMachine (kfree kernelAllocator ptr m))
      else
        let allocations := process.allocations.set index.toNat ⟨ptr, size⟩
        return (ptr, { process with allocations }, k.withMachine m)

def processAllocationUnjoin (process : Process) (ptr : ℕ) : Process :=
  { process with
    allocations := process.allocations.map fun a => if a.ptr = ptr then ⟨0, 0⟩ else a }

def processGetAllocationByAddr (process : Process) (addr : ℕ) : Option ProcessAllocation :=
  process.allocations.find? fun a => a.ptr == addr

def processFree (process : Process) (ptr : ℕ) (k : Kernel) : Process × Kernel :=
  match processGetAllocationByAddr process ptr with
  | none => (process, k)
  | some allocation =>
    let (res, mem) := pagingMapTo (k.pageDirectory process) allocation.ptr allocation.ptr
      (pagingAlignAddress (u32 (allocation.ptr + allocation.size))) 0x00 k.machine.mem
    let m := { k.machine with mem }
    if res < 0 then (process, k.withMachine m)
    else (processAllocationUnjoin process ptr, k.withMachine (kfree kernelAllocator ptr m))

end MarrowOS
