import MarrowOS.Loader.ElfLoader

/-!
# Loading and ending processes (`process.c`, `task.c`)

`process_load_for_slot` builds a process from a file: the process structure, the loaded file, a
stack, a task with an address space, and the mappings of file and stack. On failure it takes the
half-built process apart with `process_free_process`, as `process_terminate` does with a whole one.

Two files take part in a load, since a file that is no ELF file is opened a second time and read as
a flat binary.
-/

namespace MarrowOS

open ByteMem CInt FirstSlot

/-- The answers of the file layer when a file is loaded. -/
structure LoadAnswers where
  elf : FileAnswers
  binary : FileAnswers

/-! ## Reading the file -/

/-- `process_load_binary` at its label `out`, with `program_data_ptr`. -/
def processLoadBinaryOut (file : FileAnswers) (res : ℤ) (programDataPtr : ℕ) (process : Process)
    (k : Kernel) : ℤ × Process × Kernel :=
  let k := if res < 0 ∧ programDataPtr ≠ 0 then
      k.withMachine (kfree kernelAllocator programDataPtr k.machine)
    else k
  (res, process, fileHeapOps file.fcloseOps k)

def processLoadBinary (file : FileAnswers) (process : Process) (k : Kernel) :
    Except Fault (ℤ × Process × Kernel) := do
  let k := fileHeapOps file.fopenOps k
  if file.fd = 0 then return processLoadBinaryOut file (-eio) 0 process k
  match file.fstat with
  | .eio => return processLoadBinaryOut file (-eio) 0 process k
  | .einvarg => return processLoadBinaryOut file (-einvarg) 0 process k
  | .ok filesize => do
    let (programDataPtr, m) ← kzalloc kernelAllocator filesize.toNat k.machine
    let k := k.withMachine m
    if programDataPtr = 0 then return processLoadBinaryOut file (-enomem) 0 process k
    let (read, mem) := file.freadInto programDataPtr k.machine.mem
    let k := k.withMem mem
    if read ≠ 1 then return processLoadBinaryOut file (-eio) programDataPtr process k
    let process :=
      { process with filetype := .binary, ptr := programDataPtr, size := filesize.toNat }
    return processLoadBinaryOut file 0 programDataPtr process k

def processLoadElf (file : FileAnswers) (process : Process) (k : Kernel) :
    Except Fault (ℤ × Process × Kernel) := do
  let (res, elfFile, k) ← elfLoad file k
  if res < 0 then return (res, process, k)
  return (res, { process with filetype := .elf, elfFile }, k)

def processLoadData (file : LoadAnswers) (process : Process) (k : Kernel) :
    Except Fault (ℤ × Process × Kernel) := do
  let (res, process, k) ← processLoadElf file.elf process k
  if res = -einformat then processLoadBinary file.binary process k
  else return (res, process, k)

/-! ## The task -/

/-- `elf_header(process->elf_file)->e_entry`. -/
def processElfEntry (file : FileAnswers) (process : Process) (mem : Mem) : Option ℕ :=
  match process.filetype, process.elfFile with
  | .elf, some elfFile => some (elfHeader (file.view elfFile.elfMemory 1 mem) elfFile).eEntry
  | _, _ => none

/-- Returns the task. When the structure is not allocated, `task_free` dereferences it. -/
def taskNew (file : FileAnswers) (process : Process) (k : Kernel) : Except Fault (ℕ × Kernel) := do
  let (task, m) ← kzalloc kernelAllocator sizeofTask k.machine
  if task = 0 then throw .nullPointer
  let (pageDirectory, m) ← pagingNew4gb kernelAllocator (pagingIsPresent ||| pagingAccessFromAll) m
  let registers := taskInitRegisters (processElfEntry file process m.mem)
  let tasks := taskNewLink task pageDirectory registers process.addr k.tasks
  return (task, { k.withMachine m with tasks })

/-! ## Mapping -/

def processMapBinary (process : Process) (k : Kernel) : ℤ × Kernel :=
  let mapped := pagingMapTo (k.pageDirectory process) marrowosProgramVirtualAddress process.ptr
    (pagingAlignAddress (u32 (process.ptr + process.size)))
    (pagingIsPresent ||| pagingAccessFromAll ||| pagingIsWritable) k.machine.mem
  (mapped.1, k.withMem mapped.2)

/-- The mapping of one program header. -/
def processMapPhdr (directory : Paging4gbChunk) (elfFile : ElfFile) (phdr : Elf32Phdr)
    (mem : Mem) : ℤ × Mem :=
  let phdrPhysAddress := elfPhdrPhysAddress elfFile phdr
  let flags := pagingIsPresent ||| pagingAccessFromAll
  let flags := if phdr.pFlags &&& pfW ≠ 0 then flags ||| pagingIsWritable else flags
  pagingMapTo directory (pagingAlignToLowerPage phdr.pVaddr)
    (pagingAlignToLowerPage phdrPhysAddress)
    (pagingAlignAddress (u32 (phdrPhysAddress + phdr.pMemsz))) flags mem

/-- The loop of `process_map_elf` with at most `n` headers to go, at header `i`; the number of
headers is read again before each. -/
def processMapElfLoop (file : FileAnswers) (directory : Paging4gbChunk) (elfFile : ElfFile)
    (phdrs : ℕ) : (n i : ℕ) → (res : ℤ) → Mem → ℤ × Mem
  | 0, _, res, mem => (res, mem)
  | n + 1, i, res, mem =>
    let view := file.view elfFile.elfMemory (i + 2) mem
    if i < (elfHeader view elfFile).ePhnum then
      let mapped := processMapPhdr directory elfFile (elfProgramHeader view phdrs i) mem
      if mapped.1 < 0 then mapped
      else processMapElfLoop file directory elfFile phdrs n (i + 1) mapped.1 mapped.2
    else (res, mem)

/-- The number of headers is a half word. -/
def processMapElf (file : FileAnswers) (process : Process) (elfFile : ElfFile) (k : Kernel) :
    ℤ × Kernel :=
  let view := file.view elfFile.elfMemory 2 k.machine.mem
  let phdrs := elfPheader (elfHeader view elfFile) elfFile
  let mapped :=
    processMapElfLoop file (k.pageDirectory process) elfFile phdrs (2 ^ 16) 0 0 k.machine.mem
  (mapped.1, k.withMem mapped.2)

/-- The `switch` of `process_map_memory`. -/
def processMapProgram (file : FileAnswers) (process : Process) (k : Kernel) :
    Except Fault (ℤ × Kernel) :=
  match process.filetype, process.elfFile with
  | .elf, some elfFile => .ok (processMapElf file process elfFile k)
  | .elf, none => .error .nullPointer
  | .binary, _ => .ok (processMapBinary process k)

def processMapMemory (file : LoadAnswers) (process : Process) (k : Kernel) :
    Except Fault (ℤ × Kernel) := do
  let (res, k) ← processMapProgram file.elf process k
  if res < 0 then return (res, k)
  -- the stack; the result is not looked at
  let mapped := pagingMapTo (k.pageDirectory process) marrowosProgramVirtualStackAddressEnd
    process.stack (pagingAlignAddress (u32 (process.stack + marrowosUserProgramStackSize)))
    (pagingIsPresent ||| pagingAccessFromAll ||| pagingIsWritable) k.machine.mem
  return (res, k.withMem mapped.2)

/-! ## Freeing -/

/-- One slot of the loop of `process_terminate_allocations`. -/
def processTerminateAllocation (s : Process × Kernel) (i : ℕ) : Process × Kernel :=
  let ptr := (s.1.allocations.getD i ⟨0, 0⟩).ptr
  if ptr ≠ 0 then processFree s.1 ptr s.2 else s

def processTerminateAllocations (process : Process) (k : Kernel) : Process × Kernel :=
  (List.range marrowosMaxProgramAllocation).foldl processTerminateAllocation (process, k)

/-- The status is not looked at. -/
def processFreeProgramData (process : Process) (m : Machine KernelHeap) : Machine KernelHeap :=
  match process.filetype with
  | .binary => if process.ptr ≠ 0 then kfree kernelAllocator process.ptr m else m
  | .elf =>
    match process.elfFile with
    | some elfFile => elfClose elfFile m
    | none => m

def taskFree (task : ℕ) (k : Kernel) : Kernel :=
  let k := k.withMachine
    (pagingFree4gb kernelAllocator (k.tasks.tasks task).pageDirectory k.machine)
  let k := { k with tasks := taskListRemove task k.tasks }
  k.withMachine (kfree kernelAllocator task k.machine)

/-- `process_free_process`, which always succeeds. -/
def processFreeProcess (process : Process) (k : Kernel) : Kernel :=
  let freed := processTerminateAllocations process k
  let process := freed.1
  let k := freed.2
  let k := k.withMachine (processFreeProgramData process k.machine)
  let k := if process.stack ≠ 0 then k.withMachine (kfree kernelAllocator process.stack k.machine)
    else k
  let k := if process.task ≠ 0 then taskFree process.task k else k
  k.withMachine (kfree kernelAllocator process.addr k.machine)

/-! ## Loading -/

/-- `process_load_for_slot` at its label `out`, when the process structure was allocated and
`res` is negative. -/
def processLoadFailed (res : ℤ) (process : Process) (k : Kernel) : ℤ × Option Process × Kernel :=
  (res, none, processFreeProcess process k)

/-- Returns the status and the new process. -/
def processLoadForSlot (file : LoadAnswers) (processSlot : ℕ) (k : Kernel) :
    Except Fault (ℤ × Option Process × Kernel) := do
  if (processGet k processSlot).isSome then return (-eistkn, none, k)
  let (addr, m) ← kzalloc kernelAllocator sizeofProcess k.machine
  let k := k.withMachine m
  if addr = 0 then return (-enomem, none, k)
  let process := processInit addr
  let (res, process, k) ← processLoadData file process k
  if res < 0 then return processLoadFailed res process k
  let (stack, m) ← kzalloc kernelAllocator marrowosUserProgramStackSize k.machine
  let k := k.withMachine m
  let process := { process with stack }
  if stack = 0 then return processLoadFailed (-enomem) process k
  let process := { process with id := processSlot }
  let (task, k) ← taskNew file.elf process k
  if i32 task < 0 then return processLoadFailed (i32 task) process k
  let process := { process with task }
  let (res, k) ← processMapMemory file process k
  if res < 0 then return processLoadFailed res process k
  return (res, some process, k.setProcess processSlot process)

/-- `process_get_free_slot`. -/
def processGetFreeSlot (k : Kernel) : ℤ :=
  match firstSlot (fun p : Option Process => p.isNone) k.processes with
  | none => -eistkn
  | some (i, _) => i

def processLoad (file : LoadAnswers) (k : Kernel) : Except Fault (ℤ × Option Process × Kernel) :=
  let processSlot := processGetFreeSlot k
  if processSlot < 0 then .ok (-eistkn, none, k)
  else processLoadForSlot file processSlot.toNat k

/-- The kernel and its variable `current_process`. -/
structure System where
  kernel : Kernel
  currentProcess : ℕ

/-- `process_switch`. -/
def processSwitch (process : Process) (s : System) : System :=
  { s with currentProcess := process.addr }

def processLoadSwitch (file : LoadAnswers) (s : System) : Except Fault (ℤ × System) := do
  let (res, process, kernel) ← processLoad file s.kernel
  let s := { s with kernel }
  match process with
  | some process => if res = 0 then return (res, processSwitch process s) else return (res, s)
  | none => if res = 0 then throw .nullPointer else return (res, s)

/-! ## Ending a process -/

/-- The first process of the table. -/
def processSwitchToAny (s : System) : Except Fault System :=
  match firstSlot Option.isSome s.kernel.processes with
  | some (_, some process) => .ok (processSwitch process s)
  | _ => .error .panic

def processUnlink (process : Process) (s : System) : Except Fault System :=
  let kernel := { s.kernel with processes := s.kernel.processes.set process.id none }
  let s := { s with kernel }
  if s.currentProcess = process.addr then processSwitchToAny s else .ok s

def processTerminate (process : Process) (s : System) : Except Fault System := do
  let s ← processUnlink process s
  return { s with kernel := processFreeProcess process s.kernel }

end MarrowOS
