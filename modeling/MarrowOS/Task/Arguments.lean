import MarrowOS.Isr80h.Process
import MarrowOS.Task.StringCopy

/-!
# Handing arguments to a process (`process.c`)

The arguments of a program are a list of `struct command_argument` in the memory of the process that
starts it. `process_inject_arguments` walks the list twice: to count the nodes, and to copy their
texts into allocations of the new process.

Nothing bounds the list, so both loops take the number of their steps: a loop that is still running
when it has none left answers `none`.
-/

namespace MarrowOS

open ByteMem CInt

/-- `sizeof(current->argument)`. -/
@[simp] abbrev sizeofArgument : ℕ := 512

@[simp] abbrev sizeofCommandArgument : ℕ := 516

/-- `current->next`. -/
def commandArgumentNext (mem : Mem) (current : ℕ) : ℕ := readU32 mem (current + sizeofArgument)

/-- The loop of `process_count_command_arguments`. -/
def processCountCommandArgumentsLoop (mem : Mem) : (n current : ℕ) → (i : ℤ) → Option ℤ
  | 0, _, _ => none
  | n + 1, current, i =>
    if current = 0 then some i
    else processCountCommandArgumentsLoop mem n (commandArgumentNext mem current) (i32 (i + 1))

def processCountCommandArguments (n rootArgument : ℕ) (mem : Mem) : Option ℤ :=
  processCountCommandArgumentsLoop mem n rootArgument 0

/-- The second loop of `process_inject_arguments`, at argument `i`. -/
def processInjectArgumentsLoop (argv : ℕ) : (n current i : ℕ) → Process → Kernel →
    Option (Except Fault (ℤ × Process × Kernel))
  | 0, _, _, _, _ => none
  | n + 1, current, i, process, k =>
    if current = 0 then some (.ok (0, process, k))
    else
      match processMalloc process sizeofArgument k with
      | .error fault => some (.error fault)
      | .ok (argumentStr, process, k) =>
        if argumentStr = 0 then some (.ok (-enomem, process, k))
        else
          match strncpy .kernel argumentStr current sizeofArgument k.machine.mem with
          | none => some (.error .outOfBounds)
          | some mem =>
            let mem := writeU32 mem (u32 (argv + 4 * i)) argumentStr
            processInjectArgumentsLoop argv n (commandArgumentNext mem current) (i + 1) process
              (k.withMem mem)

/-- Returns the status, `process->arguments` and the process. -/
def processInjectArguments (n : ℕ) (process : Process) (arguments : ProcessArguments)
    (rootArgument : ℕ) (k : Kernel) :
    Option (Except Fault (ℤ × ProcessArguments × Process × Kernel)) :=
  match processCountCommandArguments n rootArgument k.machine.mem with
  | none => none
  | some argc =>
    if argc = 0 then some (.ok (-eio, arguments, process, k))
    else
      match processMalloc process (u32 (4 * argc)) k with
      | .error fault => some (.error fault)
      | .ok (argv, process, k) =>
        if argv = 0 then some (.ok (-enomem, arguments, process, k))
        else
          match processInjectArgumentsLoop argv n rootArgument 0 process k with
          | none => none
          | some (.error fault) => some (.error fault)
          | some (.ok (res, process, k)) =>
            if res < 0 then some (.ok (res, arguments, process, k))
            else some (.ok (res, ⟨u32 argc, argv⟩, process, k))

end MarrowOS
