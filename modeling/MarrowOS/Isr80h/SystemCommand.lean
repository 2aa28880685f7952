import MarrowOS.Task.Arguments
import MarrowOS.Task.Loading

/-!
# The system command (`isr80h/process.c`)

`isr80h_command7_invoke_system_command` starts the program that the first argument names, and hands
it the list of all arguments. The program is loaded, linked and made current before the arguments
are copied.
-/

namespace MarrowOS

open ByteMem CInt

/-- `process_load_switch`, with the process that it leaves in `*process`. -/
def processLoadSwitchInto (file : LoadAnswers) (s : System) :
    Except Fault (ℤ × Option Process × System) := do
  let (res, process, kernel) ← processLoad file s.kernel
  let s := { s with kernel }
  match process with
  | some process =>
    if res = 0 then return (res, some process, processSwitch process s)
    else return (res, some process, s)
  | none => if res = 0 then throw .nullPointer else return (res, none, s)

/-- The user's pointer, the first item on the stack of the current task, translated. -/
def commandArguments (virtualAddress : ℕ) (s : System) : ℕ :=
  taskVirtualAddressToPhysical s.kernel.tasks s.kernel.tasks.currentTask virtualAddress
    s.kernel.machine.mem

/-- Returns the status; when it is negative the call returns to its caller, otherwise the new task
runs. `process->arguments` is null in a new process. -/
def isr80hCommand7InvokeSystemCommand (n : ℕ) (file : LoadAnswers) (virtualAddress : ℕ)
    (s : System) : Option (Except Fault (ℤ × System)) :=
  let arguments := commandArguments virtualAddress s
  -- `strlen` is zero when the first byte is the NUL
  if arguments = 0 ∨ s.kernel.machine.mem arguments = 0 then some (.ok (-einvarg, s))
  else
    match processLoadSwitchInto file s with
    | .error fault => some (.error fault)
    | .ok (res, process, s) =>
      if res < 0 then some (.ok (res, s))
      else
        match process with
        | none => some (.error .nullPointer)
        | some process =>
          match processInjectArguments n process ⟨0, 0⟩ arguments s.kernel with
          | none => none
          | some (.error fault) => some (.error fault)
          | some (.ok (res, _, process, kernel)) =>
            -- the table points to the process
            let kernel := kernel.setProcess process.id process
            if res < 0 then some (.ok (res, { s with kernel }))
            else
              let kernel := { kernel with tasks := taskSwitchCurrent process.task kernel.tasks }
              some (.ok (res, { s with kernel }))

end MarrowOS
