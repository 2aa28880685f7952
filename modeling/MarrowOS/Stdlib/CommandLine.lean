import MarrowOS.Stdlib.Strtok
import MarrowOS.Task.Arguments

/-!
# Splitting a command (`marrowos.c`)

`marrowos_parse_command` copies a command to its stack, splits it with `strtok` and makes a list of
`struct command_argument`, one for each word; `marrowos_system_run` hands the list to the system.
The buffers on the stack are at addresses that the callers name. A program sees its memory flat, as
the kernel does its own (`ActivePage.kernel`).
-/

namespace MarrowOS

open ByteMem CInt

/-- A program: its memory and the saved pointer of `strtok`, and the allocations it has. -/
structure Program (σ : Type) extends Strtok where
  heap : σ

variable {σ : Type} (A : Allocator σ)

/-- The system call answers with a block that is cleared, or with null. -/
def marrowosMalloc (size : ℕ) (s : Program σ) : ℕ × Program σ :=
  let (ptr, heap) := A.kmalloc size s.heap
  if ptr = 0 then (0, { s with heap })
  else (ptr, { s with heap, mem := fill s.mem ptr size 0 })

/-- `strncpy` in the memory of the program. -/
def Program.strncpy (dest src count : ℕ) (s : Program σ) : Except Fault (Program σ) :=
  match MarrowOS.strncpy .kernel dest src count s.mem with
  | none => .error .outOfBounds
  | some mem => .ok { s with mem }

/-- `strtok` with the delimiters `" "`. -/
def Program.strtok (str : ℕ) (s : Program σ) : Except Fault (ℕ × Program σ) := do
  let (token, t) ← MarrowOS.strtok [0x20] str s.toStrtok
  return (token, { s with toStrtok := t })

/-- `node->next = next` -/
def Program.setNext (node next : ℕ) (s : Program σ) : Program σ :=
  { s with mem := writeU32 s.mem (node + sizeofArgument) next }

/-- `sizeof(scommand)`. -/
@[simp] abbrev sizeofScommand : ℕ := 1025

/-- The `while` loop; `n` is at least the number of tokens. -/
def marrowosParseCommandLoop : (n current token : ℕ) → Program σ → Except Fault (Program σ)
  | 0, _, _, _ => .error .outOfBounds
  | n + 1, current, token, s =>
    if token = 0 then .ok s
    else
      match marrowosMalloc A sizeofCommandArgument s with
      | (newCommand, s) =>
        if newCommand = 0 then .ok s
        else do
          let s ← s.strncpy newCommand token sizeofArgument
          let s := (s.setNext newCommand 0).setNext current newCommand
          let (token, s) ← s.strtok 0
          marrowosParseCommandLoop n newCommand token s

/-- The part behind the first `strtok`. A token is at least one byte of the address space. -/
def marrowosParseCommandTokens (token : ℕ) (s : Program σ) : Except Fault (ℕ × Program σ) :=
  if token = 0 then .ok (0, s)
  else
    match marrowosMalloc A sizeofCommandArgument s with
    | (rootCommand, s) =>
      if rootCommand = 0 then .ok (0, s)
      else do
        let s ← s.strncpy rootCommand token sizeofArgument
        let (token, s) ← (s.setNext rootCommand 0).strtok 0
        let s ← marrowosParseCommandLoop A (2 ^ 32) rootCommand token s
        return (rootCommand, s)

def marrowosParseCommand (scommand command : ℕ) (max : ℤ) (s : Program σ) :
    Except Fault (ℕ × Program σ) :=
  if max ≥ sizeofScommand then .ok (0, s)
  else do
    let s ← s.strncpy scommand command sizeofScommand
    let (token, s) ← s.strtok scommand
    marrowosParseCommandTokens A token s

/-- The list that `marrowos_system` is called with; without one the answer is `-1`. -/
def marrowosSystemRun (buf scommand command : ℕ) (s : Program σ) :
    Except Fault (Option ℕ × Program σ) := do
  let s ← s.strncpy buf command 1024
  let (rootCommandArgument, s) ← marrowosParseCommand A scommand buf 1024 s
  if rootCommandArgument = 0 then return (none, s) else return (some rootCommandArgument, s)

end MarrowOS
