import MarrowOS.CString
import MarrowOS.Lib.ByteMem
import MarrowOS.Lib.CInt
import Mathlib.Logic.Function.Basic

/-!
# Reading a line (`marrowos.c`)

`marrowos_terminal_readline` waits for keys and stores them in `out`. The system calls are the list
of the answers of `marrowos_getkey` so far, `0` when no key was typed: a call that needs one more
has not returned yet.
-/

namespace MarrowOS

open ByteMem CInt

@[simp] abbrev keyReturn : UInt8 := 13
@[simp] abbrev keyBackspace : UInt8 := 0x08

/-- The key and the answers behind it; `none` while it waits. -/
def marrowosGetkeyBlock : (answers : List UInt8) → Option (UInt8 × List UInt8)
  | [] => none
  | val :: answers => if val = 0 then marrowosGetkeyBlock answers else some (val, answers)

/-- The memory, the indices of `out` that were stored to and the keys that were printed, the last
one first. -/
structure Readline where
  mem : Mem
  stores : List ℤ
  printed : List UInt8

/-- `out[i] = c` -/
def Readline.store (out : ℕ) (i : ℤ) (c : UInt8) (s : Readline) : Readline :=
  { s with mem := Function.update s.mem (u32 (out + i)) c, stores := i :: s.stores }

variable (out : ℕ) (max : ℤ) (outputWhileTyping : Bool)

/-- The rest of the loop's body, for a key that does not end the line. Returns `i`. -/
def readlineKey (key : UInt8) (i : ℤ) (s : Readline) : ℤ × Readline :=
  let s := if outputWhileTyping then { s with printed := key :: s.printed } else s
  if key = keyBackspace ∧ i ≥ 1 then (i - 2, s.store out (i - 1) 0x00)
  else (i, s.store out i key)

/-- The `for` loop. Returns `i`, or `none` while it waits; `n` is more than the number of
answers. -/
def readlineLoop : (n : ℕ) → (answers : List UInt8) → (i : ℤ) → Readline → Option ℤ × Readline
  | 0, _, _, s => (none, s)
  | n + 1, answers, i, s =>
    if i < max - 1 then
      match marrowosGetkeyBlock answers with
      | none => (none, s)
      | some (key, answers) =>
        if key = keyReturn then (some i, s)
        else
          let (i, s) := readlineKey out outputWhileTyping key i s
          readlineLoop n answers (i + 1) s
    else (some i, s)

/-- Whether the call has returned, and what it has done. -/
def marrowosTerminalReadline (answers : List UInt8) (mem : Mem) : Bool × Readline :=
  match readlineLoop out max outputWhileTyping (answers.length + 1) answers 0 ⟨mem, [], []⟩ with
  | (none, s) => (false, s)
  | (some i, s) => (true, s.store out i 0x00)

end MarrowOS
