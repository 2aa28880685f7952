import MarrowOS.Config
import MarrowOS.CString
import MarrowOS.Lib.Fallible
import MarrowOS.Lib.MemStrings

/-!
# `strtok` (`string.c`)

The pointers are addresses in the memory of the process, and an access at `2 ^ 32` leaves the
address space. `sp` is the saved pointer, and the history variable `accesses` holds the addresses of
the strings that were read or written, the last one first. The delimiters are not among them.
-/

namespace MarrowOS

open ByteMem

structure Strtok where
  mem : Mem
  sp : ℕ
  accesses : List ℕ

def Strtok.load (p : ℕ) (s : Strtok) : Except Fault (UInt8 × Strtok) :=
  if p < 2 ^ 32 then .ok (s.mem p, { s with accesses := p :: s.accesses })
  else .error .outOfBounds

def Strtok.store (p : ℕ) (c : UInt8) (s : Strtok) : Except Fault Strtok :=
  if p < 2 ^ 32 then
    .ok { s with mem := Function.update s.mem p c, accesses := p :: s.accesses }
  else .error .outOfBounds

variable (delimiters : CString)

/-- The `for` loops end at the first delimiter that is the character, or with `i == len`. -/
def isDelimiter (c : UInt8) : Bool := delimiters.idxOf c < delimiters.length

/-- The `while (1)` loop; `n` is at least the rest of the address space from `pStart` on. -/
def strtokSkip : (n pStart : ℕ) → Strtok → Except Fault (ℕ × Strtok)
  | 0, _, _ => .error .outOfBounds
  | n + 1, pStart, s => do
    let (c, s) ← s.load pStart
    if isDelimiter delimiters c then strtokSkip n (pStart + 1) s else return (pStart, s)

/-- The loop that finds the end of the token. -/
def strtokEnd : (n : ℕ) → Strtok → Except Fault Strtok
  | 0, _ => .error .outOfBounds
  | n + 1, s => do
    let (c, s) ← s.load s.sp
    if c = 0 then return s
    else if isDelimiter delimiters c then
      let s ← s.store s.sp 0
      return { s with sp := s.sp + 1 }
    else strtokEnd n { s with sp := s.sp + 1 }

def strtok (str : ℕ) (s : Strtok) : Except Fault (ℕ × Strtok) :=
  if str = 0 ∧ s.sp = 0 then .ok (0, s)
  else do
    let s := if str ≠ 0 ∧ s.sp = 0 then { s with sp := str } else s
    let (pStart, s) ← strtokSkip delimiters (2 ^ 32 - s.sp + 1) s.sp s
    let s := { s with sp := pStart }
    let (c, s) ← s.load s.sp
    if c = 0 then return (0, { s with sp := 0 })
    else
      let s ← strtokEnd delimiters (2 ^ 32 - s.sp + 1) s
      return (pStart, s)

/-- `strtok` on a string and then on null, `n` times in all. -/
def strtokCalls : (n str : ℕ) → Strtok → Except Fault (List ℕ × Strtok)
  | 0, _, s => .ok ([], s)
  | n + 1, str, s => do
    let (p, s) ← strtok delimiters str s
    let (ps, s) ← strtokCalls n 0 s
    return (p :: ps, s)

end MarrowOS
