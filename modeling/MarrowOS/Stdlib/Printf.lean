import MarrowOS.Stdlib.Integers

/-!
# `printf` (`stdio.c`)

`printf` walks over its format with a cursor, an address in the memory of the process; an access at
`2 ^ 32` leaves the address space. The arguments are the words of the stack from `ap` on, and the
history variable `reads` holds the addresses of the format that were read, the last one first. The
buffers of the functions it calls are on the stack, which holds anything.
-/

namespace MarrowOS

open ByteMem CInt

@[simp] abbrev charPercent : UInt8 := 0x25
@[simp] abbrev charL : UInt8 := 0x6C

/-- What is handed to `print` and `putchar`: characters of `printf`'s own, or a string of the
caller. -/
inductive Printed
  | chars (w : CString)
  | str (sval : ℕ)
deriving DecidableEq, Repr

/-- `text` is the buffer of `itoa`, and `printed` the output, with the last piece first. -/
structure Printf where
  ap : List UInt32
  text : Mem
  printed : List Printed
  reads : List ℕ

variable (stack : Mem)

/-- `*p` -/
def Printf.read (mem : Mem) (p : ℕ) (s : Printf) : Except Fault (UInt8 × Printf) :=
  if p < 2 ^ 32 then .ok (mem p, { s with reads := p :: s.reads }) else .error .outOfBounds

/-- `va_arg` of a word. -/
def Printf.vaArg (s : Printf) : ℕ × Printf := ((s.ap.headD 0).toNat, { s with ap := s.ap.tail })

/-- `va_arg` of a `long long`. -/
def Printf.vaArg64 (s : Printf) : ℕ × Printf :=
  let (low, s) := s.vaArg
  let (high, s) := s.vaArg
  (low + high * 2 ^ 32, s)

def Printf.put (w : CString) (s : Printf) : Printf := { s with printed := .chars w :: s.printed }

/-! ## The conversions -/

/-- `%d`, and `%ld`: a `long` has the size of an `int`. -/
def printfInt (s : Printf) : Except Fault Printf := do
  let (val, s) := s.vaArg
  let (loc, text) ← itoa (i32 val) s.text
  return { s with text }.put (readString text (12 - loc) loc)

def printfUint (base : ℕ) (upper : Bool) (s : Printf) : Except Fault Printf := do
  let (val, s) := s.vaArg
  return s.put (← printUint val base upper stack)

def printfLl (s : Printf) : Except Fault Printf := do
  let (val, s) := s.vaArg64
  return s.put (← printLl (Int.bmod val (2 ^ 64)) stack)

def printfUll (base : ℕ) (upper : Bool) (s : Printf) : Except Fault Printf := do
  let (val, s) := s.vaArg64
  return s.put (← printUll val base upper stack)

/-- The conversions of integers, which the three `switch`es share. -/
def printfConversion (signed : Printf → Except Fault Printf)
    (unsigned : (base : ℕ) → (upper : Bool) → Printf → Except Fault Printf)
    (otherwise : Printf → Except Fault Printf) (c : UInt8) : Printf → Except Fault Printf :=
  if c = 0x64 ∨ c = 0x69 then signed
  else if c = 0x75 then unsigned 10 false
  else if c = 0x78 then unsigned 16 false
  else if c = 0x58 then unsigned 16 true
  else if c = 0x6F then unsigned 8 false
  else otherwise

/-- The `switch` behind `%ll`. -/
def printfLongLong (c : UInt8) : Printf → Except Fault Printf :=
  printfConversion (printfLl stack) (printfUll stack) (fun s => .ok (s.put [c])) c

/-- The `switch` behind `%l`. -/
def printfLong (c : UInt8) : Printf → Except Fault Printf :=
  printfConversion printfInt (printfUint stack) (fun s => .ok (s.put [c])) c

/-- The cases `s`, `c`, `p` and `%` of the `switch` behind `%`, and its default. -/
def printfOther (c : UInt8) (s : Printf) : Except Fault Printf :=
  if c = 0x73 then
    let (sval, s) := s.vaArg
    .ok { s with printed := .str sval :: s.printed }
  else if c = 0x63 then
    let (val, s) := s.vaArg
    .ok (s.put [UInt8.ofNat val])
  else if c = 0x70 then printfUint stack 16 false (s.put [0x30, 0x78])
  else .ok (s.put [c])

/-- The `switch` behind `%`, but for the case `l`. -/
def printfDirective (c : UInt8) : Printf → Except Fault Printf :=
  printfConversion printfInt (printfUint stack) (printfOther stack c) c

/-! ## The cursor -/

/-- The `switch` behind `%`. Returns the cursor as well, on the last character that was used. -/
def printfPercent (mem : Mem) (p : ℕ) (s : Printf) : Except Fault (ℕ × Printf) := do
  let p := p + 1
  let (c, s) ← s.read mem p
  if c = charL then
    let (c, s) ← s.read mem (p + 1)
    if c = charL then
      let p := p + 2
      let (c, s) ← s.read mem p
      return (p, ← printfLongLong stack c s)
    else
      let p := p + 1
      let (c, s) ← s.read mem p
      return (p, ← printfLong stack c s)
  else return (p, ← printfDirective stack c s)

/-- The loop of `printf`; `n` is at least the rest of the address space from the cursor on. -/
def printfLoop (mem : Mem) : (n p : ℕ) → Printf → Except Fault Printf
  | 0, _, _ => .error .outOfBounds
  | n + 1, p, s => do
    let (c, s) ← s.read mem p
    if c = 0 then return s
    else if c ≠ charPercent then printfLoop mem n (p + 1) (s.put [c])
    else
      let (p, s) ← printfPercent stack mem p s
      printfLoop mem n (p + 1) s

def printf (mem : Mem) (fmt : ℕ) (ap : List UInt32) (text : Mem) : Except Fault Printf :=
  printfLoop stack mem (2 ^ 32 - fmt + 1) fmt ⟨ap, text, [], []⟩

end MarrowOS
