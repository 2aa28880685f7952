import MarrowOS.Config
import MarrowOS.CString
import MarrowOS.Lib.Fallible
import MarrowOS.Lib.MemStrings

/-!
# Printing integers (`stdlib.c`, `stdio.c`)

The numerals are written into a buffer from its end downwards. The buffers are memories of their
own, from address `0` on, and hold anything before; a store below the buffer is out of bounds. An
`int` is an integer, and a negation that leaves its range is a signed overflow. What `print` and
`putchar` are called with is the string that is returned.
-/

namespace MarrowOS

open ByteMem

/-- `-i` on a signed integer of `w` bits. -/
def negate (w : ℕ) (i : ℤ) : Except Fault ℤ :=
  if i = -2 ^ (w - 1) then .error .signedOverflow else .ok (-i)

/-- `buf[--loc] = c`. -/
def storeBelow : (loc : ℕ) → (c : UInt8) → (buf : Mem) → Except Fault (ℕ × Mem)
  | 0, _, _ => .error .outOfBounds
  | loc + 1, c, buf => .ok (loc, Function.update buf loc c)

/-! ## `itoa` -/

/-- The digits of `i`, which is not positive. -/
def itoaLoop : (loc : ℕ) → (i : ℤ) → (text : Mem) → Except Fault (ℕ × Mem)
  | 0, i, text => if i = 0 then .ok (0, text) else .error .outOfBounds
  | loc + 1, i, text =>
    if i = 0 then .ok (loc + 1, text)
    else itoaLoop loc (i.tdiv 10) (Function.update text loc (UInt8.ofInt (0x30 - i.tmod 10)))

/-- The part of `itoa` between the two tests of the sign. -/
def itoaDigits (i : ℤ) (text : Mem) : Except Fault (ℕ × Mem) := do
  let (loc, text) ← itoaLoop 11 i text
  if loc = 11 then storeBelow loc 0x30 text else return (loc, text)

/-- Returns the index of the first character and the buffer, which is static. -/
def itoa (i : ℤ) (text : Mem) : Except Fault (ℕ × Mem) :=
  let text := Function.update text 11 0
  if i ≥ 0 then do itoaDigits (← negate 32 i) text
  else do
    let (loc, text) ← itoaDigits i text
    storeBelow loc 0x2D text

/-! ## `printf`'s own -/

/-- `digits`. -/
def digitChars (upper : Bool) : List UInt8 :=
  [0x30, 0x31, 0x32, 0x33, 0x34, 0x35, 0x36, 0x37, 0x38, 0x39] ++
    if upper then [0x41, 0x42, 0x43, 0x44, 0x45, 0x46]
    else [0x61, 0x62, 0x63, 0x64, 0x65, 0x66]

/-- The loop of `print_uint` and `print_ull`, which differ in how they divide by the base. -/
def printDigitsLoop (divmod : ℕ → ℕ × ℕ) (upper : Bool) :
    (loc val : ℕ) → (buf : Mem) → Except Fault (ℕ × Mem)
  | 0, val, buf => if val = 0 then .ok (0, buf) else .error .outOfBounds
  | loc + 1, val, buf =>
    if val = 0 then .ok (loc + 1, buf)
    else
      let (val, rem) := divmod val
      printDigitsLoop divmod upper loc val
        (Function.update buf loc ((digitChars upper).getD rem 0))

/-- `print_uint` and `print_ull` on a buffer of `size` bytes. -/
def printDigits (size : ℕ) (divmod : ℕ → ℕ × ℕ) (upper : Bool) (val : ℕ) (buf : Mem) :
    Except Fault CString := do
  let loc := size - 1
  let buf := Function.update buf loc 0
  let (loc, buf) ← if val = 0 then storeBelow loc 0x30 buf
    else printDigitsLoop divmod upper loc val buf
  return readString buf (size - loc) loc

def printUint (val base : ℕ) (upper : Bool) (buf : Mem) : Except Fault CString :=
  printDigits 16 (fun val => (val / base, val % base)) upper val buf

/-- Reduction to an `unsigned long long`. -/
def u64 (x : ℕ) : ℕ := x % 2 ^ 64

/-- The loop of `udivmod64` with `i` bits to go. -/
def udivmod64Loop (n d : ℕ) : (i q r : ℕ) → ℕ × ℕ
  | 0, q, r => (q, r)
  | i + 1, q, r =>
    let r := u64 (r <<< 1) ||| ((n >>> i) &&& 1)
    if r ≥ d then udivmod64Loop n d i (q ||| u64 (1 <<< i)) (r - d)
    else udivmod64Loop n d i q r

/-- The quotient, and the remainder as an `unsigned int`. -/
def udivmod64 (n d : ℕ) : ℕ × ℕ :=
  let (q, r) := udivmod64Loop n d 64 0 0
  (q, r % 2 ^ 32)

def printUll (val base : ℕ) (upper : Bool) (buf : Mem) : Except Fault CString :=
  printDigits 24 (fun val => udivmod64 val base) upper val buf

def printLl (val : ℤ) (buf : Mem) : Except Fault CString :=
  if val < 0 then do
    let uval := u64 ((← negate 64 (val + 1)).toNat + 1)
    return 0x2D :: (← printUll uval 10 false buf)
  else printUll val.toNat 10 false buf

end MarrowOS
