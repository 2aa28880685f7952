import Mathlib.Data.Nat.Notation
import Mathlib.Logic.Function.Basic
import Mathlib.Tactic.Lemma

/-!
# The terminal (`kernel.c`)

Text goes to the video buffer, one 16-bit cell for each character, at a cursor that
`terminal_row` and `terminal_col` keep. The history variable `puts` records where
`terminal_putchar` stored.
-/

namespace MarrowOS

@[simp] abbrev vgaWidth : ℕ := 80
@[simp] abbrev vgaHeight : ℕ := 20

@[simp] abbrev charNewline : BitVec 8 := 0x0A
@[simp] abbrev charBackspace : BitVec 8 := 0x08
@[simp] abbrev charSpace : BitVec 8 := 0x20

/-- The arguments of a `terminal_putchar`. -/
structure Put where
  x : ℕ
  y : ℕ
deriving DecidableEq, Repr

/-- The cell of the video buffer it stores to. -/
def Put.index (p : Put) : ℕ := p.y * vgaWidth + p.x

/-- The memory from the video buffer on, in cells, the cursor, and the stores made so far with
the last one first. -/
structure Terminal where
  videoMem : ℕ → BitVec 16
  terminalRow : BitVec 16
  terminalCol : BitVec 16
  puts : List Put

/-- `char` is signed, so the high bits of `c` are copies of its sign. -/
def terminalMakeChar (c color : BitVec 8) : BitVec 16 :=
  color.signExtend 16 <<< 8 ||| c.signExtend 16

def terminalPutchar (x y : ℕ) (c color : BitVec 8) (t : Terminal) : Terminal :=
  let p : Put := ⟨x, y⟩
  { t with
    videoMem := Function.update t.videoMem p.index (terminalMakeChar c color)
    puts := p :: t.puts }

/-- The part of `terminal_writechar` after the two special characters. -/
def terminalWritePrintable (c color : BitVec 8) (t : Terminal) : Terminal :=
  let t := terminalPutchar t.terminalCol.toNat t.terminalRow.toNat c color t
  let t := { t with terminalCol := t.terminalCol + 1 }
  if t.terminalCol.toNat ≥ vgaWidth then
    { t with terminalCol := 0, terminalRow := t.terminalRow + 1 }
  else t

def terminalBackspace (t : Terminal) : Terminal :=
  if t.terminalRow = 0 ∧ t.terminalCol = 0 then t
  else
    let t := if t.terminalCol = 0 then
        { t with terminalRow := t.terminalRow - 1, terminalCol := BitVec.ofNat 16 vgaWidth }
      else t
    let t := { t with terminalCol := t.terminalCol - 1 }
    -- `terminal_writechar(' ', 15)`: a space is not one of the special characters
    let t := terminalWritePrintable charSpace 15 t
    { t with terminalCol := t.terminalCol - 1 }

def terminalWritechar (c color : BitVec 8) (t : Terminal) : Terminal :=
  if c = charNewline then { t with terminalRow := t.terminalRow + 1, terminalCol := 0 }
  else if c = charBackspace then terminalBackspace t
  else terminalWritePrintable c color t

/-- The call of `terminal_writechar` in `terminal_backspace`. -/
lemma terminalWritechar_space (color : BitVec 8) (t : Terminal) :
    terminalWritechar charSpace color t = terminalWritePrintable charSpace color t := rfl

/-- Clears the screen, in a video buffer that holds anything. -/
def terminalInitialize (videoMem : ℕ → BitVec 16) : Terminal :=
  (List.range vgaHeight).foldl
    (fun t y => (List.range vgaWidth).foldl (fun t x => terminalPutchar x y charSpace 0 t) t)
    ⟨videoMem, 0, 0, []⟩

/-- `print`: the characters up to the NUL, in white. -/
def print (str : List (BitVec 8)) (t : Terminal) : Terminal :=
  str.foldl (fun t c => terminalWritechar c 15 t) t

/-- One call of `terminal_writechar`, with a character and its color. -/
def terminalStep (t : Terminal) (c : BitVec 8 × BitVec 8) : Option Terminal :=
  some (terminalWritechar c.1 c.2 t)

end MarrowOS
