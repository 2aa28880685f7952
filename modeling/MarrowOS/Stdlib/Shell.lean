import MarrowOS.Stdlib.CommandRuns
import MarrowOS.Stdlib.ReadlineTheorems

/-!
# The shell (`shell.c`)

`main` reads a line, runs it and starts over, for ever. Here are the first rounds of its loop, as far
as the answers of `marrowos_getkey` go: what the shell asks of the system, in order. While it waits
other programs may allocate.
-/

namespace MarrowOS

open ByteMem CInt

/-! ## Reading a line -/

section
variable (out : ℕ) (max : ℤ) (outputWhileTyping : Bool)

/-- The `for` loop of `marrowos_terminal_readline`, with the answers that it leaves. -/
def readlineLoopRest : (n : ℕ) → (answers : List UInt8) → (i : ℤ) → Readline →
    Option (ℤ × List UInt8) × Readline
  | 0, _, _, s => (none, s)
  | n + 1, answers, i, s =>
    if i < max - 1 then
      match marrowosGetkeyBlock answers with
      | none => (none, s)
      | some (key, answers) =>
        if key = keyReturn then (some (i, answers), s)
        else
          let (i, s) := readlineKey out outputWhileTyping key i s
          readlineLoopRest n answers (i + 1) s
    else (some (i, answers), s)

/-- The loop is that of `marrowos_terminal_readline`. -/
lemma readlineLoopRest_fst (n : ℕ) (answers : List UInt8) (i : ℤ) (s : Readline) :
    readlineLoop out max outputWhileTyping n answers i s =
      ((readlineLoopRest out max outputWhileTyping n answers i s).1.map Prod.fst,
        (readlineLoopRest out max outputWhileTyping n answers i s).2) := by
  induction n generalizing answers i s with
  | zero => rfl
  | succ n ih =>
    rw [readlineLoop, readlineLoopRest]
    by_cases hgo : i < max - 1
    · rw [if_pos hgo, if_pos hgo]
      cases marrowosGetkeyBlock answers with
      | none => rfl
      | some x =>
        by_cases hreturn : x.1 = keyReturn
        · simp only [if_pos hreturn]
          rfl
        · simp only [if_neg hreturn]
          exact ih _ _ _
    · rw [if_neg hgo, if_neg hgo]
      rfl

/-- The call, with the answers that it leaves; `none` while it waits. -/
def marrowosTerminalReadlineRest (answers : List UInt8) (mem : Mem) :
    Option (List UInt8) × Readline :=
  match readlineLoopRest out max outputWhileTyping (answers.length + 1) answers 0
    ⟨mem, [], []⟩ with
  | (none, s) => (none, s)
  | (some (i, answers), s) => (some answers, s.store out i 0x00)

/-- The call is `marrowos_terminal_readline`. -/
lemma marrowosTerminalReadlineRest_isSome (answers : List UInt8) (mem : Mem) :
    marrowosTerminalReadline out max outputWhileTyping answers mem =
      ((marrowosTerminalReadlineRest out max outputWhileTyping answers mem).1.isSome,
        (marrowosTerminalReadlineRest out max outputWhileTyping answers mem).2) := by
  unfold marrowosTerminalReadline marrowosTerminalReadlineRest
  rw [readlineLoopRest_fst]
  cases readlineLoopRest out max outputWhileTyping (answers.length + 1) answers 0 ⟨mem, [], []⟩ with
  | mk r s => cases r <;> rfl

end

/-! ## The loop of `main` -/

/-- What the shell asks of the system: text on the screen, and a command with the list of its
arguments, in the memory of the shell at that time. -/
inductive ShellCall
  | print (text : CString)
  | putchar (c : UInt8)
  | system (root : ℕ) (mem : Mem)

def shellBanner : CString := "MarrowOS v1.0.0\n".toList.map fun c => UInt8.ofNat c.toNat
def shellPrompt : CString := [0x3e, 0x20]
def shellNewline : CString := [0x0a]

/-- The buffers of `main`, `marrowos_system_run` and `marrowos_parse_command`. -/
structure ShellFrames where
  line : ℕ
  buf : ℕ
  scommand : ℕ

/-- The keys that were shown, in order. -/
def Readline.echo (s : Readline) : List ShellCall := s.printed.reverse.map .putchar

variable {σ : Type} (A : Allocator σ) (elsewhere : σ → σ) (f : ShellFrames)

/-- One round. Returns the answers and the program behind it, or `none` when it waits for a key. -/
def shellRound (answers : List UInt8) (s : Program σ) :
    Except Fault (List ShellCall × Option (List UInt8 × Program σ)) :=
  match marrowosTerminalReadlineRest f.line 1024 true answers s.mem with
  | (none, r) => .ok (.print shellPrompt :: r.echo, none)
  | (some answers, r) => do
    let (root, s) ← marrowosSystemRun A f.buf f.scommand f.line
      { s with mem := r.mem, heap := elsewhere s.heap }
    let command := root.toList.map fun root => ShellCall.system root s.mem
    return (.print shellPrompt :: r.echo ++ .print shellNewline :: command ++ [.print shellNewline],
      some (answers, s))

/-- At most `n` rounds. -/
def shellLoop : (n : ℕ) → (answers : List UInt8) → Program σ → Except Fault (List ShellCall)
  | 0, _, _ => .ok []
  | n + 1, answers, s => do
    let (calls, next) ← shellRound A elsewhere f answers s
    match next with
    | none => return calls
    | some (answers, s) => do
      let later ← shellLoop n answers s
      return calls ++ later

/-- `main`, with at most `n` rounds of its loop. -/
def shellMain (n : ℕ) (answers : List UInt8) (s : Program σ) : Except Fault (List ShellCall) := do
  let calls ← shellLoop A elsewhere f n answers s
  return .print shellBanner :: calls

end MarrowOS
