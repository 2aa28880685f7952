import MarrowOS.Isr80h.SystemCommandTheorems
import MarrowOS.Stdlib.UserStack
import MarrowOS.Task.SegmentMapping

/-!
# From a call in a program to the kernel and back

The functions of `marrowos.asm` keep to one convention: the kernel finds the arguments of the caller
as the items of the stack, the result comes back in `eax`, and the caller finds its other registers
and its stack as they were (`functions_call`). The stack of a process that was loaded is such a stack
(`ProcessLoaded.stackAt`).
-/

namespace MarrowOS

open ByteMem CInt

variable {s s' : Services} {r : UserProgram} {tables : List ℕ} {code : List Instruction}
  {f : Isr80hCommand} {commands : Isr80hCommand → Services → Option (ℕ × Services)}
  {addFlags : ℕ → ℕ → ℕ} {stack : UserStack} {args n : ℕ}

/-! ## The convention -/

/-- A function with `args` arguments is called: the return address is on the stack, the arguments
are behind it, and there is room for the function. -/
structure Calls (r : UserProgram) (stack : UserStack) (args : ℕ) (tables : List ℕ) : Prop where
  place : StackAt r.services stack tables
  task : r.services.task ≠ 0
  frame : stack.Has (r.cpu.esp - 4 * (args + 1)) (8 * (args + 1))
  room : 4 * (args + 1) ≤ r.cpu.esp
  ebp_lt : r.cpu.ebp < 2 ^ 32

/-- Argument `i` of the caller. -/
def UserProgram.argument (r : UserProgram) (stack : UserStack) (i : ℕ) : ℕ :=
  readU32 r.services.mem (stack.byte (r.cpu.esp + 4 + 4 * i))

def UserProgram.returnAddress (r : UserProgram) (stack : UserStack) : ℕ :=
  readU32 r.services.mem (stack.byte r.cpu.esp)

/-- The state in which the kernel calls the function of the system call: the task was saved, its
stack pointer is at the arguments, and only the stack below the caller's has changed. -/
structure Entered (r : UserProgram) (stack : UserStack) (args : ℕ) (s : Services) : Prop where
  saved : ∃ cpu, s = (r.services.withMem s.mem).saved cpu
  mem : ∀ x, x + 4 * (args + 1) < stack.byte r.cpu.esp ∨ stack.byte r.cpu.esp ≤ x →
    s.mem x = r.services.mem x
  items : ∀ i < args, taskGetStackItem s.task i s.kernel = some (r.argument stack i)

/-- The function of the system call leaves the stack where it is, and on it the return address and
the word below it, where the function of the program saved `ebp`. -/
structure KeepsFrame (r : UserProgram) (stack : UserStack) (s s' : Services) : Prop where
  place : ∃ tables, StackAt s' stack tables
  mem : ∀ x, stack.byte r.cpu.esp ≤ x + 4 → x < stack.byte r.cpu.esp + 4 → s'.mem x = s.mem x

/-- Back in the caller, with a result. -/
def UserProgram.returned (r : UserProgram) (stack : UserStack) (result flags : ℕ) (s : Services) :
    UserProgram :=
  ⟨{ r.cpu with
    eax := result
    esp := r.cpu.esp + 4
    ip := r.returnAddress stack
    flags }, s⟩

/-! ## Up to `int 0x80` -/

/-- The stack when the function has saved `ebp`. -/
def UserProgram.savedEbp (r : UserProgram) (stack : UserStack) : Mem :=
  writeU32 r.services.mem (stack.byte (r.cpu.esp - 4)) r.cpu.ebp

/-- And when it has pushed its argument again. -/
def UserProgram.pushedArgument (r : UserProgram) (stack : UserStack) : Mem :=
  writeU32 (r.savedEbp stack) (stack.byte (r.cpu.esp - 8)) (r.argument stack 0)

/-- The stack at `int 0x80`. -/
def UserProgram.calledMem (r : UserProgram) (stack : UserStack) : (args : ℕ) → Mem
  | 0 => r.savedEbp stack
  | _ + 1 => r.pushedArgument stack

/-- The program at `int 0x80`. -/
def UserProgram.atInt (r : UserProgram) (stack : UserStack) (args command : ℕ) : UserProgram :=
  ⟨{ r.cpu with
    eax := command
    ebp := r.cpu.esp - 4
    esp := r.cpu.esp - 4 * (args + 1) }, r.services.withMem (r.calledMem stack args)⟩

/-- The kernel that `int 0x80` enters. -/
def UserProgram.enters (r : UserProgram) (stack : UserStack) (args command : ℕ) : Services :=
  (r.atInt stack args command).services.saved (r.atInt stack args command).cpu

section
variable (h : Calls r stack n tables)
include h

lemma Calls.has : stack.Has (r.cpu.esp - 4) 4 ∧ stack.Has r.cpu.esp 4 := by
  have hlow := h.frame.low_le
  have hle := h.frame.le_high
  have hroom := h.room
  exact ⟨⟨by omega, by omega⟩, by omega, by omega⟩

/-- Below the stack pointer of the caller. -/
lemma Calls.byte_sub {k : ℕ} (hk : k ≤ 4 * (n + 1)) :
    stack.byte (r.cpu.esp - k) + k = stack.byte r.cpu.esp := by
  have hlow := h.frame.low_le
  have hroom := h.room
  unfold UserStack.byte
  omega

lemma Calls.savedEbp : StackAt (r.services.withMem (r.savedEbp stack)) stack tables :=
  h.place.withMem fun _ hx => writeU32_of_outside (h.has.1.outside hx)

/-- `push ebp` and `mov ebp,esp`. -/
lemma Calls.execAll_frame (code : List Instruction) :
    r.execAll commands addFlags (.push .ebp :: .mov .ebp .esp :: code) =
      UserProgram.execAll commands addFlags code
        ⟨{ r.cpu with esp := r.cpu.esp - 4, ebp := r.cpu.esp - 4 },
          r.services.withMem (r.savedEbp stack)⟩ := by
  have hpush : r.exec commands addFlags (.push .ebp) = r.push r.cpu.ebp := rfl
  have hroom := h.room
  rw [execAll_cons, hpush, h.place.push h.has.1 (by omega), Option.bind_some, execAll_cons]
  rfl

end

section
variable (h : Calls r stack 1 tables)
include h

lemma Calls.has_argument : stack.Has (r.cpu.esp - 8) 4 ∧ stack.Has (r.cpu.esp + 4) 4 := by
  have hlow := h.frame.low_le
  have hle := h.frame.le_high
  have hroom := h.room
  exact ⟨⟨by omega, by omega⟩, by omega, by omega⟩

/-- `push dword [ebp+8]` pushes the argument again. -/
lemma Calls.exec_pushDword {cpu : Registers} (hebp : cpu.ebp = r.cpu.esp - 4)
    (hesp : cpu.esp = r.cpu.esp - 4) :
    UserProgram.exec commands addFlags ⟨cpu, r.services.withMem (r.savedEbp stack)⟩
        (.pushDword .ebp 8) =
      some ⟨{ cpu with esp := r.cpu.esp - 8 }, r.services.withMem (r.pushedArgument stack)⟩ := by
  have hlow := h.frame.low_le
  have hroom := h.room
  have hargument : cpu.ebp + 8 = r.cpu.esp + 4 := by omega
  have hbelow : cpu.esp - 4 = r.cpu.esp - 8 := by omega
  have hread : readU32 (r.savedEbp stack) (stack.byte (r.cpu.esp + 4)) = r.argument stack 0 := by
    apply readU32_writeU32_of_apart
    unfold UserStack.byte
    omega
  have hstack : StackAt (UserProgram.mk cpu (r.services.withMem (r.savedEbp stack))).services stack
    tables := h.savedEbp
  rw [hstack.pushDword (by
    dsimp only
    rw [hargument]
    exact h.has_argument.2)]
  dsimp only
  rw [hargument, Services.withMem_mem, hread, hstack.push (by
    dsimp only
    rw [hbelow]
    exact h.has_argument.1) (by
    dsimp only
    omega)]
  dsimp only
  rw [hbelow, Services.withMem_mem, Services.withMem_withMem]
  rfl

lemma Calls.execAll_argument (command : ℕ) (code : List Instruction) :
    r.execAll commands addFlags (.push .ebp :: .mov .ebp .esp :: .movValue .eax command ::
      .pushDword .ebp 8 :: code) =
      UserProgram.execAll commands addFlags code (r.atInt stack 1 command) := by
  have hmov : UserProgram.exec commands addFlags ⟨{ r.cpu with
      esp := r.cpu.esp - 4, ebp := r.cpu.esp - 4 }, r.services.withMem (r.savedEbp stack)⟩
      (.movValue .eax command) = some ⟨{ r.cpu with
        esp := r.cpu.esp - 4, ebp := r.cpu.esp - 4, eax := command },
        r.services.withMem (r.savedEbp stack)⟩ := rfl
  rw [h.execAll_frame, execAll_cons, hmov, Option.bind_some, execAll_cons,
    h.exec_pushDword rfl rfl, Option.bind_some]
  rfl

lemma Calls.execAll_print (command : ℕ) (code : List Instruction) :
    r.execAll commands addFlags (.push .ebp :: .mov .ebp .esp :: .pushDword .ebp 8 ::
      .movValue .eax command :: code) =
      UserProgram.execAll commands addFlags code (r.atInt stack 1 command) := by
  rw [h.execAll_frame, execAll_cons, h.exec_pushDword rfl rfl, Option.bind_some, execAll_cons]
  rfl

end

lemma Calls.execAll_plain (h : Calls r stack 0 tables) (command : ℕ) (code : List Instruction) :
    r.execAll commands addFlags (.push .ebp :: .mov .ebp .esp :: .movValue .eax command :: code) =
      UserProgram.execAll commands addFlags code (r.atInt stack 0 command) := by
  rw [h.execAll_frame, execAll_cons]
  rfl

/-- At `int 0x80` the stack is where it was, and changed below the caller's only. -/
lemma Calls.calledMem (h : Calls r stack n tables) (hn : n ≤ 1) :
    StackAt (r.services.withMem (r.calledMem stack n)) stack tables ∧
      ∀ x, x + 4 * (n + 1) < stack.byte r.cpu.esp ∨ stack.byte r.cpu.esp ≤ x →
        r.calledMem stack n x = r.services.mem x := by
  have hword := @Calls.byte_sub _ _ _ _ h 4 (by omega)
  rcases Nat.le_one_iff_eq_zero_or_eq_one.mp hn with rfl | rfl
  · exact ⟨h.savedEbp, fun x hx => writeU32_of_outside (by omega)⟩
  · have hnext := @Calls.byte_sub _ _ _ _ h 8 (by norm_num)
    have hsecond := @StackAt.withMem _ (r.pushedArgument stack) _ _ h.savedEbp fun x hx =>
      writeU32_of_outside (h.has_argument.1.outside hx)
    rw [Services.withMem_withMem] at hsecond
    refine ⟨hsecond, fun x hx => ?_⟩
    have hfirst : r.savedEbp stack x = r.services.mem x := writeU32_of_outside (by omega)
    rw [← hfirst]
    exact writeU32_of_outside (by omega)

lemma UserProgram.atInt_services (r : UserProgram) (stack : UserStack) (args command : ℕ) :
    (r.atInt stack args command).services = r.services.withMem (r.calledMem stack args) := rfl

/-- What the kernel is entered with. -/
lemma Calls.entered (h : Calls r stack n tables) (hn : n ≤ 1) (command : ℕ) :
    Entered r stack n (r.enters stack n command) := by
  rcases h.calledMem hn with ⟨hstack, hmem⟩
  rw [UserProgram.enters, UserProgram.atInt_services]
  refine ⟨⟨_, rfl⟩, hmem, fun i hi => ?_⟩
  obtain rfl : n = 1 := by omega
  obtain rfl : i = 0 := by omega
  have hitem := @StackAt.taskGetStackItem _ _ stack 0 hstack (r.atInt stack 1 command).cpu
    h.has_argument.1
  refine hitem.trans (congrArg some ?_)
  exact readU32_writeU32_self (readU32_lt _ _)

/-! ## Back in the program -/

/-- `pop ebp` and `ret`. -/
lemma Calls.execAll_return (h : Calls r stack n tables) {cpu : Registers}
    (hesp : cpu.esp = r.cpu.esp - 4) (hplace : ∃ tables, StackAt s' stack tables)
    (hebp : readU32 s'.mem (stack.byte (r.cpu.esp - 4)) = r.cpu.ebp)
    (hret : readU32 s'.mem (stack.byte r.cpu.esp) = r.returnAddress stack) :
    UserProgram.execAll commands addFlags [.pop .ebp, .ret] ⟨cpu, s'⟩ =
      some ⟨{ cpu with
        ebp := r.cpu.ebp
        esp := r.cpu.esp + 4
        ip := r.returnAddress stack }, s'⟩ := by
  have hroom := h.room
  obtain ⟨tables', hplace⟩ := hplace
  have hnext : r.cpu.esp - 4 + 4 = r.cpu.esp := by omega
  have hpop : UserProgram.pop ⟨cpu, s'⟩ =
      some (r.cpu.ebp, ⟨{ cpu with esp := r.cpu.esp }, s'⟩) := by
    have hpop := @StackAt.pop ⟨cpu, s'⟩ tables' stack hplace (by
      dsimp only
      rw [hesp]
      exact h.has.1)
    dsimp only at hpop
    rwa [hesp, hebp, hnext] at hpop
  have hret' : UserProgram.pop ⟨{ cpu with esp := r.cpu.esp, ebp := r.cpu.ebp }, s'⟩ =
      some (r.returnAddress stack,
        ⟨{ cpu with esp := r.cpu.esp + 4, ebp := r.cpu.ebp }, s'⟩) := by
    have hpop := @StackAt.pop ⟨{ cpu with esp := r.cpu.esp, ebp := r.cpu.ebp }, s'⟩ tables' stack
      hplace h.has.2
    dsimp only at hpop
    rwa [hret] at hpop
  rw [execAll_cons, exec_pop, hpop, Option.map_some, Option.bind_some, execAll_cons, exec_ret]
  dsimp only [Registers.set]
  rw [hret', Option.map_some, Option.bind_some]
  rfl

/-- What the function of the program finds when the system call has returned. -/
lemma Calls.frame_kept (h : Calls r stack n tables) (hn : n ≤ 1)
    (hmem : s.mem = r.calledMem stack n) (hkeeps : KeepsFrame r stack s s') :
    readU32 s'.mem (stack.byte (r.cpu.esp - 4)) = readU32 (r.savedEbp stack)
      (stack.byte (r.cpu.esp - 4)) ∧
    readU32 s'.mem (stack.byte r.cpu.esp) = r.returnAddress stack := by
  have hword := @Calls.byte_sub _ _ _ _ h 4 (by omega)
  have hmem' := (h.calledMem hn).2
  have hsaved : ∀ x, stack.byte (r.cpu.esp - 4) ≤ x → x < stack.byte (r.cpu.esp - 4) + 4 →
      r.calledMem stack n x = r.savedEbp stack x := by
    intro x h₀ h₁
    rcases Nat.le_one_iff_eq_zero_or_eq_one.mp hn with rfl | rfl
    · rfl
    · have hnext := @Calls.byte_sub _ _ _ _ h 8 (by norm_num)
      exact writeU32_of_outside (by omega)
  refine ⟨readU32_congr fun x h₀ h₁ => ?_, readU32_congr fun x h₀ h₁ => ?_⟩
  · rw [hkeeps.mem x (by omega) (by omega), hmem, hsaved x h₀ h₁]
  · rw [hkeeps.mem x (by omega) (by omega), hmem, hmem' x (by omega)]

/-! ## Calls -/

/-- What a function of the table does up to `int 0x80`, and what is left of it then. -/
lemma functions_cases (hcode : (code, f, args) ∈ Asm.functions) : ∃ command : ℕ,
    isr80hCommandFunc bootCommands (i32 command) = some f ∧
    (args = 1 ∧ (code = Asm.argumentFunction command ∨ code = Asm.print ∧ command = 1) ∨
      args = 0 ∧ code = Asm.plainFunction command) := by
  have hdispatch : ∀ c ∈ [(1, Isr80hCommand.isr80hCommand1Print), (2, .isr80hCommand2Getkey),
      (3, .isr80hCommand3Putchar), (4, .isr80hCommand4Malloc), (5, .isr80hCommand5Free),
      (6, .isr80hCommand6ProcessLoadStart), (7, .isr80hCommand7InvokeSystemCommand),
      (8, .isr80hCommand8GetProgramArguments), (9, .isr80hCommand9Exit)],
      isr80hCommandFunc bootCommands (i32 (c.1 : ℕ)) = some c.2 := by decide
  simp only [Asm.functions, List.mem_cons, Prod.mk.injEq, List.not_mem_nil, or_false] at hcode
  rcases hcode with h | h | h | h | h | h | h | h | h
  all_goals
    obtain ⟨rfl, rfl, rfl⟩ := h
  · exact ⟨1, hdispatch (1, _) (by decide), Or.inl ⟨rfl, Or.inr ⟨rfl, rfl⟩⟩⟩
  · exact ⟨2, hdispatch (2, _) (by decide), Or.inr ⟨rfl, rfl⟩⟩
  · exact ⟨3, hdispatch (3, _) (by decide), Or.inl ⟨rfl, Or.inl rfl⟩⟩
  · exact ⟨4, hdispatch (4, _) (by decide), Or.inl ⟨rfl, Or.inl rfl⟩⟩
  · exact ⟨5, hdispatch (5, _) (by decide), Or.inl ⟨rfl, Or.inl rfl⟩⟩
  · exact ⟨6, hdispatch (6, _) (by decide), Or.inl ⟨rfl, Or.inl rfl⟩⟩
  · exact ⟨7, hdispatch (7, _) (by decide), Or.inl ⟨rfl, Or.inl rfl⟩⟩
  · exact ⟨8, hdispatch (8, _) (by decide), Or.inl ⟨rfl, Or.inl rfl⟩⟩
  · exact ⟨9, hdispatch (9, _) (by decide), Or.inr ⟨rfl, rfl⟩⟩

/-- What follows `int 0x80`. -/
def afterInt : (args : ℕ) → List Instruction
  | 0 => [.pop .ebp, .ret]
  | _ + 1 => [.add .esp 4, .pop .ebp, .ret]

/-- **Up to the kernel**: every function gets to `int 0x80` with its number in `eax`. -/
lemma Calls.execAll_int (h : Calls r stack args tables) (hcode : (code, f, args) ∈ Asm.functions) :
    args ≤ 1 ∧ ∃ command : ℕ, isr80hCommandFunc bootCommands (i32 command) = some f ∧
      r.execAll commands addFlags code = UserProgram.execAll commands addFlags
        (.int 0x80 :: afterInt args) (r.atInt stack args command) := by
  obtain ⟨command, hf, ⟨rfl, rfl | ⟨rfl, rfl⟩⟩ | ⟨rfl, rfl⟩⟩ := functions_cases hcode
  · exact ⟨le_rfl, command, hf, h.execAll_argument command _⟩
  · exact ⟨le_rfl, 1, hf, h.execAll_print 1 _⟩
  · exact ⟨Nat.zero_le _, command, hf, h.execAll_plain command _⟩

/-- **From the kernel**: the caller finds its stack and its `ebp` again. -/
lemma Calls.execAll_after (h : Calls r stack args tables) (hargs : args ≤ 1) {cpu : Registers}
    (hesp : cpu.esp = r.cpu.esp - 4 * (args + 1)) (hmem : s.mem = r.calledMem stack args)
    (hkeeps : KeepsFrame r stack s s') :
    ∃ flags, UserProgram.execAll commands addFlags (afterInt args) ⟨cpu, s'⟩ =
      some ⟨{ cpu with
        ebp := r.cpu.ebp
        esp := r.cpu.esp + 4
        ip := r.returnAddress stack
        flags }, s'⟩ := by
  rcases h.frame_kept hargs hmem hkeeps with ⟨hebp, hret⟩
  rw [UserProgram.savedEbp, readU32_writeU32_self h.ebp_lt] at hebp
  have hroom := h.room
  rcases Nat.le_one_iff_eq_zero_or_eq_one.mp hargs with rfl | rfl
  · rw [Nat.zero_add, Nat.mul_one] at hesp
    exact ⟨cpu.flags, h.execAll_return hesp hkeeps.place hebp hret⟩
  · have hnext : u32 ((cpu.esp : ℤ) + (4 : ℕ)) = r.cpu.esp - 4 := by
      have hle := h.frame.le_high
      have hhigh := h.place.high_lt
      rw [← Nat.cast_add, u32_natCast_of_lt (by omega)]
      omega
    refine ⟨addFlags cpu.esp 4, ?_⟩
    rw [afterInt, execAll_cons, exec_add, Option.bind_some]
    exact h.execAll_return hnext hkeeps.place hebp hret

/-- The system call itself, and what is left of the function behind it. -/
lemma Calls.execAll_isr80h (h : Calls r stack args tables) (hargs : args ≤ 1) {command : ℕ}
    (hf : isr80hCommandFunc bootCommands (i32 command) = some f) :
    (commands f (r.enters stack args command) = none →
      UserProgram.execAll commands addFlags (.int 0x80 :: afterInt args)
        (r.atInt stack args command) = none) ∧
    ∀ result s', commands f (r.enters stack args command) = some (result, s') →
      KeepsFrame r stack (r.enters stack args command) s' →
      ∃ flags, UserProgram.execAll commands addFlags (.int 0x80 :: afterInt args)
        (r.atInt stack args command) = some (r.returned stack result flags s') := by
  have hint : UserProgram.exec commands addFlags (r.atInt stack args command) (.int 0x80) =
      (r.atInt stack args command).isr80h commands := rfl
  have hcall := @isr80h_eq (r.atInt stack args command) f commands h.task hf
  rw [execAll_cons, hint, hcall]
  constructor
  · intro hnone
    rw [UserProgram.enters] at hnone
    rw [hnone]
    rfl
  · intro result s' hsome hkeeps
    have hmem : (r.enters stack args command).mem = r.calledMem stack args := rfl
    rw [UserProgram.enters] at hsome
    rw [hsome]
    exact h.execAll_after hargs rfl hmem hkeeps

/-- **The calling convention**: the kernel is entered with the function of the system call that the
program asks for, and finds the caller's arguments as the items of the stack. When that function
leaves the caller's frame alone, the program goes on behind its call, with the result in `eax` and
its other registers, but for the flags, as they were. -/
theorem functions_call (hcode : (code, f, args) ∈ Asm.functions) (h : Calls r stack args tables) :
    ∃ s, Entered r stack args s ∧
      (commands f s = none → r.execAll commands addFlags code = none) ∧
      ∀ result s', commands f s = some (result, s') → KeepsFrame r stack s s' →
        ∃ flags, r.execAll commands addFlags code = some (r.returned stack result flags s') := by
  obtain ⟨hargs, command, hf, hexec⟩ := @Calls.execAll_int _ _ _ _ commands addFlags _ _ h hcode
  rw [hexec]
  exact ⟨_, h.entered hargs command, h.execAll_isr80h hargs hf⟩

/-- The stack of the program is where it was. -/
lemma Entered.place (he : Entered r stack args s) (h : Calls r stack args tables) :
    StackAt s stack tables := by
  obtain ⟨cpu, hs⟩ := he.saved
  have hdirectory : s.directory = r.services.directory := by
    rw [hs, Services.saved_directory, Services.withMem_directory]
  have hplace := @StackAt.withMem _ s.mem _ _ h.place fun x hx => he.mem x (by
    have hlow := h.frame.low_le
    have hle := h.frame.le_high
    have hroom := h.room
    unfold UserStack.Covers at hx
    unfold UserStack.byte
    omega)
  exact hplace.congr rfl hdirectory

/-! ## A character -/

/-- What is written to the screen does not touch the stack. -/
lemma StackAt.keepsFrame (h : StackAt s stack tables) (terminal : Terminal) :
    KeepsFrame r stack s { s with terminal } :=
  ⟨⟨tables, h.congr rfl rfl⟩, fun _ _ _ => rfl⟩

lemma isr80hCommand3Putchar_eq {item : ℕ}
    (hitem : taskGetStackItem s.task 0 s.kernel = some item) :
    isr80hCommand3Putchar s = some (0, { s with
      terminal := terminalWritechar (BitVec.ofNat 8 item) 15 s.terminal }) := by
  rw [isr80hCommand3Putchar, hitem]
  rfl

/-- **`marrowos_putchar`** writes the low byte of its argument to the screen, and returns `0`. -/
theorem marrowosPutchar_writes (h : Calls r stack 1 tables)
    (hcommand : ∀ s, commands .isr80hCommand3Putchar s = isr80hCommand3Putchar s) :
    ∃ s flags, Entered r stack 1 s ∧ r.execAll commands addFlags Asm.marrowosPutchar =
      some (r.returned stack 0 flags { s with
        terminal := terminalWritechar (BitVec.ofNat 8 (r.argument stack 0)) 15
          r.services.terminal }) := by
  have hf : isr80hCommandFunc bootCommands (i32 (3 : ℕ)) =
      some Isr80hCommand.isr80hCommand3Putchar := by decide
  have hexec : r.execAll commands addFlags Asm.marrowosPutchar = UserProgram.execAll commands
      addFlags (.int 0x80 :: afterInt 1) (r.atInt stack 1 3) := by
    rw [Asm.marrowosPutchar, Asm.argumentFunction, h.execAll_argument, afterInt]
  have hentered := h.entered le_rfl 3
  have hcall : commands .isr80hCommand3Putchar (r.enters stack 1 3) =
      some (0, { r.enters stack 1 3 with
        terminal := terminalWritechar (BitVec.ofNat 8 (r.argument stack 0)) 15
          r.services.terminal }) := by
    have hitem := hentered.items 0 one_pos
    have hterminal : (r.enters stack 1 3).terminal = r.services.terminal := rfl
    rw [hcommand, isr80hCommand3Putchar_eq hitem, hterminal]
  obtain ⟨flags, hreturned⟩ := (@Calls.execAll_isr80h r tables _ commands addFlags stack 1 h le_rfl
    3 hf).2 _ _ hcall ((hentered.place h).keepsFrame _)
  exact ⟨_, flags, hentered, hexec.trans hreturned⟩

/-! ## A text -/

/-- The buffer holds the text as far as it goes. -/
lemma StringCopied.readString {directory tmp phys max : ℕ} {text : List UInt8} {k k' : Kernel}
    (h : StringCopied directory tmp phys max text k k') (htext : 0 ∉ text) :
    readString k'.machine.mem max phys = text.take (max - 1) := by
  have hlength : (text.take (max - 1)).length = min text.length (max - 1) := by
    rw [List.length_take, Nat.min_comm]
  have hstring : StringAt k'.machine.mem phys (text.take (max - 1)) := by
    refine stringAt_of_bytes (fun i hi => ?_) ?_ fun hmem => htext (List.mem_of_mem_take hmem)
    · rw [hlength] at hi
      rw [h.bytes i hi, List.getD_eq_getElem _ _ (by omega),
        List.getD_eq_getElem _ _ (by omega), List.getElem_take]
    · rw [hlength]
      exact h.nul
  rw [hstring.readString max, List.take_take, Nat.min_eq_right (Nat.sub_le max 1)]

/-- When `copy_string_from_task` copies a text to the buffer, `isr80h_command1_print` writes it to
the screen, cut to the size of the buffer. -/
lemma isr80hCommand1Print_eq {buf virtual directory tmp : ℕ} {text : List UInt8} {k : Kernel}
    (hitem : taskGetStackItem s.task 0 s.kernel = some virtual)
    (hcopy : copyStringFromTask s.task virtual buf 1024
      (s.kernel.withMem (fill s.kernel.machine.mem buf 1024 0)) = some (0, k))
    (hcopied : StringCopied directory tmp buf 1024 text
      (s.kernel.withMem (fill s.kernel.machine.mem buf 1024 0)) k) (htext : 0 ∉ text) :
    isr80hCommand1Print buf s =
      some (0, ⟨k, print ((text.take 1023).map (·.toBitVec)) s.terminal⟩) := by
  have hread := hcopied.readString htext
  rw [isr80hCommand1Print, hitem, Option.bind_eq_bind, Option.bind_some]
  dsimp only
  rw [hcopy, Option.bind_eq_bind, Option.bind_some]
  dsimp only
  rw [hread]
  rfl

/-! ## The stack of a process -/

/-- The stack that a process is given, at `stack`. -/
def programStack (stack : ℕ) : UserStack where
  low := marrowosProgramVirtualStackAddressEnd
  high := marrowosProgramVirtualStackAddressStart
  phys := stack

lemma programStack_size (stack : ℕ) : (programStack stack).high - (programStack stack).low =
    marrowosProgramVirtualStackAddressStart - marrowosProgramVirtualStackAddressEnd := rfl

/-- The kernel, with a task that runs. -/
def Kernel.runs (k : Kernel) (task : ℕ) (terminal : Terminal) : Services :=
  ⟨{ k with tasks := taskSwitchCurrent task k.tasks }, terminal⟩

section
variable {files : LoadAnswers} {slot : ℕ} {live : List Alloc} {k k' : Kernel} {process : Process}
  {chunk : Paging4gbChunk}
  (h : ProcessLoaded files slot live k k' process chunk tables)
include h

lemma ProcessLoaded.stackMapped :
    StackMapped k'.machine.mem chunk.directoryEntry process.stack := by
  rcases h.stack_address with ⟨hstack, hlt⟩
  refine stackMapped_of_entries hstack hlt fun p hp hpage => ?_
  rw [h.pages p hp]
  exact overlay_stack hstack hlt hp hpage

/-- The page directory and its tables have blocks of their own. -/
lemma ProcessLoaded.stack_apart {a : Alloc} {x : ℕ} (ha : a ∈ spaceAllocs chunk tables)
    (hx : (programStack process.stack).Covers x) : ¬ a.Covers x := by
  intro hax
  have hstack : (⟨process.stack, marrowosUserProgramStackSize⟩ : Alloc) ∈ process.stackBlocks := by
    rw [Process.stackBlocks, if_neg h.stack]
    exact List.mem_singleton_self _
  have hsize : marrowosProgramVirtualStackAddressStart - marrowosProgramVirtualStackAddressEnd =
      marrowosUserProgramStackSize := by decide
  have hcovers : (⟨process.stack, marrowosUserProgramStackSize⟩ : Alloc).Covers x := by
    rcases hx with ⟨hx₀, hx₁⟩
    rw [programStack_size, hsize] at hx₁
    exact Alloc.covers_of_lt hx₀ hx₁
  have heq := h.owns.covers_unique
    (List.mem_append_right _ (List.mem_append_left _ (h.space_mem ha)))
    (List.mem_append_right _ (List.mem_append_left _ (Process.stackBlocks_subset hstack))) hax
    hcovers
  rw [heq] at ha
  simp [spaceAllocs, pageAllocs] at ha

/-- The stack of a process that was loaded, when its task runs. -/
lemma ProcessLoaded.stackAt (terminal : Terminal) :
    StackAt (k'.runs process.task terminal) (programStack process.stack) tables := by
  have hdirectory : (k'.runs process.task terminal).directory = chunk.directoryEntry :=
    congrArg Paging4gbChunk.directoryEntry h.pageDirectory
  have hmapped := h.stackMapped
  have hhigh : marrowosProgramVirtualStackAddressStart < 2 ^ 32 := by decide
  refine ⟨?_, hhigh, fun virt hv => ?_, fun virt hv => ?_, fun x hx hin => ?_,
    fun x hx hin => ?_⟩
  · rw [hdirectory]
    exact h.space
  · rw [hdirectory]
    exact (hmapped virt hv.low_le hv.le_high).1
  · rw [hdirectory]
    exact (hmapped virt hv.low_le hv.le_high).2
  · rw [hdirectory] at hin
    exact h.stack_apart (directory_mem chunk tables) hx (Alloc.covers_of_lt hin.1 hin.2)
  · obtain ⟨t, ht, h₀, h₁⟩ := hin
    have hmem : (⟨t, 4096⟩ : Alloc) ∈ spaceAllocs chunk tables := List.mem_cons_of_mem _
      (List.mem_append_left _ (List.mem_map_of_mem ht))
    exact h.stack_apart hmem hx (Alloc.covers_of_lt h₀ h₁)

/-- A call that leaves room on the stack of the process. -/
lemma ProcessLoaded.calls (terminal : Terminal) {cpu : Registers}
    (hlow : marrowosProgramVirtualStackAddressEnd + 4 * (args + 1) ≤ cpu.esp)
    (hhigh : cpu.esp + 4 * (args + 1) ≤ marrowosProgramVirtualStackAddressStart)
    (hebp : cpu.ebp < 2 ^ 32) :
    Calls ⟨cpu, k'.runs process.task terminal⟩ (programStack process.stack) args tables := by
  have hroom : 4 * (args + 1) ≤ cpu.esp := le_trans (Nat.le_add_left _ _) hlow
  have hframe : cpu.esp - 4 * (args + 1) + 8 * (args + 1) = cpu.esp + 4 * (args + 1) := by omega
  exact ⟨h.stackAt terminal, h.task, ⟨Nat.le_sub_of_add_le hlow, hframe.trans_le hhigh⟩, hroom,
    hebp⟩

end

/-- A program of one byte is loaded, and calls a function with one argument. -/
lemma exists_calls_oneByteFile :
    ∃ r stack tables, r.cpu.esp = 0x3feff8 ∧ Calls r stack 1 tables := by
  have hroom : bootKernel.RoomLeft (24563 + 1037) := ⟨25600, le_refl _, bootKernel_room⟩
  obtain ⟨process, k', chunk, tables, -, hloaded, -⟩ :=
    @processLoadForSlot_oneByteFile bootKernel [] 24563 0 bootKernel_owns rfl hroom
  have hcalls := @ProcessLoaded.calls tables 1 _ _ _ _ _ _ _ hloaded
    (terminalInitialize fun _ => 0) { esp := 0x3feff8 } (by decide) (by decide) (by decide)
  exact ⟨_, _, tables, rfl, hcalls⟩

theorem functions_call_oneByteFile : ∃ r stack s flags, r.cpu.esp = 0x3feff8 ∧
    Entered r stack 1 s ∧
    UserProgram.execAll (fun _ s => some (0, s)) (fun _ _ => 0) Asm.marrowosMalloc r =
      some (r.returned stack 0 flags s) := by
  obtain ⟨r, stack, tables, hesp, h⟩ := exists_calls_oneByteFile
  have hcode : (Asm.marrowosMalloc, Isr80hCommand.isr80hCommand4Malloc, 1) ∈ Asm.functions := by
    decide
  obtain ⟨s, hentered, -, hreturns⟩ := @functions_call r tables _ _ (fun _ s => some (0, s))
    (fun _ _ => 0) stack 1 hcode h
  obtain ⟨flags, hflags⟩ := hreturns 0 s rfl ⟨⟨tables, hentered.place h⟩, fun _ _ _ => rfl⟩
  exact ⟨r, stack, s, flags, hesp, hentered, hflags⟩

theorem marrowosPutchar_oneByteFile : ∃ r stack s flags, r.cpu.esp = 0x3feff8 ∧
    Entered r stack 1 s ∧
    UserProgram.execAll (fun _ s => isr80hCommand3Putchar s) (fun _ _ => 0) Asm.marrowosPutchar r =
      some (r.returned stack 0 flags { s with
        terminal := terminalWritechar (BitVec.ofNat 8 (r.argument stack 0)) 15
          r.services.terminal }) := by
  obtain ⟨r, stack, tables, hesp, h⟩ := exists_calls_oneByteFile
  obtain ⟨s, flags, hwrites⟩ := @marrowosPutchar_writes r tables
    (fun _ s => isr80hCommand3Putchar s) (fun _ _ => 0) stack h fun _ => rfl
  exact ⟨r, stack, s, flags, hesp, hwrites⟩

end MarrowOS
