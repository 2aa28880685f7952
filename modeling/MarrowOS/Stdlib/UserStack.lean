import MarrowOS.Stdlib.SystemCalls
import MarrowOS.Task.StringCopyTheorems

/-!
# The stack of a program

A stack lies in pages that the program may write, with nothing of the address space in them
(`StackAt`). What the instructions of `marrowos.asm` do to such a stack they do to its words in
memory, and the kernel finds these words as the items of the stack.
-/

namespace MarrowOS

open ByteMem CInt

/-! ## Words -/

lemma loadWord_eq {load : ℕ → Option UInt8} {mem : Mem} {virt a : ℕ}
    (h : ∀ i : ℕ, i < 4 → load (u32 ((virt : ℤ) + i)) = some (mem (a + i)))
    (hvirt : virt < 2 ^ 32) : loadWord load virt = some (readU32 mem a) := by
  have h₀ := h 0 (by norm_num)
  have h₁ := h 1 (by norm_num)
  have h₂ := h 2 (by norm_num)
  have h₃ := h 3 (by norm_num)
  rw [Nat.cast_zero, add_zero, u32_natCast_of_lt hvirt, Nat.add_zero] at h₀
  unfold loadWord
  rw [h₀]
  simp only [Option.bind_eq_bind, Option.bind_some]
  rw [show u32 ((virt : ℤ) + 1) = u32 ((virt : ℤ) + (1 : ℕ)) from rfl, h₁,
    show u32 ((virt : ℤ) + 2) = u32 ((virt : ℤ) + (2 : ℕ)) from rfl, h₂,
    show u32 ((virt : ℤ) + 3) = u32 ((virt : ℤ) + (3 : ℕ)) from rfl, h₃]
  rfl

/-- A word is its four bytes. -/
lemma writeBytes_word (mem : Mem) (a word : ℕ) :
    writeBytes mem a ((List.range 4).map (byteOf word)) = writeU32 mem a word := by
  funext x
  unfold writeBytes writeU32
  rw [List.length_map, List.length_range]
  split_ifs with h
  · have hlt : x - a < ((List.range 4).map (byteOf word)).length := by
      rw [List.length_map, List.length_range]
      omega
    rw [List.getD_eq_getElem _ _ hlt, List.getElem_map, List.getElem_range]
  · rfl

/-! ## Stacks -/

/-- The addresses of a stack, and where its lowest byte is in memory. -/
structure UserStack where
  low : ℕ
  high : ℕ
  phys : ℕ

/-- Where a byte of the stack is. -/
def UserStack.byte (stack : UserStack) (virt : ℕ) : ℕ := stack.phys + (virt - stack.low)

/-- `n` bytes of the stack from `virt` on. -/
structure UserStack.Has (stack : UserStack) (virt n : ℕ) : Prop where
  low_le : stack.low ≤ virt
  le_high : virt + n ≤ stack.high

/-- The byte of memory belongs to the stack. -/
def UserStack.Covers (stack : UserStack) (x : ℕ) : Prop :=
  stack.phys ≤ x ∧ x < stack.phys + (stack.high - stack.low)

/-- The program that runs has this stack: it may write there, and no part of its address space is
there. -/
structure StackAt (s : Services) (stack : UserStack) (tables : List ℕ) : Prop where
  space : AddressSpace s.mem s.directory tables
  high_lt : stack.high < 2 ^ 32
  translate : ∀ virt, stack.Has virt 1 → translate s.mem s.directory virt = stack.byte virt
  writable : ∀ virt, stack.Has virt 1 → UserWritable (pageEntry s.mem s.directory virt)
  directory : ∀ x, stack.Covers x → ¬ InBlock s.directory x
  tables : ∀ x, stack.Covers x → ¬ InTables tables x

variable {s s' : Services} {r : UserProgram} {mem : Mem} {tables : List ℕ} {code : List Instruction}
  {f : Isr80hCommand} {commands : Isr80hCommand → Services → Option (ℕ × Services)}
  {addFlags : ℕ → ℕ → ℕ} {stack : UserStack} {virt i n x : ℕ}

/-- Writes to the stack leave it where it is. -/
lemma StackAt.withMem (h : StackAt s stack tables)
    (hsame : ∀ x, ¬ stack.Covers x → mem x = s.mem x) : StackAt (s.withMem mem) stack tables := by
  rcases h.space.same (fun x hx => hsame x fun hin => h.directory x hin hx)
    (fun x hx => hsame x fun hin => h.tables x hin hx) with ⟨hspace, hpages⟩
  have hentry : ∀ virt, stack.Has virt 1 →
      pageEntry mem s.directory virt = pageEntry s.mem s.directory virt := by
    intro virt hv
    have hhigh := h.high_lt
    have hlt := hv.le_high
    rw [pageEntry_eq_pageAt, pageEntry_eq_pageAt, hpages _ (by omega)]
  refine ⟨hspace, h.high_lt, fun virt hv => ?_, fun virt hv => ?_, h.directory, h.tables⟩
  · have htranslate := h.translate virt hv
    unfold MarrowOS.translate at htranslate ⊢
    rw [← htranslate]
    exact congrArg (fun entry => entryAddress entry + virt % 4096) (hentry virt hv)
  · have hwritable := h.writable virt hv
    rw [← hentry virt hv] at hwritable
    exact hwritable

lemma StackAt.congr (h : StackAt s stack tables) (hmem : s'.mem = s.mem)
    (hdirectory : s'.directory = s.directory) : StackAt s' stack tables := by
  refine ⟨?_, h.high_lt, fun virt hv => ?_, fun virt hv => ?_, ?_, h.tables⟩
  · rw [hmem, hdirectory]
    exact h.space
  · rw [hmem, hdirectory]
    exact h.translate virt hv
  · rw [hmem, hdirectory]
    exact h.writable virt hv
  · rw [hdirectory]
    exact h.directory

lemma StackAt.userLoad (h : StackAt s stack tables) (hv : stack.Has virt 1) :
    s.userLoad virt = some (s.mem (stack.byte virt)) := by
  rcases h.writable virt hv with ⟨hpresent, haccess, -⟩
  unfold Services.userLoad
  dsimp only
  rw [if_pos ⟨hpresent, haccess⟩, h.translate virt hv]

/-- The kernel finds the stack where the program does. -/
lemma StackAt.load (h : StackAt s stack tables) (hv : stack.Has virt 1) :
    (ActivePage.task s.directory).load s.mem virt = some (s.mem (stack.byte virt)) := by
  have hphysical : (ActivePage.task s.directory).physical s.mem virt = some (stack.byte virt) := by
    unfold ActivePage.physical
    dsimp only
    rw [if_pos (h.writable virt hv).1, h.translate virt hv]
  rw [ActivePage.load, hphysical]
  rfl

lemma StackAt.userStore (h : StackAt s stack tables) (hv : stack.Has virt 1) (c : UInt8) :
    s.userStore virt c = some (s.withMem (Function.update s.mem (stack.byte virt) c)) := by
  unfold Services.userStore
  rw [if_pos (h.writable virt hv), h.translate virt hv]

/-- Bytes of the stack lie behind each other. -/
lemma UserStack.Has.byte (hv : stack.Has virt n) (hhigh : stack.high < 2 ^ 32) (hi : i < n) :
    stack.Has (virt + i) 1 ∧ u32 ((virt : ℤ) + i) = virt + i ∧
      stack.byte (virt + i) = stack.byte virt + i := by
  have hlow := hv.low_le
  have hle := hv.le_high
  refine ⟨⟨by omega, by omega⟩, ?_, ?_⟩
  · rw [← Nat.cast_add, u32_natCast_of_lt (by omega)]
  · unfold UserStack.byte
    omega

/-- What does not belong to the stack is not among these bytes of it. -/
lemma UserStack.Has.outside (hv : stack.Has virt n) (hx : ¬ stack.Covers x) :
    x < stack.byte virt ∨ stack.byte virt + n ≤ x := by
  have hlow := hv.low_le
  have hle := hv.le_high
  unfold UserStack.Covers at hx
  unfold UserStack.byte
  omega

lemma StackAt.loadWord (h : StackAt s stack tables) (hv : stack.Has virt 4) :
    loadWord s.userLoad virt = some (readU32 s.mem (stack.byte virt)) := by
  have hhigh := h.high_lt
  have hle := hv.le_high
  apply loadWord_eq _ (by omega)
  intro i hi
  rcases hv.byte hhigh hi with ⟨hbyte, hu, hphys⟩
  rw [hu, h.userLoad hbyte, hphys]

/-- Bytes that are stored one after the other. -/
lemma StackAt.foldlM_userStore (h : StackAt s stack tables) (hv : stack.Has virt 4) (word : ℕ) :
    ∀ n ≤ 4,
      (List.range n).foldlM (fun s (i : ℕ) => s.userStore (u32 (virt + i)) (byteOf word i)) s =
        some (s.withMem (writeBytes s.mem (stack.byte virt)
          ((List.range n).map (byteOf word)))) := by
  intro n
  induction n with
  | zero =>
    intro _
    rw [List.range_zero, List.map_nil, writeBytes_nil]
    rfl
  | succ n ih =>
    intro hn
    rcases hv.byte h.high_lt hn with ⟨hbyte, hu, hphys⟩
    have hlength : ((List.range n).map (byteOf word)).length = n := by
      rw [List.length_map, List.length_range]
    have hstack : StackAt (s.withMem (writeBytes s.mem (stack.byte virt)
        ((List.range n).map (byteOf word)))) stack tables := by
      refine h.withMem fun x hx => writeBytes_of_outside ?_
      have hout := hv.outside hx
      omega
    have hstore := hstack.userStore hbyte (byteOf word n)
    have hconcat := @writeBytes_concat s.mem (stack.byte virt) ((List.range n).map (byteOf word))
      (byteOf word n)
    rw [hlength] at hconcat
    rw [hphys] at hstore
    rw [List.range_succ, List.foldlM_append, ih (by omega), List.map_append, List.map_singleton,
      ← hconcat, Option.bind_eq_bind, Option.bind_some, List.foldlM_cons, hu, hstore,
      Option.bind_eq_bind, Option.bind_some, List.foldlM_nil, Services.withMem_mem,
      Services.withMem_withMem]
    rfl

lemma StackAt.userStoreWord (h : StackAt s stack tables) (hv : stack.Has virt 4) (word : ℕ) :
    s.userStoreWord virt word = some (s.withMem (writeU32 s.mem (stack.byte virt) word)) := by
  rw [← writeBytes_word]
  exact h.foldlM_userStore hv word 4 le_rfl

/-! ## Instructions -/

lemma StackAt.push (h : StackAt r.services stack tables) (hv : stack.Has (r.cpu.esp - 4) 4)
    (hroom : 4 ≤ r.cpu.esp) (word : ℕ) : r.push word = some
      ⟨{ r.cpu with esp := r.cpu.esp - 4 },
        r.services.withMem (writeU32 r.services.mem (stack.byte (r.cpu.esp - 4)) word)⟩ := by
  have hhigh := h.high_lt
  have hle := hv.le_high
  have hu : u32 ((r.cpu.esp : ℤ) - 4) = r.cpu.esp - 4 := by
    rw [show (r.cpu.esp : ℤ) - 4 = (r.cpu.esp - 4 : ℕ) by omega, u32_natCast_of_lt (by omega)]
  rw [UserProgram.push, hu, h.userStoreWord hv]
  rfl

lemma StackAt.pop (h : StackAt r.services stack tables) (hv : stack.Has r.cpu.esp 4) :
    r.pop = some (readU32 r.services.mem (stack.byte r.cpu.esp),
      { r with cpu := { r.cpu with esp := r.cpu.esp + 4 } }) := by
  have hhigh := h.high_lt
  have hle := hv.le_high
  have hu : u32 ((r.cpu.esp : ℤ) + 4) = r.cpu.esp + 4 := by
    rw [show (r.cpu.esp : ℤ) + 4 = (r.cpu.esp + 4 : ℕ) by omega, u32_natCast_of_lt (by omega)]
  rw [UserProgram.pop, h.loadWord hv, hu]
  rfl

/-- `push dword [ebp+8]`, with the word on the stack. -/
lemma StackAt.pushDword (h : StackAt r.services stack tables) (hv : stack.Has (r.cpu.ebp + 8) 4) :
    r.exec commands addFlags (.pushDword .ebp 8) =
      r.push (readU32 r.services.mem (stack.byte (r.cpu.ebp + 8))) := by
  have hhigh := h.high_lt
  have hle := hv.le_high
  have hu : u32 ((r.cpu.ebp : ℤ) + (8 : ℕ)) = r.cpu.ebp + 8 := by
    rw [← Nat.cast_add, u32_natCast_of_lt (by omega)]
  show (MarrowOS.loadWord r.services.userLoad (u32 ((r.cpu.ebp : ℤ) + (8 : ℕ)))).bind _ = _
  rw [hu, h.loadWord hv, Option.bind_some]

lemma execAll_cons (instruction : Instruction) : r.execAll commands addFlags (instruction :: code) =
    (r.exec commands addFlags instruction).bind (UserProgram.execAll commands addFlags code) := by
  rw [UserProgram.execAll, List.foldlM_cons]
  rfl

lemma exec_add {cpu : Registers} (dest : Reg) (value : ℕ) :
    UserProgram.exec commands addFlags ⟨cpu, s⟩ (.add dest value) =
      some ⟨{ cpu.set (u32 ((cpu.get dest : ℤ) + value)) dest with
        flags := addFlags (cpu.get dest) value }, s⟩ := rfl

lemma exec_pop (dest : Reg) : r.exec commands addFlags (.pop dest) =
    r.pop.map fun x => { x.2 with cpu := x.2.cpu.set x.1 dest } := by
  unfold UserProgram.exec
  cases r.pop <;> rfl

lemma exec_ret : r.exec commands addFlags .ret =
    r.pop.map fun x => { x.2 with cpu := { x.2.cpu with ip := x.1 } } := by
  unfold UserProgram.exec
  cases r.pop <;> rfl

/-! ## Into the kernel -/

/-- The kernel with the registers of the current task saved. -/
def Services.saved (s : Services) (cpu : Registers) : Services :=
  { s with kernel := { s.kernel with
      tasks := s.kernel.tasks.write s.task
        { s.kernel.tasks.tasks s.task with registers := cpu } } }

@[simp] lemma Services.saved_task (s : Services) (cpu : Registers) :
    (s.saved cpu).task = s.task := rfl

lemma Services.saved_tasks (s : Services) (cpu : Registers) :
    (s.saved cpu).kernel.tasks.tasks s.task =
      { s.kernel.tasks.tasks s.task with registers := cpu } := Function.update_self ..

@[simp] lemma Services.saved_directory (s : Services) (cpu : Registers) :
    (s.saved cpu).directory = s.directory := by
  unfold Services.directory
  rw [Services.saved_task, Services.saved_tasks]

/-- `int 0x80` calls the function of the system call. -/
lemma isr80h_eq (htask : r.services.task ≠ 0)
    (hf : isr80hCommandFunc bootCommands (i32 r.cpu.eax) = some f) :
    r.isr80h commands = (commands f (r.services.saved r.cpu)).map fun x =>
      ⟨{ r.cpu with eax := x.1 }, x.2⟩ := by
  unfold UserProgram.isr80h
  rw [hf]
  show (if r.services.task = 0 then _ else _) = _
  rw [if_neg htask]
  show Option.bind (commands f (r.services.saved r.cpu)) _ = _
  cases commands f (r.services.saved r.cpu) <;> rfl

/-- The items of the stack. -/
lemma StackAt.taskGetStackItem (h : StackAt s stack tables) {cpu : Registers}
    (hv : stack.Has (cpu.esp + 4 * i) 4) :
    taskGetStackItem s.task i (s.saved cpu).kernel =
      some (readU32 s.mem (stack.byte (cpu.esp + 4 * i))) := by
  have hhigh := h.high_lt
  have hle := hv.le_high
  have hu : u32 ((cpu.esp : ℤ) + 4 * (i : ℕ)) = cpu.esp + 4 * i := by
    rw [show (cpu.esp : ℤ) + 4 * (i : ℕ) = (cpu.esp + 4 * i : ℕ) by omega,
      u32_natCast_of_lt (by omega)]
  unfold MarrowOS.taskGetStackItem
  rw [Services.saved_tasks]
  dsimp only
  rw [hu]
  apply loadWord_eq _ (by omega)
  intro j hj
  rcases hv.byte hhigh hj with ⟨hbyte, hu, hphys⟩
  rw [hu, ← hphys]
  exact h.load hbyte

end MarrowOS
