import MarrowOS.Isr80h.SystemCommand
import MarrowOS.Task.ArgumentTheorems
import MarrowOS.Task.FailedLoads

/-!
# When a system command comes to an end, and what it leaves

* `argumentWalk_ends_iff`: a list that leads back to one of its nodes keeps the kernel busy for
  ever.
* `systemCommand_atomic_iff`: a command that fails leaves processes and tasks as they were, unless
  it fails when the arguments are copied. The new process is then linked and current, and stays so.
-/

namespace MarrowOS

open ByteMem CInt Fallible FirstSlot Walks

variable {k k' : Kernel} {process process' : Process} {live : List Alloc} {file : LoadAnswers}
  {tables nodes list : List ℕ} {s s' : System} {n virtualAddress root ptr size argv : ℕ} {res : ℤ}
  {mem : Mem} {arguments arguments' : ProcessArguments}

lemma processLoadSwitchInto_forget (file : LoadAnswers) (s : System) :
    (processLoadSwitchInto file s).map (fun r => (r.1, r.2.2)) = processLoadSwitch file s := by
  unfold processLoadSwitchInto processLoadSwitch
  cases processLoad file s.kernel with
  | error fault => rfl
  | ok r =>
    rcases r with ⟨res, process, kernel⟩
    simp only [ok_bind]
    cases process with
    | none => split_ifs <;> rfl
    | some process => split_ifs <;> rfl

/-! ## The end of the walk -/

/-- The call comes to the arguments: they are not empty, and the program was loaded. -/
structure ArgumentsReached (file : LoadAnswers) (virtualAddress : ℕ) (s : System)
    (process : Process) (s' : System) : Prop where
  pointer : commandArguments virtualAddress s ≠ 0
  name : s.kernel.machine.mem (commandArguments virtualAddress s) ≠ 0
  loaded : ∃ res, ¬ res < 0 ∧ processLoadSwitchInto file s = .ok (res, some process, s')

/-- What the call answers without coming to the arguments: an error of its own, or that of the
load. -/
def AnsweredEarly (file : LoadAnswers) (s : System) (r : Except Fault (ℤ × System)) : Prop :=
  r = .ok (-einvarg, s) ∨ (∃ fault, r = .error fault) ∨
    ∃ res loaded s', res < 0 ∧ processLoadSwitchInto file s = .ok (res, loaded, s') ∧
      r = .ok (res, s')

/-- The call answers early or comes to the arguments. -/
lemma isr80hCommand7_cases (file : LoadAnswers) (virtualAddress : ℕ) (s : System) :
    (∃ r, AnsweredEarly file s r ∧
      ∀ n, isr80hCommand7InvokeSystemCommand n file virtualAddress s = some r) ∨
    ∃ process s', ArgumentsReached file virtualAddress s process s' := by
  unfold isr80hCommand7InvokeSystemCommand
  dsimp only
  by_cases hempty : commandArguments virtualAddress s = 0 ∨
      s.kernel.machine.mem (commandArguments virtualAddress s) = 0
  · simp only [if_pos hempty]
    exact Or.inl ⟨_, Or.inl rfl, fun _ => rfl⟩
  simp only [if_neg hempty]
  cases hload : processLoadSwitchInto file s with
  | error fault => exact Or.inl ⟨_, Or.inr (Or.inl ⟨fault, rfl⟩), fun _ => rfl⟩
  | ok r =>
    rcases r with ⟨res, process, s'⟩
    by_cases hres : res < 0
    · simp only [if_pos hres]
      exact Or.inl ⟨_, Or.inr (Or.inr ⟨res, process, s', hres, hload, rfl⟩), fun _ => rfl⟩
    cases process with
    | none =>
      simp only [if_neg hres]
      exact Or.inl ⟨_, Or.inr (Or.inl ⟨.nullPointer, rfl⟩), fun _ => rfl⟩
    | some process =>
      rcases not_or.mp hempty with ⟨hpointer, hname⟩
      exact Or.inr ⟨process, s', hpointer, hname, res, hres, hload⟩

/-- What is left to do then. -/
lemma ArgumentsReached.command (h : ArgumentsReached file virtualAddress s process s') (n : ℕ) :
    isr80hCommand7InvokeSystemCommand n file virtualAddress s =
      match processInjectArguments n process ⟨0, 0⟩ (commandArguments virtualAddress s)
        s'.kernel with
      | none => none
      | some (.error fault) => some (.error fault)
      | some (.ok (res, _, process, kernel)) =>
        let kernel := kernel.setProcess process.id process
        if res < 0 then some (.ok (res, { s' with kernel }))
        else
          let kernel := { kernel with tasks := taskSwitchCurrent process.task kernel.tasks }
          some (.ok (res, { s' with kernel })) := by
  obtain ⟨res, hres, hload⟩ := h.loaded
  unfold isr80hCommand7InvokeSystemCommand
  dsimp only
  rw [if_neg (not_or.mpr ⟨h.pointer, h.name⟩), hload]
  exact if_neg hres

/-- The call returns, or the new task runs, when the walk over the arguments ends. -/
lemma isr80hCommand7_returns (file : LoadAnswers) (virtualAddress : ℕ) (s : System) :
    (∃ n, (isr80hCommand7InvokeSystemCommand n file virtualAddress s).isSome) ↔
      ∀ process s', ArgumentsReached file virtualAddress s process s' →
        ArgumentsNeverReturn s'.kernel.machine.mem (commandArguments virtualAddress s) := by
  have hinner : ∀ process s', ArgumentsReached file virtualAddress s process s' →
      ∀ n, (isr80hCommand7InvokeSystemCommand n file virtualAddress s).isSome =
        (processInjectArguments n process ⟨0, 0⟩ (commandArguments virtualAddress s)
          s'.kernel).isSome := by
    intro process s' h n
    rw [h.command n]
    cases processInjectArguments n process ⟨0, 0⟩ (commandArguments virtualAddress s) s'.kernel with
    | none => rfl
    | some r =>
      rcases r with fault | ⟨res, arguments, process', kernel⟩
      · rfl
      · dsimp only
        split_ifs
        · rfl
        · rfl
  constructor
  · rintro ⟨n, hn⟩ process s' h
    rw [hinner process s' h n] at hn
    exact (processInjectArguments_returns _ _ _ _).mp ⟨n, hn⟩
  · intro hends
    rcases isr80hCommand7_cases file virtualAddress s with ⟨r, -, hr⟩ | ⟨process, s', h⟩
    · refine ⟨0, ?_⟩
      rw [hr 0]
      rfl
    · obtain ⟨n, hn⟩ :=
        (processInjectArguments_returns process ⟨0, 0⟩ _ _).mpr (hends process s' h)
      refine ⟨n, ?_⟩
      rw [hinner process s' h n]
      exact hn

/-- **The walk over the arguments ends**, and with it `process_inject_arguments` and the system
call, exactly when no node is reached again once it was left. -/
theorem argumentWalk_ends_iff (root : ℕ) (mem : Mem) (process : Process)
    (arguments : ProcessArguments) (k : Kernel) (file : LoadAnswers) (virtualAddress : ℕ)
    (s : System) :
    ((∃ n, (processCountCommandArguments n root mem).isSome) ↔ ArgumentsNeverReturn mem root) ∧
    ((∃ n, (processInjectArguments n process arguments root k).isSome) ↔
      ArgumentsNeverReturn k.machine.mem root) ∧
    ((∃ n, (isr80hCommand7InvokeSystemCommand n file virtualAddress s).isSome) ↔
      ∀ process s', ArgumentsReached file virtualAddress s process s' →
        ArgumentsNeverReturn s'.kernel.machine.mem (commandArguments virtualAddress s)) :=
  ⟨processCountCommandArguments_ends mem root,
    processInjectArguments_returns process arguments root k,
    isr80hCommand7_returns file virtualAddress s⟩

/-- A node at 4096 whose `next` is itself. -/
def loopMem : Mem := writeU32 (fun _ => 0) (4096 + sizeofArgument) 4096

/-- The count of such a list never comes to an end. -/
theorem argumentWalk_loopMem :
    ¬ ∃ n, (processCountCommandArguments n 4096 loopMem).isSome := by
  rw [processCountCommandArguments_ends]
  intro hnever
  have hnext : argumentStep loopMem 4096 = 4096 := by
    rw [argumentStep, if_neg (by decide), commandArgumentNext, loopMem,
      readU32_writeU32_self (by decide)]
  exact hnever 0 1 Nat.one_pos (by decide) hnext

/-! ## What a failed command leaves -/

/-- Table, task list, current task and current process are the same. -/
structure NothingStarted (list : List ℕ) (s s' : System) : Prop where
  processes : s'.kernel.processes = s.kernel.processes
  tasks : SameTasks list s.kernel.tasks s'.kernel.tasks
  currentProcess : s'.currentProcess = s.currentProcess

/-- Whenever the command returns an error, nothing was started. -/
def AtomicOnError (file : LoadAnswers) (virtualAddress : ℕ) (list : List ℕ) (s : System) : Prop :=
  ∀ n res s', isr80hCommand7InvokeSystemCommand n file virtualAddress s = some (.ok (res, s')) →
    res < 0 → NothingStarted list s s'

/-- The arguments that a program passes: a list in memory that was allocated. -/
structure UserArguments (live : List Alloc) (virtualAddress : ℕ) (s : System) (nodes : List ℕ) :
    Prop where
  chain : ArgumentChain s.kernel.machine.mem (commandArguments virtualAddress s) nodes
  fits : ∀ node ∈ nodes, node + sizeofCommandArgument ≤ 2 ^ 32
  apart : nodes.Pairwise fun a b =>
    a + sizeofCommandArgument ≤ b ∨ b + sizeofCommandArgument ≤ a
  live : ∀ node ∈ nodes, ∀ x, InNode node x → ∃ a ∈ live, a.Covers x

/-- If it comes to the arguments, there are at most 1023 of them, and the load has left a block for
each and one for `argv`. -/
def ArgumentsFit (file : LoadAnswers) (virtualAddress : ℕ) (s : System) (nodes : List ℕ) : Prop :=
  ∀ process s', ArgumentsReached file virtualAddress s process s' →
    nodes.length ≤ 1023 ∧ nodes.length + 1 ≤ freeBlocks s'.kernel.machine.heap.heap

/-! ### Copying arguments -/

/-- `process_malloc` changes allocations, heap and memory. -/
lemma processMalloc_frame (h : processMalloc process size k = .ok (ptr, process', k')) :
    k'.processes = k.processes ∧ process'.id = process.id := by
  have hid : process'.id = process.id := by
    rcases processMalloc_record h with ⟨-, rfl⟩ | ⟨-, i, a, -, -, rfl⟩
    · rfl
    · rfl
  refine ⟨?_, hid⟩
  unfold processMalloc at h
  rcases bind_eq_ok.mp h with ⟨⟨p, m⟩, -, h⟩
  dsimp only at h
  split_ifs at h
  · rw [← (Prod.mk.inj (Prod.mk.inj (Except.ok.inj h)).2).2]
    rfl
  · rw [← (Prod.mk.inj (Prod.mk.inj (Except.ok.inj h)).2).2]
    rfl
  · rw [← (Prod.mk.inj (Prod.mk.inj (Except.ok.inj h)).2).2]
    rfl
  · rw [← (Prod.mk.inj (Prod.mk.inj (Except.ok.inj h)).2).2]
    rfl

lemma processInjectArgumentsLoop_frame : ∀ {n current i : ℕ} {process : Process} {k : Kernel},
    processInjectArgumentsLoop argv n current i process k = some (.ok (res, process', k')) →
    k'.processes = k.processes ∧ process'.id = process.id := by
  intro n
  induction n with
  | zero =>
    intro current i process k h
    exact absurd h (by simp [processInjectArgumentsLoop])
  | succ n ih =>
    intro current i process k h
    rw [processInjectArgumentsLoop] at h
    by_cases h0 : current = 0
    · rw [if_pos h0] at h
      have hrest := (Prod.mk.inj (Except.ok.inj (Option.some.inj h))).2
      rw [← (Prod.mk.inj hrest).1, ← (Prod.mk.inj hrest).2]
      exact ⟨rfl, rfl⟩
    rw [if_neg h0] at h
    cases hmalloc : processMalloc process sizeofArgument k with
    | error fault =>
      rw [hmalloc] at h
      exact absurd h (by simp)
    | ok r =>
      rcases r with ⟨str, process₁, k₁⟩
      rcases processMalloc_frame hmalloc with ⟨hprocesses, hid⟩
      rw [hmalloc] at h
      dsimp only at h
      by_cases hstr : str = 0
      · rw [if_pos hstr] at h
        have hrest := (Prod.mk.inj (Except.ok.inj (Option.some.inj h))).2
        rw [← (Prod.mk.inj hrest).1, ← (Prod.mk.inj hrest).2]
        exact ⟨hprocesses, hid⟩
      · rw [if_neg hstr] at h
        obtain ⟨mem, hmem⟩ := Option.isSome_iff_exists.mp
          (strncpy_kernel_isSome str current sizeofArgument k₁.machine.mem)
        rw [hmem] at h
        rcases ih h with ⟨hprocesses', hid'⟩
        exact ⟨hprocesses'.trans hprocesses, hid'.trans hid⟩

lemma processInjectArguments_frame
    (h : processInjectArguments n process arguments root k =
      some (.ok (res, arguments', process', k'))) :
    k'.processes = k.processes ∧ process'.id = process.id := by
  unfold processInjectArguments at h
  cases hcount : processCountCommandArguments n root k.machine.mem with
  | none =>
    rw [hcount] at h
    exact absurd h (by simp)
  | some argc =>
    rw [hcount] at h
    dsimp only at h
    by_cases hzero : argc = 0
    · rw [if_pos hzero] at h
      have hrest := (Prod.mk.inj (Prod.mk.inj (Except.ok.inj (Option.some.inj h))).2).2
      rw [← (Prod.mk.inj hrest).1, ← (Prod.mk.inj hrest).2]
      exact ⟨rfl, rfl⟩
    rw [if_neg hzero] at h
    -- the array of pointers
    cases hmalloc : processMalloc process (u32 (4 * argc)) k with
    | error fault =>
      rw [hmalloc] at h
      exact absurd h (by simp)
    | ok r =>
      rcases r with ⟨argv, process₁, k₁⟩
      rcases processMalloc_frame hmalloc with ⟨hprocesses, hid⟩
      rw [hmalloc] at h
      dsimp only at h
      by_cases hargv : argv = 0
      · rw [if_pos hargv] at h
        have hrest := (Prod.mk.inj (Prod.mk.inj (Except.ok.inj (Option.some.inj h))).2).2
        rw [← (Prod.mk.inj hrest).1, ← (Prod.mk.inj hrest).2]
        exact ⟨hprocesses, hid⟩
      rw [if_neg hargv] at h
      -- the strings
      cases hloop : processInjectArgumentsLoop argv n root 0 process₁ k₁ with
      | none =>
        rw [hloop] at h
        exact absurd h (by simp)
      | some r =>
        rw [hloop] at h
        rcases r with fault | ⟨res', process₂, k₂⟩
        · exact absurd h (by simp)
        rcases processInjectArgumentsLoop_frame hloop with ⟨hprocesses', hid'⟩
        dsimp only at h
        have hrest : process₂ = process' ∧ k₂ = k' := by
          split_ifs at h
          · exact Prod.mk.inj
              (Prod.mk.inj (Prod.mk.inj (Except.ok.inj (Option.some.inj h))).2).2
          · exact Prod.mk.inj
              (Prod.mk.inj (Prod.mk.inj (Except.ok.inj (Option.some.inj h))).2).2
        rw [← hrest.1, ← hrest.2]
        exact ⟨hprocesses'.trans hprocesses, hid'.trans hid⟩

/-! ### Loading -/

/-- What `process_load` leaves: nothing that was not there before, or a process in a slot that was
free. -/
lemma processLoad_effect {loaded : Option Process} (h : k.Owns live)
    (hlist : TaskListOk ⟨k.tasks, list⟩) (hlive : ∀ t ∈ list, ⟨t, sizeofTask⟩ ∈ live)
    (hload : processLoad file k = .ok (res, loaded, k')) :
    (res < 0 ∧ k'.processes = k.processes ∧ SameTasks list k.tasks k'.tasks) ∨
    (res = 0 ∧ ∃ slot process chunk tables, loaded = some process ∧
      k.processes[slot]? = some none ∧ ProcessLoaded file slot live k k' process chunk tables) := by
  unfold processLoad processGetFreeSlot at hload
  cases hfirst : firstSlot (fun p : Option Process => p.isNone) k.processes with
  | none =>
    rw [hfirst] at hload
    dsimp only at hload
    rw [if_pos (by decide)] at hload
    rcases ok_triple_inj hload with ⟨rfl, -, rfl⟩
    exact Or.inl ⟨by decide, rfl, SameTasks.refl list k.tasks⟩
  | some r =>
    rcases r with ⟨slot, o⟩
    rw [hfirst] at hload
    dsimp only at hload
    rw [if_neg (by omega), Int.toNat_natCast] at hload
    rcases firstSlot_eq_some.mp hfirst with ⟨hslot, ho, -⟩
    rw [Option.isNone_iff_eq_none.mp ho] at hslot
    rcases processLoadForSlot_owns h hload with
      ⟨rfl, -, -, rfl⟩ | ⟨hnone, hfailed | ⟨hres, process, chunk, tables, hsome, hloaded⟩⟩
    · exact Or.inl ⟨by decide, rfl, SameTasks.refl list _⟩
    · have htrace := (processLoadForSlot_failed h hlist hlive hnone hload hfailed.error.neg).2
      exact Or.inl ⟨hfailed.error.neg, htrace.processes, htrace.tasks⟩
    · exact Or.inr ⟨hres, slot, process, chunk, tables, hsome, hslot, hloaded⟩

/-- A load that fails switches to no process. -/
lemma processLoadSwitchInto_failed {loaded : Option Process} (h : s.kernel.Owns live)
    (hlist : TaskListOk ⟨s.kernel.tasks, list⟩) (hlive : ∀ t ∈ list, ⟨t, sizeofTask⟩ ∈ live)
    (hload : processLoadSwitchInto file s = .ok (res, loaded, s')) (hres : res < 0) :
    NothingStarted list s s' := by
  unfold processLoadSwitchInto at hload
  rcases bind_eq_ok.mp hload with ⟨⟨res₁, process, kernel⟩, hprocess, hrest⟩
  have hkernel : res₁ = res ∧ s' = { s with kernel } := by
    cases process with
    | none =>
      dsimp only at hrest
      split_ifs at hrest
      rcases Prod.mk.inj (Except.ok.inj hrest) with ⟨heq, hs'⟩
      exact ⟨heq, (Prod.mk.inj hs').2.symm⟩
    | some process =>
      dsimp only at hrest
      split_ifs at hrest with hzero
      · have heq := (Prod.mk.inj (Except.ok.inj hrest)).1
        omega
      · rcases Prod.mk.inj (Except.ok.inj hrest) with ⟨heq, hs'⟩
        exact ⟨heq, (Prod.mk.inj hs').2.symm⟩
  rcases hkernel with ⟨rfl, rfl⟩
  rcases processLoad_effect h hlist hlive hprocess with ⟨-, hprocesses, htasks⟩ | ⟨hzero, -⟩
  · exact ⟨hprocesses, htasks, rfl⟩
  · omega

/-- What it leaves when it comes to the arguments. -/
lemma ArgumentsReached.processLoaded (hreached : ArgumentsReached file virtualAddress s process s')
    (h : s.kernel.Owns live) (hlist : TaskListOk ⟨s.kernel.tasks, list⟩)
    (hlive : ∀ t ∈ list, ⟨t, sizeofTask⟩ ∈ live) :
    ∃ slot chunk tables, s.kernel.processes[slot]? = some none ∧
      ProcessLoaded file slot live s.kernel s'.kernel process chunk tables := by
  obtain ⟨res, hres, hload⟩ := hreached.loaded
  unfold processLoadSwitchInto at hload
  rcases bind_eq_ok.mp hload with ⟨⟨res₁, process₁, kernel⟩, hprocess, hrest⟩
  have hkernel : res₁ = res ∧ process₁ = some process ∧ s'.kernel = kernel := by
    cases process₁ with
    | none =>
      dsimp only at hrest
      split_ifs at hrest
      exact absurd (Prod.mk.inj (Prod.mk.inj (Except.ok.inj hrest)).2).1 (by simp)
    | some process₁ =>
      dsimp only at hrest
      split_ifs at hrest
      · rcases Prod.mk.inj (Except.ok.inj hrest) with ⟨heq, hs'⟩
        exact ⟨heq, (Prod.mk.inj hs').1, by rw [← (Prod.mk.inj hs').2]; rfl⟩
      · rcases Prod.mk.inj (Except.ok.inj hrest) with ⟨heq, hs'⟩
        exact ⟨heq, (Prod.mk.inj hs').1, by rw [← (Prod.mk.inj hs').2]⟩
  rcases hkernel with ⟨rfl, rfl, rfl⟩
  rcases processLoad_effect h hlist hlive hprocess with
    ⟨hneg, -⟩ | ⟨-, slot, process', chunk, tables, hsome, hslot, hloaded⟩
  · exact absurd hneg hres
  · rw [← Option.some.inj hsome] at hloaded
    exact ⟨slot, chunk, tables, hslot, hloaded⟩

/-- All blocks, after the load. -/
def loadedBlocks (file : LoadAnswers) (live : List Alloc) (process : Process) (k : Kernel)
    (chunk : Paging4gbChunk) (tables : List ℕ) : List Alloc :=
  k.fileBlocks ++ (process.blocks file.elf.filesize chunk tables ++ live)

section
variable {slot : ℕ} {chunk : Paging4gbChunk}
  (hloaded : ProcessLoaded file slot live k k' process chunk tables)
include hloaded

lemma ProcessLoaded.space_mem {a : Alloc} (ha : a ∈ spaceAllocs chunk tables) :
    a ∈ process.blocks file.elf.filesize chunk tables := by
  unfold Process.blocks Process.taskBlocks
  rw [if_neg hloaded.task]
  exact List.mem_append_left _ (List.mem_append_left _ ha)

lemma ProcessLoaded.ownsSpace :
    OwnsSpace process k' (loadedBlocks file live process k' chunk tables) tables := by
  have hdirectory : k'.pageDirectory process = chunk := hloaded.pageDirectory
  refine ⟨hloaded.owns, ?_, ?_, fun a ha => ?_⟩
  · rw [hdirectory]
    exact hloaded.space
  · rw [hdirectory]
    exact List.mem_append_right _ (List.mem_append_left _
      (hloaded.space_mem (directory_mem chunk tables)))
  · exact List.mem_append_right _ (List.mem_append_left _
      (hloaded.space_mem (List.mem_cons_of_mem _ (List.mem_append_left _ ha))))

/-- The list that the program passed is still there. -/
lemma ProcessLoaded.argumentList
    (hargs : UserArguments live virtualAddress ⟨k, s.currentProcess⟩ nodes) :
    ArgumentList k' (loadedBlocks file live process k' chunk tables) tables
      (commandArguments virtualAddress ⟨k, s.currentProcess⟩) nodes := by
  refine ⟨hargs.chain.congr fun node hnode x hx => ?_, hargs.fits, hargs.apart,
    fun node hnode x hx => ?_⟩
  · obtain ⟨a, ha, hax⟩ := hargs.live node hnode x hx
    exact hloaded.keeps.same a ha x hax
  · obtain ⟨a, ha, hax⟩ := hargs.live node hnode x hx
    refine ⟨?_, Or.inr ⟨a, List.mem_append_right _ (List.mem_append_right _ ha), hax⟩⟩
    rintro ⟨t, ht, h₀, h₁⟩
    have hpage : (⟨t, 4096⟩ : Alloc) ∈ process.blocks file.elf.filesize chunk tables :=
      hloaded.space_mem (List.mem_cons_of_mem _ (List.mem_append_left _
        (List.mem_map.mpr ⟨t, ht, rfl⟩)))
    have hrest := (List.pairwise_append.mp
      (HeapOwns.before_or_behind hloaded.owns)).2.1
    have happart := (List.pairwise_append.mp hrest).2.2 _ hpage a ha
    have hone : blocksFor 4096 = 1 := by decide
    unfold Alloc.Covers at hax
    simp only [hone] at happart
    omega

end

/-! ### The whole command -/

/-- A walk that is not given enough steps does not end. -/
lemma ArgumentChain.steps : ∀ {nodes : List ℕ} {n current : ℕ} {i r : ℤ},
    ArgumentChain mem current nodes →
    processCountCommandArgumentsLoop mem n current i = some r → nodes.length < n := by
  intro nodes
  induction nodes with
  | nil =>
    intro n current i r _ hcount
    cases n with
    | zero => exact absurd hcount (by simp [processCountCommandArgumentsLoop])
    | succ n => exact Nat.succ_pos n
  | cons node nodes ih =>
    intro n current i r hchain hcount
    cases n with
    | zero => exact absurd hcount (by simp [processCountCommandArgumentsLoop])
    | succ n =>
      obtain ⟨rfl, hne, hrest⟩ := hchain
      rw [processCountCommandArgumentsLoop, if_neg hne] at hcount
      exact Nat.succ_lt_succ (ih hrest hcount)

section
variable (hreached : ArgumentsReached file virtualAddress s process s') (h : s.kernel.Owns live)
  (hlist : TaskListOk ⟨s.kernel.tasks, list⟩) (hlive : ∀ t ∈ list, ⟨t, sizeofTask⟩ ∈ live)
  (hargs : UserArguments live virtualAddress s nodes)
include hreached h hlist hlive hargs

/-- What becomes of the arguments, once the program is loaded. -/
lemma ArgumentsReached.inject (hn : nodes.length < n) :
    (nodes.length ≤ 1023 ∧ nodes.length + 1 ≤ freeBlocks s'.kernel.machine.heap.heap ∧
      ∃ arguments' process' k', processInjectArguments n process ⟨0, 0⟩
        (commandArguments virtualAddress s) s'.kernel =
          some (.ok (0, arguments', process', k'))) ∨
    ((1024 ≤ nodes.length ∨ freeBlocks s'.kernel.machine.heap.heap < nodes.length + 1) ∧
      ∃ process' k', processInjectArguments n process ⟨0, 0⟩
        (commandArguments virtualAddress s) s'.kernel =
          some (.ok (-enomem, ⟨0, 0⟩, process', k'))) := by
  obtain ⟨slot, chunk, tables, -, hloaded⟩ := hreached.processLoaded h hlist hlive
  have hne : nodes ≠ [] := by
    rintro rfl
    exact hreached.pointer hargs.chain
  rcases @processInjectArguments_cases _ _ _ _ _ _ _ ⟨0, 0⟩ hloaded.ownsSpace hloaded.allocations
    (hloaded.argumentList hargs) hne hn with
    ⟨hle, hblocks, arguments', process', k', live', hinject, -⟩ | hfail
  · exact Or.inl ⟨hle, hblocks, arguments', process', k', hinject⟩
  · exact Or.inr hfail

/-- With fewer steps there is no answer. -/
lemma ArgumentsReached.inject_none (hn : ¬ nodes.length < n) :
    processInjectArguments n process ⟨0, 0⟩ (commandArguments virtualAddress s) s'.kernel =
      none := by
  obtain ⟨slot, chunk, tables, -, hloaded⟩ := hreached.processLoaded h hlist hlive
  have hlist' := hloaded.argumentList hargs
  cases hcount : processCountCommandArguments n (commandArguments virtualAddress s)
      s'.kernel.machine.mem with
  | none => rw [processInjectArguments, hcount]
  | some argc => exact absurd (hlist'.chain.steps hcount) hn

omit hargs in
/-- The new process is in the table whether its arguments arrived or not. -/
lemma ArgumentsReached.started {arguments' : ProcessArguments} {k₁ : Kernel}
    (hinject : processInjectArguments n process ⟨0, 0⟩ (commandArguments virtualAddress s)
      s'.kernel = some (.ok (res, arguments', process', k₁))) :
    (k₁.setProcess process'.id process').processes ≠ s.kernel.processes := by
  obtain ⟨slot, chunk, tables, hslot, hloaded⟩ := hreached.processLoaded h hlist hlive
  rcases processInjectArguments_frame hinject with ⟨hprocesses, hid⟩
  have hlt := (List.getElem?_eq_some_iff.mp hslot).1
  have hentry : (k₁.setProcess process'.id process').processes[slot]? = some (some process') := by
    show (k₁.processes.set process'.id (some process'))[slot]? = _
    rw [hid, hloaded.id, hprocesses, hloaded.processes, List.getElem?_set_self]
    rw [List.length_set]
    exact hlt
  intro htable
  rw [htable, hslot] at hentry
  exact absurd (Option.some.inj hentry) (by simp)

end

/-- An early error starts nothing. -/
lemma AnsweredEarly.nothingStarted {r : Except Fault (ℤ × System)} (hearly : AnsweredEarly file s r)
    (h : s.kernel.Owns live) (hlist : TaskListOk ⟨s.kernel.tasks, list⟩)
    (hlive : ∀ t ∈ list, ⟨t, sizeofTask⟩ ∈ live) (hr : r = .ok (res, s')) :
    NothingStarted list s s' := by
  rcases hearly with hempty | ⟨fault, hfault⟩ | ⟨res', loaded, s₁, hres, hload, hr'⟩
  · rw [hr] at hempty
    rw [(Prod.mk.inj (Except.ok.inj hempty)).2]
    exact ⟨rfl, SameTasks.refl list _, rfl⟩
  · rw [hr] at hfault
    exact absurd hfault (by simp)
  · rw [hr] at hr'
    rw [(Prod.mk.inj (Except.ok.inj hr')).2]
    exact processLoadSwitchInto_failed h hlist hlive hload hres

/-- Otherwise the new process stays. -/
lemma AtomicOnError.argumentsFit (hatomic : AtomicOnError file virtualAddress list s)
    (h : s.kernel.Owns live) (hlist : TaskListOk ⟨s.kernel.tasks, list⟩)
    (hlive : ∀ t ∈ list, ⟨t, sizeofTask⟩ ∈ live)
    (hargs : UserArguments live virtualAddress s nodes) :
    ArgumentsFit file virtualAddress s nodes := by
  intro process s' hreached
  obtain ⟨n, hn⟩ : ∃ n, nodes.length < n := ⟨_, Nat.lt_succ_self _⟩
  rcases hreached.inject h hlist hlive hargs hn with
    ⟨hle, hblocks, -⟩ | ⟨-, process', k', hfail⟩
  · exact ⟨hle, hblocks⟩
  · exfalso
    have hcommand := hreached.command n
    rw [hfail] at hcommand
    dsimp only at hcommand
    rw [if_pos (by decide)] at hcommand
    exact hreached.started h hlist hlive hfail
      (hatomic _ _ _ hcommand (by decide)).processes

/-- **A command that fails starts nothing**, exactly when the arguments fit if it comes to them. -/
theorem systemCommand_atomic_iff (file : LoadAnswers) (virtualAddress : ℕ) (s : System)
    (h : s.kernel.Owns live) (hlist : TaskListOk ⟨s.kernel.tasks, list⟩)
    (hlive : ∀ t ∈ list, ⟨t, sizeofTask⟩ ∈ live)
    (hargs : UserArguments live virtualAddress s nodes) :
    AtomicOnError file virtualAddress list s ↔ ArgumentsFit file virtualAddress s nodes := by
  refine ⟨fun hatomic => hatomic.argumentsFit h hlist hlive hargs,
    fun hfit n res s'' hcommand hres => ?_⟩
  rcases isr80hCommand7_cases file virtualAddress s with
    ⟨r, hearly, hr⟩ | ⟨process, s', hreached⟩
  · exact hearly.nothingStarted h hlist hlive (Option.some.inj ((hr n).symm.trans hcommand))
  · -- the arguments arrive, and the new task runs
    exfalso
    rcases hfit process s' hreached with ⟨hle, hblocks⟩
    rw [hreached.command n] at hcommand
    by_cases hn : nodes.length < n
    · rcases hreached.inject h hlist hlive hargs hn with
        ⟨-, -, arguments', process', k', hinject⟩ | ⟨hwhy, -⟩
      · rw [hinject] at hcommand
        dsimp only at hcommand
        rw [if_neg (lt_irrefl 0)] at hcommand
        have hzero := (Prod.mk.inj (Except.ok.inj (Option.some.inj hcommand))).1
        omega
      · omega
    · rw [hreached.inject_none h hlist hlive hargs hn] at hcommand
      exact absurd hcommand (by simp)

/-! ### A program that passes a list -/

lemma ArgumentsReached.unique {process₁ process₂ : Process} {s₁ s₂ : System}
    (h₁ : ArgumentsReached file virtualAddress s process₁ s₁)
    (h₂ : ArgumentsReached file virtualAddress s process₂ s₂) : s₁ = s₂ := by
  obtain ⟨res₁, -, hload₁⟩ := h₁.loaded
  obtain ⟨res₂, -, hload₂⟩ := h₂.loaded
  exact (Prod.mk.inj (Prod.mk.inj (Except.ok.inj (hload₁.symm.trans hload₂))).2).2

/-- The current task passes the list at `root` in its own memory, and `c` blocks are free. -/
structure Calling (count c : ℕ) (s : System) (root task : ℕ) (live : List Alloc) : Prop where
  owns : s.kernel.Owns live
  list : TaskListOk ⟨s.kernel.tasks, [task]⟩
  task : ⟨task, sizeofTask⟩ ∈ live
  pointer : commandArguments root s = root
  root_ne : root ≠ 0
  arguments : UserArguments live root s (chainNodes root count)
  name : s.kernel.machine.mem root ≠ 0
  room : s.kernel.Room c
  processes : s.kernel.processes = List.replicate marrowosMaxProcesses none

lemma exists_calling {count c : ℕ} (hcount : 1 ≤ count)
    (hroom : c + 1027 + blocksFor (sizeofCommandArgument * count) = 25600) :
    ∃ s root task live, Calling count c s root task live := by
  obtain ⟨heap, root, howns, htail⟩ := exists_chainBlock hcount hroom
  -- the task
  have htail₀ : FreeTail (c + 1026 + blocksFor sizeofTask)
      (⟨heap, chainMem root count⟩ : Machine KernelHeap).heap.heap := htail
  obtain ⟨task, m₁, hkz, hne, -, htail₁⟩ := htail₀.kzalloc (by decide) (by decide)
  rcases kzalloc_owns (m := ⟨heap, chainMem root count⟩) howns (by decide) hkz with
    ⟨h0, -⟩ | ⟨hzero, -⟩ | ⟨-, -, hown₁, -, hfill⟩
  · exact absurd h0 hne
  · exact absurd hzero (by decide)
  -- its address space
  obtain ⟨chunk, m, hnew, htail₂⟩ := @pagingNew4gb_progress 7 c _ serves_freeTail m₁ htail₁
  obtain ⟨tables, hspace⟩ := pagingNew4gb_owns hown₁ (by decide) hnew
  have hroot : (⟨root, sizeofCommandArgument * count⟩ : Alloc) ∈
      [⟨task, sizeofTask⟩, ⟨root, sizeofCommandArgument * count⟩] :=
    List.mem_cons_of_mem _ (List.mem_singleton_self _)
  have hpos : 0 < root := howns.ptr_pos List.mem_cons_self
  have haligned : root % 4096 = 0 := howns.ptr_aligned List.mem_cons_self
  have hlt : root + 4096 ≤ 2 ^ 31 := howns.ptr_lt List.mem_cons_self
  have hsize := le_blocksFor_mul (sizeofCommandArgument * count)
  have hfits : root + sizeofCommandArgument * count ≤ 2 ^ 32 := by omega
  -- the list was written before the task and the address space, which lie elsewhere
  have hmem : ∀ x, root ≤ x → x < root + sizeofCommandArgument * count →
      m.mem x = chainMem root count x := by
    intro x h₀ h₁
    have hcovers : (⟨root, sizeofCommandArgument * count⟩ : Alloc).Covers x :=
      Alloc.covers_of_lt h₀ h₁
    rw [hspace.same _ hroot x hcovers, hfill]
    apply fill_of_outside
    by_contra hin
    have htask : (Alloc.mk task sizeofTask).Covers x := Alloc.covers_of_lt (by omega) (by omega)
    exact hown₁.not_covers_of_head htask (List.mem_singleton_self _) hcovers
  have htasks : (taskNewLink task chunk {} 0 (emptyTaskRun clearedTasks).list).currentTask =
      task := (taskNewLink_of_head_eq rfl).2.2.2.2
  have hdirectory := (taskNewLink_task task chunk {} 0 (emptyTaskRun clearedTasks).list task).2
  rw [if_pos rfl] at hdirectory
  -- every page is mapped to itself, so the pointer is the address
  have hpointer : pagingGetPhysicalAddress m.mem chunk.directoryEntry root = root := by
    rw [pagingGetPhysicalAddress_eq, translate, pageEntry_eq_pageAt,
      hspace.identity _ (by omega), entryAddress_or (by omega) (by omega) (by decide)]
    omega
  refine ⟨⟨⟨m, taskNewLink task chunk {} 0 (emptyTaskRun clearedTasks).list, [],
    List.replicate marrowosMaxProcesses none⟩, 0⟩, root, task,
    spaceAllocs chunk tables ++ [⟨task, sizeofTask⟩, ⟨root, sizeofCommandArgument * count⟩], ?_⟩
  have hcommand : commandArguments root ⟨⟨m, taskNewLink task chunk {} 0
      (emptyTaskRun clearedTasks).list, [], List.replicate marrowosMaxProcesses none⟩, 0⟩ =
      root := by
    unfold commandArguments taskVirtualAddressToPhysical
    dsimp only
    rw [htasks, hdirectory]
    exact hpointer
  refine ⟨hspace.owns, (emptyTaskRun_ok clearedTasks).taskNew_empty rfl hne,
    List.mem_append_right _ List.mem_cons_self, hcommand, hpos.ne', ⟨?_, fun node hnode => ?_,
      chainNodes_apart root count, fun node hnode x hx => ?_⟩, ?_, htail₂, rfl⟩
  · rw [hcommand]
    exact argumentChain_chainNodes hpos.ne' hcount hfits hmem
  · have hlast := (chainNodes_bounds hnode (x := node + 515)
      ⟨Nat.le_add_right _ _, Nat.add_lt_add_left (by decide) node⟩).2
    simp only [sizeofCommandArgument] at hlast hfits ⊢
    omega
  · rcases chainNodes_bounds hnode hx with ⟨h₀, h₁⟩
    exact ⟨_, List.mem_append_right _ hroot, Alloc.covers_of_lt h₀ h₁⟩
  · show m.mem root ≠ 0
    have hfirst : root < root + sizeofCommandArgument * count := by
      simp only [sizeofCommandArgument]
      omega
    rw [hmem root le_rfl hfirst]
    simp only [chainMem, Nat.sub_self, Nat.zero_mod, if_true]
    decide

/-- It starts a program of one byte. -/
lemma Calling.reached {count c task : ℕ} (h : Calling count (c + 1037) s root task live) :
    ∃ process s', ArgumentsReached ⟨oneByteFile, oneByteFile⟩ root s process s' ∧
      c ≤ freeBlocks s'.kernel.machine.heap.heap := by
  have hslot : processGetFreeSlot s.kernel = (0 : ℕ) := by
    unfold processGetFreeSlot
    rw [h.processes]
    rfl
  have hnone : (processGet s.kernel (0 : ℕ)).isNone := by
    unfold processGet
    rw [h.processes]
    rfl
  obtain ⟨process, k', chunk, tables, hload, -, d, hd, hroom⟩ :=
    processLoadForSlot_oneByteFile (n := c) h.owns hnone ⟨_, le_rfl, h.room⟩
  refine ⟨process, processSwitch process { s with kernel := k' }, ⟨?_, ?_, 0, lt_irrefl 0, ?_⟩, ?_⟩
  · rw [h.pointer]
    exact h.root_ne
  · rw [h.pointer]
    exact h.name
  · have hprocess :
        processLoad ⟨oneByteFile, oneByteFile⟩ s.kernel = .ok (0, some process, k') := by
      unfold processLoad
      rw [hslot]
      dsimp only
      rw [if_neg (by decide), Int.toNat_natCast]
      exact hload
    rw [processLoadSwitchInto, hprocess]
    rfl
  · show c ≤ freeBlocks k'.machine.heap.heap
    rw [FreeTail.freeBlocks_eq hroom]
    exact hd

/-- A program with one argument. -/
theorem systemCommand_atomic_one : ∃ s root task live,
    Calling 1 24572 s root task live ∧ AtomicOnError ⟨oneByteFile, oneByteFile⟩ root [task] s := by
  obtain ⟨s, root, task, live, h⟩ := @exists_calling 1 24572 (by decide) (by decide)
  refine ⟨s, root, task, live, h,
    (systemCommand_atomic_iff _ root s h.owns h.list ?_ h.arguments).mpr ?_⟩
  · intro t ht
    rw [List.mem_singleton.mp ht]
    exact h.task
  · intro process s' hreached
    have hroom : Calling 1 (23535 + 1037) s root task live := h
    obtain ⟨process₁, s₁, hreached₁, hfree⟩ := hroom.reached
    rw [hreached.unique hreached₁]
    exact ⟨show 1 ≤ 1023 by norm_num, show 1 + 1 ≤ _ by omega⟩

/-- With 1024 arguments the program is started and the call returns `-ENOMEM`. -/
theorem systemCommand_manyArguments : ∃ s root task live,
    Calling 1024 24444 s root task live ∧
      ¬ AtomicOnError ⟨oneByteFile, oneByteFile⟩ root [task] s := by
  obtain ⟨s, root, task, live, h⟩ := @exists_calling 1024 24444 (by decide) (by decide)
  refine ⟨s, root, task, live, h, fun hatomic => ?_⟩
  have hroom : Calling 1024 (23407 + 1037) s root task live := h
  obtain ⟨process, s', hreached, -⟩ := hroom.reached
  have hfit := hatomic.argumentsFit h.owns h.list (fun t ht => by
    rw [List.mem_singleton.mp ht]
    exact h.task) h.arguments process s' hreached
  have hlength : (chainNodes root 1024).length = 1024 := by
    rw [chainNodes, List.length_map, List.length_range]
  omega

end MarrowOS
