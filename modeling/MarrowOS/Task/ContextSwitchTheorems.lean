import MarrowOS.Task.ContextSwitch
import MarrowOS.Task.TaskListTheorems

/-!
# Context switches are transparent

The frame that an entry into the kernel leaves and the structure that `task_return` loads hold the
same registers, and `current_task` is always the task that runs, so a task that is entered again
goes on with the registers it was interrupted with (`contextSwitch_transparent`).
-/

namespace MarrowOS

open Links Runs

/-- The registers of a frame. -/
def InterruptFrame.registers (frame : InterruptFrame) : Registers :=
  { edi := frame.edi, esi := frame.esi, ebp := frame.ebp, ebx := frame.ebx, edx := frame.edx,
    ecx := frame.ecx, eax := frame.eax, ip := frame.ip, cs := frame.cs, flags := frame.flags,
    esp := frame.esp, ss := frame.ss }

/-- The registers that were taken from a task last: those of its last frame, before the first one
those it was created with. -/
def CpuRun.left (r : CpuRun) (task : ℕ) : Registers :=
  match r.frames task with
  | some frame => frame.registers
  | none => r.initial task

/-- The registers a task is to go on with: the same, with interrupts enabled. -/
def CpuRun.resumes (r : CpuRun) (task : ℕ) : Registers :=
  { r.left task with flags := (r.left task).flags ||| flagsIf }

/-- The current task is the one that runs, and a task entered goes on where it was. -/
structure Transparent (r : CpuRun) : Prop where
  current : r.tasks.list.currentTask = r.running
  entered : ∀ task cpu, r.entered = some (task, cpu) → cpu = r.resumes task

/-! ## The two layouts -/

/-- The frame has the registers of the interrupted code. -/
lemma interruptFrameAt_entry (cpu : Registers) :
    ∃ frame, interruptFrameAt (interruptEntry cpu) = some frame ∧ frame.registers = cpu :=
  ⟨_, rfl, rfl⟩

lemma interruptReturn_entry (cpu : Registers) : interruptReturn (interruptEntry cpu) = some cpu :=
  rfl

lemma taskReturn_eq (regs cpu : Registers) :
    taskReturn regs cpu = some { regs with flags := regs.flags ||| flagsIf } := rfl

lemma taskSaveState_registers (task : ℕ) (frame : InterruptFrame) (s : TaskList) (x : ℕ) :
    ((taskSaveState task frame s).tasks x).registers =
      if x = task then frame.registers else (s.tasks x).registers := by
  simp only [taskSaveState, TaskList.write, Function.update_apply]
  split <;> rfl

lemma taskSaveState_next (task : ℕ) (frame : InterruptFrame) (s : TaskList) :
    (taskSaveState task frame s).next = s.next := by
  simp only [taskSaveState, TaskList.write_next]
  exact Function.update_eq_self task s.next

lemma taskSaveState_prev (task : ℕ) (frame : InterruptFrame) (s : TaskList) :
    (taskSaveState task frame s).prev = s.prev := by
  simp only [taskSaveState, TaskList.write_prev]
  exact Function.update_eq_self task s.prev

/-- Saving registers leaves the list alone. -/
lemma TaskListOk.taskSaveState {r : TaskRun} (h : TaskListOk r) (task : ℕ)
    (frame : InterruptFrame) :
    TaskListOk { r with list := taskSaveState task frame r.list } := by
  refine .of_links h.distinct ?_ ?_ h.tail h.current
  · rw [taskSaveState_next]
    exact h.forward
  · rw [taskSaveState_prev]
    exact h.backward

section
variable (s : TaskList) (a x : ℕ)

lemma setNext_registers (b : ℕ) : ((s.setNext a x).tasks b).registers = (s.tasks b).registers := by
  simp only [TaskList.setNext, TaskList.write, Function.update_apply]
  split
  · rename_i hb
    rw [hb]
  · rfl

lemma setPrev_registers (b : ℕ) : ((s.setPrev a x).tasks b).registers = (s.tasks b).registers := by
  simp only [TaskList.setPrev, TaskList.write, Function.update_apply]
  split
  · rename_i hb
    rw [hb]
  · rfl

lemma taskNewLink_registers (pageDirectory : Paging4gbChunk) (registers : Registers)
    (process b : ℕ) :
    ((taskNewLink a pageDirectory registers process s).tasks b).registers =
      if b = a then registers else (s.tasks b).registers := by
  have hwrite : ((s.write a ⟨pageDirectory, registers, process, 0, 0⟩).tasks b).registers =
      if b = a then registers else (s.tasks b).registers := by
    simp only [TaskList.write, Function.update_apply]
    split <;> rfl
  by_cases hhead : s.taskHead = 0
  · have hnew : taskNewLink a pageDirectory registers process s =
        { s.write a ⟨pageDirectory, registers, process, 0, 0⟩ with
          taskHead := a, taskTail := a, currentTask := a } := by
      simp [taskNewLink, hhead]
    rw [hnew]
    exact hwrite
  · have hnew : taskNewLink a pageDirectory registers process s =
        { ((s.write a ⟨pageDirectory, registers, process, 0, 0⟩).setNext s.taskTail a).setPrev a
            s.taskTail with taskTail := a } := by
      simp [taskNewLink, hhead]
    rw [hnew, ← hwrite]
    show ((((s.write a ⟨pageDirectory, registers, process, 0, 0⟩).setNext s.taskTail a).setPrev a
      s.taskTail).tasks b).registers = _
    rw [setPrev_registers, setNext_registers]

end

/-! ## The invariant -/

/-- In the kernel the structure of every live task holds the registers the task left. -/
structure AllSaved (r : CpuRun) : Prop where
  ok : TaskListOk r.tasks
  saved : ∀ t ∈ r.tasks.live, (r.tasks.list.tasks t).registers = r.left t
  framesLive : ∀ t, r.frames t ≠ none → t ∈ r.tasks.live

/-- In user mode the structures of the other tasks do, and the current task is the one that
runs. -/
structure ContextInv (r : CpuRun) : Prop where
  ok : TaskListOk r.tasks
  live : r.tasks.live ≠ []
  saved : ∀ t ∈ r.tasks.live, t ≠ r.running → (r.tasks.list.tasks t).registers = r.left t
  framesLive : ∀ t, r.frames t ≠ none → t ∈ r.tasks.live
  current : r.tasks.list.currentTask = r.running
  entered : ∀ task cpu, r.entered = some (task, cpu) → cpu = r.resumes task

variable {r r' : CpuRun}

lemma ContextInv.transparent (h : ContextInv r) : Transparent r := ⟨h.current, h.entered⟩

lemma ContextInv.running_mem (h : ContextInv r) : r.running ∈ r.tasks.live := by
  have hcurrent := h.ok.current
  rw [if_neg h.live, h.current] at hcurrent
  exact hcurrent

/-- On the way back to the interrupted code nothing changed but the registers. -/
lemma AllSaved.contextInv (h : AllSaved r) (hlive : r.tasks.live ≠ [])
    (hcurrent : r.tasks.list.currentTask = r.running) (hentered : r.entered = none)
    (cpu : Registers) : ContextInv { r with cpu } := by
  refine ⟨h.ok, hlive, fun t ht _ => h.saved t ht, h.framesLive, hcurrent, ?_⟩
  intro task cpu' hsome
  exact absurd (hentered.symm.trans hsome) (by simp)

/-- The frame of the running task takes its place. -/
lemma left_update (frame : InterruptFrame) (t : ℕ) :
    CpuRun.left { r with frames := Function.update r.frames r.running (some frame) } t =
      if t = r.running then frame.registers else r.left t := by
  unfold CpuRun.left
  by_cases ht : t = r.running
  · subst ht
    simp only [if_pos, Function.update_self]
  · simp only [if_neg ht, Function.update_of_ne ht]

lemma ContextInv.enterKernel (h : ContextInv r) :
    ∃ r', r.enterKernel = some (interruptEntry r.cpu, r') ∧ AllSaved r' ∧ r'.tasks.live ≠ [] ∧
      r'.tasks.list.currentTask = r'.running ∧ r'.entered = none := by
  rcases interruptFrameAt_entry r.cpu with ⟨frame, hframe, hregisters⟩
  have hrunning := h.running_mem
  have h0 : r.tasks.list.currentTask ≠ 0 := by
    rw [h.current]
    exact h.ok.forward.ne_nil hrunning
  refine ⟨{ r with
      tasks := { r.tasks with list := taskSaveState r.tasks.list.currentTask frame r.tasks.list }
      frames := Function.update r.frames r.running (some frame)
      entered := none }, ?_, ?_⟩
  · unfold CpuRun.enterKernel
    simp only [hframe]
    exact if_neg h0
  refine ⟨⟨h.ok.taskSaveState _ frame, ?_, ?_⟩, h.live, h.current, rfl⟩
  · intro t ht
    show ((taskSaveState r.tasks.list.currentTask frame r.tasks.list).tasks t).registers =
      CpuRun.left { r with frames := Function.update r.frames r.running (some frame) } t
    rw [taskSaveState_registers, left_update, h.current]
    split
    · rfl
    · exact h.saved t ht ‹_›
  · intro t ht
    by_cases heq : t = r.running
    · rw [heq]
      exact hrunning
    · have ht : Function.update r.frames r.running (some frame) t ≠ none := ht
      rw [Function.update_of_ne heq] at ht
      exact h.framesLive t ht

/-- A new task has the registers of `task_init`, the others keep theirs. -/
lemma AllSaved.taskNew {new : NewTask} (h : AllSaved r) (hnew : r.taskNew new = some r') :
    AllSaved r' ∧ new.task ∈ r'.tasks.live ∧ r'.entered = r.entered ∧ r'.running = r.running ∧
      (r.tasks.live ≠ [] → r'.tasks.list.currentTask = r.tasks.list.currentTask) := by
  rcases Option.bind_eq_some_iff.mp hnew with ⟨tasks, htasks, hr'⟩
  have hfrees : FreesLast r.tasks (.taskNew new.task new.pageDirectory
      (taskInitRegisters new.elfEntry) new.process) := trivial
  have hok := h.ok.step hfrees htasks
  have hr' := Option.some.inj hr'
  rw [taskStep] at htasks
  split at htasks
  · rename_i hfresh
    have htasks := Option.some.inj htasks
    subst htasks
    subst hr'
    refine ⟨⟨hok, ?_, ?_⟩, List.mem_append_right _ List.mem_cons_self, rfl, rfl, ?_⟩
    · intro t ht
      show ((taskNewLink new.task new.pageDirectory (taskInitRegisters new.elfEntry) new.process
        r.tasks.list).tasks t).registers = _
      rw [taskNewLink_registers]
      by_cases heq : t = new.task
      · have hnone : r.frames t = none := by
          by_contra hne
          exact hfresh.2 (heq ▸ h.framesLive t hne)
        rw [if_pos heq]
        unfold CpuRun.left
        simp only [hnone]
        rw [heq, Function.update_self]
      · have hlive : t ∈ r.tasks.live := by
          rcases List.mem_append.mp ht with hlive | hmem
          · exact hlive
          · exact absurd (List.mem_singleton.mp hmem) heq
        rw [if_neg heq, h.saved t hlive]
        unfold CpuRun.left
        simp only [Function.update_of_ne heq]
    · intro t ht
      exact List.mem_append_left _ (h.framesLive t ht)
    · intro hlive
      apply taskNewLink_currentTask
      rwa [Ne, h.ok.head_eq_zero_iff]
  · exact absurd htasks (by simp)

/-- `task_return` enters a task with the registers it left. -/
lemma AllSaved.switchTo {task : ℕ} (h : AllSaved r) (htask : task ∈ r.tasks.live) :
    ∃ r', r.switchTo task = some r' ∧ ContextInv r' := by
  have hlive : r.tasks.live ≠ [] := List.ne_nil_of_mem htask
  have hsaved := h.saved task htask
  refine ⟨_, rfl, ?_, hlive, fun t ht _ => h.saved t ht, h.framesLive, rfl, ?_⟩
  · refine .of_links h.ok.distinct h.ok.forward h.ok.backward h.ok.tail ?_
    rw [if_neg hlive]
    exact htask
  · intro t cpu hentered
    have hpair := Option.some.inj hentered
    rw [← (Prod.mk.inj hpair).1, ← (Prod.mk.inj hpair).2]
    show ({ (r.tasks.list.tasks task).registers with
      flags := (r.tasks.list.tasks task).registers.flags ||| flagsIf } : Registers) = _
    rw [hsaved]
    rfl

/-! ## Runs -/

lemma cpuStep_inv {op : CpuOp} (h : ContextInv r) (hstep : cpuStep r op = some r') :
    ContextInv r' := by
  rcases h.enterKernel with ⟨k, henter, hsaved, hlive, hcurrent, hentered⟩
  cases op with
  | user cpu =>
    rw [← Option.some.inj hstep]
    refine ⟨h.ok, h.live, h.saved, h.framesLive, h.current, ?_⟩
    intro task cpu' hsome
    exact absurd hsome (by simp)
  -- the clock goes on with the next task
  | idtClock =>
    rw [cpuStep, henter] at hstep
    have hnext : taskGetNext k.tasks.list ∈ k.tasks.live := hsaved.ok.getNext_mem hlive
    have hnext0 : taskGetNext k.tasks.list ≠ 0 := hsaved.ok.forward.ne_nil hnext
    rcases hsaved.switchTo hnext with ⟨u, hu, hinv⟩
    have hstep : (if taskGetNext k.tasks.list = 0 then none
      else k.switchTo (taskGetNext k.tasks.list)) = some r' := hstep
    rw [if_neg hnext0, hu] at hstep
    rw [← Option.some.inj hstep]
    exact hinv
  | interrupt =>
    rw [cpuStep, henter] at hstep
    rw [← Option.some.inj hstep]
    exact hsaved.contextInv hlive hcurrent hentered _
  -- a system call may create a task, but returns to the one that called
  | isr80h created result =>
    rw [cpuStep, henter] at hstep
    cases created with
    | none =>
      rw [← Option.some.inj hstep]
      exact hsaved.contextInv hlive hcurrent hentered _
    | some new =>
      have hstep : ((k.taskNew new).bind fun k =>
          some { k with cpu := { r.cpu with eax := result } }) = some r' := hstep
      rcases Option.bind_eq_some_iff.mp hstep with ⟨u, hu, hrest⟩
      rcases hsaved.taskNew hu with ⟨hsaved', hmem, hentered', hrunning', hcurrent'⟩
      rw [← Option.some.inj hrest]
      refine hsaved'.contextInv (List.ne_nil_of_mem hmem) ?_ (hentered'.trans hentered) _
      rw [hcurrent' hlive, hcurrent, hrunning']
  | isr80hStart new =>
    rw [cpuStep, henter] at hstep
    have hstep : ((k.taskNew new).bind fun r => r.switchTo new.task) = some r' := hstep
    rcases Option.bind_eq_some_iff.mp hstep with ⟨u, hu, hrest⟩
    rcases hsaved.taskNew hu with ⟨hsaved', hmem, -⟩
    rcases hsaved'.switchTo hmem with ⟨v, hv, hinv⟩
    rw [← Option.some.inj (hv.symm.trans hrest)]
    exact hinv

lemma bootRun_inv {tasks : ℕ → Task} {cpu : Registers} {created : List NewTask}
    (hboot : bootRun tasks cpu created = some r) : ContextInv r := by
  rcases Option.bind_eq_some_iff.mp hboot with ⟨k, hk, hrun⟩
  -- the processes are loaded one after the other
  have hload : ∀ (created : List NewTask) (u : CpuRun), AllSaved u →
      created.foldlM CpuRun.taskNew u = some k → AllSaved k := by
    intro created
    induction created with
    | nil =>
      intro u hu hk
      rw [← Option.some.inj hk]
      exact hu
    | cons new created ih =>
      intro u hu hk
      rw [List.foldlM_cons] at hk
      rcases Option.bind_eq_some_iff.mp hk with ⟨v, hv, hrest⟩
      exact ih v (hu.taskNew hv).1 hrest
  have hsaved := hload created _
    ⟨emptyTaskRun_ok tasks, fun t ht => absurd ht List.not_mem_nil, fun t ht => absurd rfl ht⟩ hk
  have hrun : (if k.tasks.list.currentTask = 0 then none
    else k.switchTo k.tasks.list.taskHead) = some r := hrun
  split at hrun
  · exact absurd hrun (by simp)
  rename_i h0
  have hlive : k.tasks.live ≠ [] := by
    intro hnil
    have hcurrent := hsaved.ok.current
    rw [if_pos hnil] at hcurrent
    exact h0 hcurrent
  have hhead : k.tasks.list.taskHead ∈ k.tasks.live := by
    refine hsaved.ok.forward.start_mem.resolve_left ?_
    rwa [hsaved.ok.head_eq_zero_iff]
  rcases hsaved.switchTo hhead with ⟨u, hu, hinv⟩
  rw [← Option.some.inj (hu.symm.trans hrun)]
  exact hinv

/-- **Context switches.** After some processes were loaded and the first one was entered, whatever
the user's code, the clock, devices and system calls without an exit do: the current task is the
one that runs, and a task that is entered has the registers of its last frame, at first those of
`task_init`, with interrupts enabled. -/
theorem contextSwitch_transparent {tasks : ℕ → Task} {cpu : Registers} {created : List NewTask}
    {r : CpuRun} (hboot : bootRun tasks cpu created = some r) (ops : List CpuOp) :
    Throughout cpuStep Transparent r ops :=
  (throughout_of_meets (C := fun _ _ => True) (fun _ _ _ h _ hstep => cpuStep_inv h hstep)
    (bootRun_inv hboot) (meets_of_forall (fun _ _ => trivial) r ops)).imp fun _ h => h.transparent

/-- Two processes; the clock ticks twice, so that the first one is entered again. -/
theorem contextSwitch_transparent_twoProcesses :
    ∃ r, bootRun clearedTasks {} [⟨4096, ⟨0, 0⟩, 0, none⟩, ⟨8192, ⟨0, 0⟩, 0, some 4194304⟩] =
        some r ∧
      Throughout cpuStep Transparent r [.user { eax := 7 }, .idtClock, .idtClock] := by
  have hboot : (bootRun clearedTasks {} [⟨4096, ⟨0, 0⟩, 0, none⟩,
      ⟨8192, ⟨0, 0⟩, 0, some 4194304⟩]).isSome := rfl
  rcases Option.isSome_iff_exists.mp hboot with ⟨r, hr⟩
  exact ⟨r, hr, contextSwitch_transparent hr _⟩

end MarrowOS
