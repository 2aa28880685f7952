import MarrowOS.Idt.IdtTheorems
import MarrowOS.Task.ContextSwitchTheorems
import MarrowOS.Task.Traps

/-!
# No trap leaves a trace in another task

After boot, whatever vectors are taken and whatever system calls are made, the processor is back in
user mode with the user's segments and with the page directory of the current task, and a task that
is entered again goes on with the registers it left (`traps_transparent`). An error code shifts the
frame by a word; the registers that are saved then are those of a task that ends.
-/

namespace MarrowOS

open Links Runs

/-! ## The tables after boot -/

lemma bootCallbacks_apply (vector : ℕ) : bootCallbacks vector =
    if vector < 0x20 then some .idtHandleException
    else if vector = 0x20 then some .idtClock
    else if vector = 0x21 then some .classicKeyboardHandleInterrupt else none := by
  rw [bootCallbacks, idtRegisterInterruptCallback, if_neg (by decide)]
  show (Function.update _ (0x21 : ℕ) (some .classicKeyboardHandleInterrupt) :
    Callbacks InterruptCallback) vector = _
  rw [Function.update_apply, idtInitCallbacks_apply]
  split_ifs <;> first | rfl | omega

lemma bootCommands_apply (command : ℤ) :
    isr80hCommandFunc bootCommands command = isr80hRegistrations.lookup command := by
  rcases isr80hRegisterCommands_dispatch with ⟨t, ht, hdispatch⟩
  rw [bootCommands, ht]
  exact hdispatch command

/-! ## The invariant -/

/-- The user's code and stack segments. -/
def UserSegments (regs : Registers) : Prop := regs.cs = userCodeSegment ∧ regs.ss = userDataSegment

/-- The processor is in user mode, in the address space of the current task, and a task entered goes
on where it was. -/
structure TrapOk (r : TrapRun) : Prop where
  transparent : Transparent r.run
  live : r.run.running ∈ r.run.tasks.live
  segments : UserSegments r.run.cpu
  ds : r.ds = userDataSegment
  directory : r.directory = r.directoryOf r.run.running

/-- In the kernel: of the tasks but `T` the registers are those of user code. -/
structure TrapSaved (T : Option ℕ) (r : CpuRun) : Prop where
  saved : AllSaved r
  segments : ∀ t ∈ r.tasks.live, some t ≠ T → UserSegments (r.tasks.list.tasks t).registers

/-- In user mode. -/
structure TrapInv (r : TrapRun) : Prop where
  context : ContextInv r.run
  cpu : UserSegments r.run.cpu
  segments : ∀ t ∈ r.run.tasks.live, t ≠ r.run.running →
    UserSegments (r.run.tasks.list.tasks t).registers
  ds : r.ds = userDataSegment
  directory : r.directory = r.directoryOf r.run.running

variable {r r' : TrapRun} {u u' : CpuRun} {kernelDirectory : ℕ}

lemma TrapInv.ok (h : TrapInv r) : TrapOk r :=
  ⟨h.context.transparent, h.context.running_mem, h.cpu, h.ds, h.directory⟩

/-! ## Saving and freeing -/

/-- Whatever is on the stack: what is read from there takes the place of the registers of the
running task, and nothing else changes. -/
lemma ContextInv.taskCurrentSaveState (h : ContextInv u) {stack : List ℕ} {frame : InterruptFrame}
    (hframe : interruptFrameAt stack = some frame) :
    ∃ u', u.taskCurrentSaveState stack = some u' ∧ AllSaved u' ∧ u'.tasks.live = u.tasks.live ∧
      u'.tasks.list.currentTask = u.running ∧ u'.running = u.running ∧ u'.cpu = u.cpu ∧
      (∀ t, (u'.tasks.list.tasks t).registers =
        if t = u.running then frame.registers else (u.tasks.list.tasks t).registers) ∧
      ∀ t, u'.tasks.list.next t = u.tasks.list.next t := by
  have hrunning := h.running_mem
  have h0 : u.tasks.list.currentTask ≠ 0 := by
    rw [h.current]
    exact h.ok.forward.ne_nil hrunning
  have hregisters (t : ℕ) : ((taskSaveState u.tasks.list.currentTask frame
      u.tasks.list).tasks t).registers =
      if t = u.running then frame.registers else (u.tasks.list.tasks t).registers := by
    rw [taskSaveState_registers, h.current]
  refine ⟨{ u with
      tasks := { u.tasks with list := taskSaveState u.tasks.list.currentTask frame u.tasks.list }
      frames := Function.update u.frames u.running (some frame)
      entered := none }, ?_, ⟨h.ok.taskSaveState _ frame, ?_, ?_⟩, rfl, h.current, rfl, rfl,
      hregisters, fun t => congrFun (taskSaveState_next _ _ _) t⟩
  · unfold CpuRun.taskCurrentSaveState
    simp only [hframe]
    exact if_neg h0
  · intro t ht
    show _ = CpuRun.left { u with frames := Function.update u.frames u.running (some frame) } t
    rw [hregisters, left_update]
    split
    · rfl
    · exact h.saved t ht ‹_›
  · intro t ht
    by_cases heq : t = u.running
    · rw [heq]
      exact hrunning
    · have ht : Function.update u.frames u.running (some frame) t ≠ none := ht
      rw [Function.update_of_ne heq] at ht
      exact h.framesLive t ht

/-- Unlinking a task leaves the registers of all alone. -/
lemma taskListRemove_registers (task t : ℕ) (s : TaskList) :
    ((taskListRemove task s).tasks t).registers = (s.tasks t).registers := by
  rw [taskListRemove_tasks, taskListMendNext]
  split
  · exact setNext_registers s _ _ t
  · rfl

/-- The last task of the list is freed; the others keep what they left. -/
lemma AllSaved.taskFree {task : ℕ} (h : AllSaved u) (hmem : task ∈ u.tasks.live)
    (hlast : u.tasks.list.next task = 0) :
    ∃ u', u.taskFree task = some u' ∧ AllSaved u' ∧ u'.tasks.live = u.tasks.live.erase task ∧
      ∀ t, (u'.tasks.list.tasks t).registers = (u.tasks.list.tasks t).registers := by
  refine ⟨{ u with
      tasks := ⟨taskListRemove task u.tasks.list, u.tasks.live.erase task⟩
      frames := Function.update u.frames task none }, ?_,
      ⟨h.ok.taskFree hmem hlast, ?_, ?_⟩, rfl, fun t => taskListRemove_registers task t _⟩
  · rw [CpuRun.taskFree, taskStep, if_pos hmem]
    rfl
  · intro t ht
    have ht : t ≠ task ∧ t ∈ u.tasks.live := h.ok.distinct.mem_erase_iff.mp ht
    show ((taskListRemove task u.tasks.list).tasks t).registers = _
    rw [taskListRemove_registers, h.saved t ht.2]
    unfold CpuRun.left
    simp only [Function.update_of_ne ht.1]
  · intro t ht
    have ht : Function.update u.frames task none t ≠ none := ht
    by_cases heq : t = task
    · rw [heq, Function.update_self] at ht
      exact absurd rfl ht
    · rw [Function.update_of_ne heq] at ht
      exact h.ok.distinct.mem_erase_iff.mpr ⟨heq, h.framesLive t ht⟩

/-! ## Ways out of the kernel -/

/-- A task is entered in its own address space. -/
lemma TrapSaved.enter {task : ℕ} (h : TrapSaved none r.run) (htask : task ∈ r.run.tasks.live) :
    ∃ r', r.enter task = some r' ∧ TrapInv r' := by
  rcases h.saved.switchTo htask with ⟨u', hu', hcontext⟩
  have hsegments := h.segments task htask (by simp)
  have hlist : u'.tasks.list = taskSwitchCurrent task r.run.tasks.list ∧
      u'.tasks.live = r.run.tasks.live ∧ u'.running = task ∧
      u'.cpu = { (r.run.tasks.list.tasks task).registers with
        flags := (r.run.tasks.list.tasks task).registers.flags ||| flagsIf } := by
    rw [← Option.some.inj hu']
    exact ⟨rfl, rfl, rfl, rfl⟩
  rcases hlist with ⟨hlist, hlive, hrunning, hcpu⟩
  refine ⟨⟨u', _, _⟩, by rw [TrapRun.enter, hu']; rfl, hcontext, ?_, ?_, ?_, ?_⟩
  · rw [UserSegments, hcpu]
    exact hsegments
  · intro t ht _
    rw [hlist]
    exact h.segments t (hlive ▸ ht) (by simp)
  · show (r.run.tasks.list.tasks task).registers.ss % 2 ^ 16 = userDataSegment
    rw [hsegments.2]
    rfl
  · show r.directoryOf task = _
    rw [TrapRun.directoryOf, TrapRun.directoryOf, hrunning]
    show _ = (u'.tasks.list.tasks task).pageDirectory.directoryEntry
    rw [hlist]
    rfl

lemma TrapSaved.taskNext (h : TrapSaved none r.run) (hlive : r.run.tasks.live ≠ []) :
    ∃ r', r.taskNext = some r' ∧ TrapInv r' := by
  have hnext : taskGetNext r.run.tasks.list ∈ r.run.tasks.live := h.saved.ok.getNext_mem hlive
  rcases h.enter hnext with ⟨r', hr', hinv⟩
  exact ⟨r', by rw [TrapRun.taskNext, if_neg (h.saved.ok.forward.ne_nil hnext), hr'], hinv⟩

/-- The last task of the list ends, whatever was saved for it. -/
lemma TrapSaved.terminate {T : ℕ} (h : TrapSaved (some T) r.run)
    (hcurrent : r.run.tasks.list.currentTask = T) (hmem : T ∈ r.run.tasks.live)
    (hlast : r.run.tasks.list.next T = 0) (hstep : r.terminate = some r') : TrapInv r' := by
  rcases h.saved.taskFree hmem hlast with ⟨u', hu', hsaved', hlive', hregisters'⟩
  rw [TrapRun.terminate, hcurrent, hu', Option.bind_eq_bind, Option.bind_some] at hstep
  split at hstep
  · cases hstep
  rename_i h0
  have hlive : u'.tasks.live ≠ [] := by
    intro hnil
    have hcurrent' := hsaved'.ok.current
    rw [if_pos hnil] at hcurrent'
    exact h0 hcurrent'
  have hu : TrapSaved none u' := by
    refine ⟨hsaved', fun t ht _ => ?_⟩
    have ht : t ≠ T ∧ t ∈ r.run.tasks.live := h.saved.ok.distinct.mem_erase_iff.mp (hlive' ▸ ht)
    rw [hregisters']
    exact h.segments t ht.2 (by simpa using ht.1)
  rcases TrapSaved.taskNext (r := { r with run := u' }) hu hlive with ⟨v, hv, hinv⟩
  rw [← Option.some.inj (hv.symm.trans hstep)]
  exact hinv

/-- The interrupted task goes on. -/
lemma TrapSaved.returnTo {cpu : Registers} (h : TrapSaved none r.run)
    (hrunning : r.run.running ∈ r.run.tasks.live)
    (hcurrent : r.run.tasks.list.currentTask = r.run.running) (hcpu : UserSegments cpu) :
    TrapInv (r.taskPage.returnTo cpu) := by
  refine ⟨⟨h.saved.ok, List.ne_nil_of_mem hrunning, fun t ht _ => h.saved.saved t ht,
    h.saved.framesLive, hcurrent, fun _ _ hsome => absurd hsome (by simp [TrapRun.returnTo])⟩,
    hcpu, fun t ht _ => h.segments t ht (by simp), rfl, ?_⟩
  show r.directoryOf r.run.tasks.list.currentTask = r.directoryOf r.run.running
  rw [hcurrent]

/-! ## Ways into the kernel -/

/-- The frame is one word off with an error code. -/
lemma interruptFrameAt_trapEntry (errorCode : Option ℕ) (cpu : Registers) :
    ∃ frame, interruptFrameAt (trapEntry errorCode cpu) = some frame ∧
      (errorCode = none → frame.registers = cpu) := by
  cases errorCode with
  | none => exact ⟨_, rfl, fun _ => rfl⟩
  | some code => exact ⟨_, rfl, fun h => nomatch h⟩

/-- The registers of the running task are saved. Only with an error code they may be anything. -/
lemma TrapInv.taskCurrentSaveState (h : TrapInv r) (errorCode : Option ℕ) :
    ∃ u', r.run.taskCurrentSaveState (trapEntry errorCode r.run.cpu) = some u' ∧
      TrapSaved (some r.run.running) u' ∧ (errorCode = none → TrapSaved none u') ∧
      u'.running ∈ u'.tasks.live ∧ u'.tasks.list.currentTask = u'.running ∧
      u'.running = r.run.running ∧ u'.cpu = r.run.cpu ∧
      u'.tasks.list.next u'.running = r.run.tasks.list.next r.run.running := by
  rcases interruptFrameAt_trapEntry errorCode r.run.cpu with ⟨frame, hframe, hregs⟩
  rcases h.context.taskCurrentSaveState hframe with
    ⟨u', hu', hsaved, hlive, hcurrent, hrunning, hcpu, hregisters, hnext⟩
  have hother (t : ℕ) (ht : t ∈ u'.tasks.live) (hne : t ≠ r.run.running) :
      UserSegments (u'.tasks.list.tasks t).registers := by
    rw [hregisters, if_neg hne]
    exact h.segments t (hlive ▸ ht) hne
  refine ⟨u', hu', ⟨hsaved, fun t ht hne => hother t ht (by simpa using hne)⟩, fun hnone => ?_, ?_,
    hcurrent.trans hrunning.symm, hrunning, hcpu, ?_⟩
  · refine ⟨hsaved, fun t ht _ => ?_⟩
    by_cases heq : t = r.run.running
    · rw [hregisters, if_pos heq, hregs hnone]
      exact h.cpu
    · exact hother t ht heq
  · rw [hrunning, hlive]
    exact h.context.running_mem
  · rw [hnext, hrunning]

/-- A vector ends the task: an exception, or the system call `exit`. -/
def EndsTask (r : TrapRun) : Trap → Prop
  | .vector interrupt _ => interrupt < 0x20
  | .isr80h _ => isr80hCommandFunc bootCommands (CInt.i32 r.run.cpu.eax) = some .isr80hCommand9Exit
  | _ => False

/-- A task that ends is the last one of the list. -/
def EndsLast (r : TrapRun) (trap : Trap) : Prop :=
  EndsTask r trap → r.run.tasks.list.next r.run.tasks.list.currentTask = 0

/-- An exception, with an error code or without. -/
lemma interruptHandler_inv {interrupt : ℕ} {errorCode : Option ℕ} (h : TrapInv r)
    (hlast : interrupt < 0x20 → r.run.tasks.list.next r.run.tasks.list.currentTask = 0)
    (herror : errorCode ≠ none → interrupt < 0x20)
    (hstep : interruptHandler kernelDirectory interrupt (trapEntry errorCode r.run.cpu) r =
      some r') : TrapInv r' := by
  rcases h.taskCurrentSaveState errorCode with
    ⟨u', hu', hsaved, hnone, hmem, hcurrent, hrunning, hcpu, hnext⟩
  unfold interruptHandler at hstep
  rw [bootCallbacks_apply] at hstep
  by_cases hexception : interrupt < 0x20
  · rw [if_pos hexception] at hstep
    have hstep : (r.run.taskCurrentSaveState (trapEntry errorCode r.run.cpu)).bind (fun run =>
        TrapRun.terminate { r.kernelPage kernelDirectory with run }) = some r' := hstep
    rw [hu', Option.bind_some] at hstep
    have hlast := hlast hexception
    rw [h.context.current, ← hnext] at hlast
    exact TrapSaved.terminate (T := r.run.running) hsaved (hcurrent.trans hrunning)
      (hrunning ▸ hmem) (hrunning ▸ hlast) hstep
  -- no error code: the registers on the stack are those of the user
  obtain rfl : errorCode = none := by
    by_contra hne
    exact hexception (herror hne)
  rw [if_neg hexception] at hstep
  split_ifs at hstep with hclock hkeyboard
  · have hstep : (r.run.taskCurrentSaveState (trapEntry none r.run.cpu)).bind (fun run =>
        TrapRun.taskNext { r.kernelPage kernelDirectory with run }) = some r' := hstep
    rw [hu', Option.bind_some] at hstep
    rcases TrapSaved.taskNext (r := { r.kernelPage kernelDirectory with run := u' }) (hnone rfl)
      (List.ne_nil_of_mem hmem) with ⟨v, hv, hinv⟩
    rw [← Option.some.inj (hv.symm.trans hstep)]
    exact hinv
  · have hstep : (r.run.taskCurrentSaveState (trapEntry none r.run.cpu)).bind (fun run =>
        some (({ r.kernelPage kernelDirectory with run } : TrapRun).taskPage.returnTo r.run.cpu)) =
        some r' := hstep
    rw [hu', Option.bind_some] at hstep
    rw [← Option.some.inj hstep]
    exact TrapSaved.returnTo (r := { r.kernelPage kernelDirectory with run := u' }) (hnone rfl) hmem
      hcurrent h.cpu
  · -- nobody is called, and nothing is saved
    rw [← Option.some.inj hstep]
    refine ⟨⟨h.context.ok, h.context.live, h.context.saved, h.context.framesLive, h.context.current,
      fun _ _ hsome => absurd hsome (by simp [TrapRun.returnTo])⟩, h.cpu, h.segments, rfl, ?_⟩
    show r.directoryOf r.run.tasks.list.currentTask = r.directoryOf r.run.running
    rw [h.context.current]

/-- A new task has the registers of `task_init`. -/
lemma TrapSaved.taskNew {new : NewTask} (h : TrapSaved none u) (hnew : u.taskNew new = some u') :
    TrapSaved none u' ∧ new.task ∈ u'.tasks.live ∧ u'.running = u.running ∧
      (∀ t ∈ u.tasks.live, t ∈ u'.tasks.live) ∧
      (u.tasks.live ≠ [] → u'.tasks.list.currentTask = u.tasks.list.currentTask) := by
  rcases h.saved.taskNew hnew with ⟨hsaved, hmem, -, hrunning, hcurrent⟩
  rcases Option.bind_eq_some_iff.mp hnew with ⟨tasks, htasks, hu'⟩
  have hu' := Option.some.inj hu'
  rw [taskStep] at htasks
  split at htasks
  · have htasks := Option.some.inj htasks
    subst htasks
    subst hu'
    refine ⟨⟨hsaved, fun t ht _ => ?_⟩, hmem, hrunning,
      fun t ht => List.mem_append_left _ ht, hcurrent⟩
    show UserSegments ((taskNewLink new.task new.pageDirectory (taskInitRegisters new.elfEntry)
      new.process u.tasks.list).tasks t).registers
    rw [taskNewLink_registers]
    split
    · cases new.elfEntry <;> exact ⟨rfl, rfl⟩
    · rename_i hne
      refine h.segments t ?_ (by simp)
      rcases List.mem_append.mp ht with hlive | hsingle
      · exact hlive
      · exact absurd (List.mem_singleton.mp hsingle) hne
  · exact absurd htasks (by simp)

/-- A system call that does not end the task. -/
lemma TrapSaved.finishCommand {effect : CommandEffect} {cpu : Registers} (h : TrapSaved none r.run)
    (hmem : r.run.running ∈ r.run.tasks.live)
    (hcurrent : r.run.tasks.list.currentTask = r.run.running) (hcpu : UserSegments cpu)
    (hstep : r.finishCommand effect (trapEntry none cpu) = some r') : TrapInv r' := by
  cases effect with
  | returns created result =>
    cases created with
    | none =>
      rw [← Option.some.inj hstep]
      exact h.returnTo hmem hcurrent hcpu
    | some new =>
      have hstep : (r.run.taskNew new).bind (fun run => some (({ r with run } :
          TrapRun).taskPage.returnTo { cpu with eax := result })) = some r' := hstep
      rcases Option.bind_eq_some_iff.mp hstep with ⟨u', hu', hrest⟩
      rcases h.taskNew hu' with ⟨hsaved, -, hrunning, hlive, hcurrent'⟩
      rw [← Option.some.inj hrest]
      refine TrapSaved.returnTo (r := { r with run := u' }) hsaved ?_ ?_ hcpu
      · exact hrunning ▸ hlive _ hmem
      · exact (hcurrent' (List.ne_nil_of_mem hmem)).trans (hcurrent.trans hrunning.symm)
  | starts new =>
    have hstep : (r.run.taskNew new).bind (fun run => ({ r with run } : TrapRun).enter new.task) =
        some r' := hstep
    rcases Option.bind_eq_some_iff.mp hstep with ⟨u', hu', hrest⟩
    rcases h.taskNew hu' with ⟨hsaved, hnew, -⟩
    rcases TrapSaved.enter (r := { r with run := u' }) hsaved hnew with ⟨v, hv, hinv⟩
    rw [← Option.some.inj (hv.symm.trans hrest)]
    exact hinv

/-- Whatever function the number stands for. -/
lemma isr80hHandleCommand_inv {commandFunc : Option Isr80hCommand} {effect : CommandEffect}
    {cpu : Registers} (h : TrapSaved none r.run) (hmem : r.run.running ∈ r.run.tasks.live)
    (hcurrent : r.run.tasks.list.currentTask = r.run.running) (hcpu : UserSegments cpu)
    (hlast : commandFunc = some .isr80hCommand9Exit →
      r.run.tasks.list.next r.run.running = 0)
    (hstep : r.isr80hHandleCommand commandFunc effect (trapEntry none cpu) = some r') :
    TrapInv r' := by
  have hfinish (effect : CommandEffect)
      (heffect : r.finishCommand effect (trapEntry none cpu) = some r') : TrapInv r' :=
    h.finishCommand hmem hcurrent hcpu heffect
  unfold TrapRun.isr80hHandleCommand at hstep
  split at hstep
  · exact hfinish _ hstep
  · refine TrapSaved.terminate (T := r.run.running) ⟨h.saved, fun t ht _ => ?_⟩ hcurrent hmem
      (hlast rfl) hstep
    exact h.segments t ht (by simp)
  · split at hstep
    · exact hfinish effect hstep
    · cases hstep

lemma isr80hHandler_eq (effect : CommandEffect) (stack : List ℕ) (r : TrapRun) :
    isr80hHandler kernelDirectory effect stack r =
      (r.run.taskCurrentSaveState stack).bind fun run =>
        TrapRun.isr80hHandleCommand (isr80hCommandFunc bootCommands (CInt.i32 r.run.cpu.eax)) effect
          stack ⟨run, kernelDataSelector, kernelDirectory⟩ := rfl

lemma isr80hHandler_inv {effect : CommandEffect} (h : TrapInv r)
    (hlast : isr80hCommandFunc bootCommands (CInt.i32 r.run.cpu.eax) =
      some .isr80hCommand9Exit → r.run.tasks.list.next r.run.tasks.list.currentTask = 0)
    (hstep : isr80hHandler kernelDirectory effect (trapEntry none r.run.cpu) r = some r') :
    TrapInv r' := by
  rcases h.taskCurrentSaveState none with
    ⟨u', hu', -, hnone, hmem, hcurrent, hrunning, -, hnext⟩
  rw [isr80hHandler_eq, hu', Option.bind_some] at hstep
  rw [h.context.current, ← hnext] at hlast
  exact isr80hHandleCommand_inv (r := ⟨u', kernelDataSelector, kernelDirectory⟩) (hnone rfl) hmem
    hcurrent h.cpu hlast hstep

/-! ## Runs -/

lemma trapStep_inv {trap : Trap} (h : TrapInv r) (hlast : EndsLast r trap)
    (hstep : trapStep kernelDirectory r trap = some r') : TrapInv r' := by
  -- nothing but registers that the user may change
  have huser (cpu : Registers) (hcpu : UserSegments cpu) : TrapInv (r.returnTo cpu) :=
    ⟨⟨h.context.ok, h.context.live, h.context.saved, h.context.framesLive, h.context.current,
      fun _ _ hsome => absurd hsome (by simp [TrapRun.returnTo])⟩, hcpu, h.segments, h.ds,
      h.directory⟩
  cases trap with
  | user cpu =>
    rw [trapStep] at hstep
    split at hstep
    · rename_i hcpu
      rw [← Option.some.inj hstep]
      exact huser cpu ⟨hcpu.1.trans h.cpu.1, hcpu.2.trans h.cpu.2⟩
    · cases hstep
  | idtZero eax ecx edx =>
    rw [← Option.some.inj hstep]
    exact huser _ h.cpu
  | vector interrupt errorCode =>
    rw [trapStep] at hstep
    split_ifs at hstep with hentry herror
    have hlast : interrupt < 0x20 → r.run.tasks.list.next r.run.tasks.list.currentTask = 0 := hlast
    refine interruptHandler_inv h hlast (fun hne => ?_) hstep
    have hvector : interrupt ∈ errorCodeVectors := by
      by_contra hnot
      exact herror ⟨Option.isSome_iff_ne_none.mpr hne, hnot⟩
    exact (by decide : ∀ n ∈ errorCodeVectors, n < 0x20) interrupt hvector
  | isr80h effect =>
    rw [trapStep] at hstep
    exact isr80hHandler_inv h hlast hstep

lemma bootTraps_inv {tasks : ℕ → Task} {cpu : Registers} {created : List NewTask}
    (hboot : bootTraps kernelDirectory tasks cpu created = some r) : TrapInv r := by
  rcases Option.bind_eq_some_iff.mp hboot with ⟨k, hk, hrun⟩
  have hload : ∀ (created : List NewTask) (u : CpuRun), TrapSaved none u →
      created.foldlM CpuRun.taskNew u = some k → TrapSaved none k := by
    intro created
    induction created with
    | nil =>
      intro u hu hk
      rw [← Option.some.inj hk]
      exact hu
    | cons new created ih =>
      intro u hu hk
      rw [List.foldlM_cons] at hk
      rcases Option.bind_eq_some_iff.mp hk with ⟨v, hv, hrest⟩
      exact ih v (hu.taskNew hv).1 hrest
  have hsaved := hload created _ ⟨⟨emptyTaskRun_ok tasks, fun t ht => absurd ht List.not_mem_nil,
    fun t ht => absurd rfl ht⟩, fun t ht => absurd ht List.not_mem_nil⟩ hk
  split at hrun
  · cases hrun
  rename_i h0
  have hlive : k.tasks.live ≠ [] := by
    intro hnil
    have hcurrent := hsaved.saved.ok.current
    rw [if_pos hnil] at hcurrent
    exact h0 hcurrent
  have hhead : k.tasks.list.taskHead ∈ k.tasks.live := by
    refine hsaved.saved.ok.forward.start_mem.resolve_left ?_
    rwa [hsaved.saved.ok.head_eq_zero_iff]
  rcases TrapSaved.enter (r := ⟨k, kernelDataSelector, kernelDirectory⟩) hsaved hhead with
    ⟨v, hv, hinv⟩
  rw [← Option.some.inj (hv.symm.trans hrun)]
  exact hinv

/-- **Traps.** After some processes were loaded and the first one was entered, whatever vectors are
taken and whatever system calls are made, as long as a task that ends is the last one of the list:
the processor is in user mode with the user's segments and the page directory of the current task,
which is live, and a task that is entered has the registers it left, with interrupts enabled. -/
theorem traps_transparent {kernelDirectory : ℕ} {tasks : ℕ → Task} {cpu : Registers}
    {created : List NewTask} {r : TrapRun}
    (hboot : bootTraps kernelDirectory tasks cpu created = some r) {traps : List Trap}
    (hlast : Meets (trapStep kernelDirectory) EndsLast r traps) :
    Throughout (trapStep kernelDirectory) TrapOk r traps :=
  (throughout_of_meets (fun _ _ _ h hlast hstep => trapStep_inv h hlast hstep)
    (bootTraps_inv hboot) hlast).imp fun _ h => h.ok

/-- Two processes; the clock ticks, and the second one runs into a page fault. -/
theorem traps_transparent_pageFault :
    ∃ r, bootTraps 4096 clearedTasks {} [⟨8192, ⟨12288, 0⟩, 0, none⟩,
        ⟨16384, ⟨20480, 0⟩, 0, some 4194304⟩] = some r ∧
      Throughout (trapStep 4096) TrapOk r [.vector 0x20 none, .vector 14 (some 2)] := by
  generalize hboot : bootTraps 4096 clearedTasks {} [⟨8192, ⟨12288, 0⟩, 0, none⟩,
    ⟨16384, ⟨20480, 0⟩, 0, some 4194304⟩] = boot
  have hclock : (boot.bind fun r => trapStep 4096 r (.vector 0x20 none)).map
      (fun r => r.run.tasks.list.next r.run.tasks.list.currentTask) = some 0 := by
    rw [← hboot]
    rfl
  cases boot with
  | none => cases hclock
  | some r =>
    refine ⟨r, rfl, traps_transparent hboot ⟨fun h => absurd h (lt_irrefl 0x20), fun r' hr' =>
      ⟨fun _ => ?_, fun _ _ => trivial⟩⟩⟩
    rw [Option.bind_some, hr'] at hclock
    exact Option.some.inj hclock

end MarrowOS
