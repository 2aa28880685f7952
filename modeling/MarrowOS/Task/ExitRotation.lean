import MarrowOS.Task.LoadingTheorems

/-!
# The task after an exit

A task ends through the exit system call or an exception: its process is terminated, then
`task_next` selects another task. `task_list_remove` has moved `current_task` on to the successor
by then, so `task_next` selects the task behind that one, which is the successor itself only when
it is the last task left (`exit_enters_successor_iff`).
-/

namespace MarrowOS

open Fallible FirstSlot Links

/-! ## The two ways out -/

/-- The process at an address. -/
def Kernel.processAt (k : Kernel) (addr : ℕ) : Option Process :=
  (k.processes.find? fun p => (p.map Process.addr) == some addr).join

/-- `task_next`, with the list as `task_switch` leaves it. -/
def taskNext (tasks : TaskList) : Except Fault TaskList :=
  let nextTask := taskGetNext tasks
  if nextTask = 0 then .error .panic else .ok (taskSwitchCurrent nextTask tasks)

/-- `process_terminate(task_current()->process); task_next()`. -/
def terminateCurrentTask (s : System) : Except Fault System := do
  let some process := s.kernel.processAt (s.kernel.tasks.tasks s.kernel.tasks.currentTask).process
    | throw .nullPointer
  let s ← processTerminate process s
  let tasks ← taskNext s.kernel.tasks
  return { s with kernel := { s.kernel with tasks } }

def isr80hCommand9Exit (s : System) : Except Fault System := terminateCurrentTask s

def idtHandleException (s : System) : Except Fault System := terminateCurrentTask s

/-! ## Removing the current task -/

variable {tasks : TaskList} {live A B : List ℕ} {T : ℕ}

/-- Behind a node of a list that leads back to its head comes the node itself exactly when it is
the only one. -/
lemma next_eq_self_iff {next : ℕ → ℕ} {head x : ℕ} (h : Segment 0 next head live 0)
    (hnodup : live.Nodup) (hx : x ∈ live) :
    (if next x = 0 then head else next x) = x ↔ live.length = 1 := by
  rcases List.append_of_mem hx with ⟨C, D, hlive⟩
  subst hlive
  cases D with
  | nil =>
    have hnext : next x = 0 := h.next_eq
    rw [if_pos hnext]
    cases C with
    | nil => simpa using h.1
    | cons c C =>
      have hc : c ≠ x := fun heq => by simp [heq] at hnodup
      have hhead : head = c := h.1
      simp [hhead, hc]
  | cons d D =>
    have hd : next x = d := h.next_eq
    have hd0 : d ≠ 0 := h.ne_nil (by simp)
    have hdx : d ≠ x := by
      intro heq
      rw [heq] at hnodup
      simp [List.nodup_append] at hnodup
    rw [hd, if_neg hd0, List.length_append, List.length_cons, List.length_cons]
    constructor
    · intro heq
      exact absurd heq hdx
    · omega

/-- `task_list_remove` up to its last statement, which moves `current_task` on. -/
lemma taskListRemove_eq (T : ℕ) (tasks : TaskList) :
    ∃ s : TaskList, s.currentTask = tasks.currentTask ∧
      s.tasks = (taskListMendNext T tasks).tasks ∧
      s.taskHead = (if T = tasks.taskHead then (taskListMendNext T tasks).next T
        else tasks.taskHead) ∧
      taskListRemove T tasks =
        if T = s.currentTask then { s with currentTask := taskGetNext s } else s := by
  rcases taskListMendNext_cursors T tasks with ⟨hhead, -, hcurrent⟩
  rw [← hhead, ← hcurrent]
  refine ⟨_, ?_, ?_, ?_, rfl⟩
  · split_ifs <;> rfl
  · split_ifs <;> rfl
  · split_ifs <;> rfl

/-- The head that `task_list_remove` leaves. -/
lemma taskListRemove_taskHead (hprev : tasks.prev T ≠ T) :
    (taskListRemove T tasks).taskHead =
      if T = tasks.taskHead then tasks.next T else tasks.taskHead := by
  rcases taskListRemove_eq T tasks with ⟨s, -, -, hhead, heq⟩
  rw [TaskList.next, taskListMendNext_tasks hprev] at hhead
  rw [heq]
  split <;> exact hhead

/-- When the current task is removed and is not alone its successor becomes the current one. -/
lemma taskListRemove_currentTask (hprev : tasks.prev T ≠ T) (hcurrent : tasks.currentTask = T)
    (hrest : tasks.next T = 0 → T ≠ tasks.taskHead) :
    (taskListRemove T tasks).currentTask = taskGetNext tasks := by
  rcases taskListRemove_eq T tasks with ⟨s, hcurrent', htasks, hhead, heq⟩
  have hnext : s.next T = tasks.next T := by
    rw [TaskList.next, htasks, taskListMendNext_tasks hprev]
    rfl
  have hnext' : (taskListMendNext T tasks).next T = tasks.next T := by
    rw [TaskList.next, taskListMendNext_tasks hprev]
    rfl
  rw [hcurrent] at hcurrent'
  rw [heq, if_pos hcurrent'.symm]
  show taskGetNext s = taskGetNext tasks
  rw [taskGetNext, taskGetNext, hcurrent, hcurrent', hnext, hhead, hnext']
  by_cases h0 : tasks.next T = 0
  · rw [if_pos h0, if_pos h0, if_neg (hrest h0)]
  · rw [if_neg h0, if_neg h0]

lemma taskListRemove_next :
    (taskListRemove T tasks).next =
      if tasks.prev T = 0 then tasks.next
      else Function.update tasks.next (tasks.prev T) (tasks.next T) := by
  rw [← taskListMendNext_next]
  funext x
  rw [TaskList.next, TaskList.next, taskListRemove_tasks]

/-- The task after the current one is one of the list. -/
lemma getNext_mem_of_segment {s : TaskList} (h : Segment 0 s.next s.taskHead live 0)
    (hcurrent : s.currentTask ∈ live) : taskGetNext s ∈ live := by
  unfold taskGetNext
  by_cases h0 : s.next s.currentTask = 0
  · rw [if_pos h0]
    apply h.start_mem.resolve_left
    intro hhead
    rw [hhead] at h
    rw [h.eq_nil_of_start] at hcurrent
    exact absurd hcurrent List.not_mem_nil
  · rw [if_neg h0]
    exact (h.next_mem hcurrent).resolve_left h0

/-- No task is its own predecessor. -/
lemma TaskListOk.prev_ne (h : TaskListOk ⟨tasks, A ++ T :: B⟩) : tasks.prev T ≠ T := by
  have hforward : Segment 0 tasks.next tasks.taskHead (A ++ T :: B) 0 := h.forward
  have hbackward : Backlinked tasks.prev 0 (A ++ T :: B) := h.backward
  have hdistinct : (A ++ T :: B).Nodup := h.distinct
  rw [hbackward.prev_eq]
  intro heq
  rcases @getLastD_eq_or_mem _ 0 A with hz | hmem
  · exact hforward.ne_nil (by simp) (heq.symm.trans hz)
  · exact List.disjoint_of_nodup_append hdistinct (heq ▸ hmem) (by simp)

/-- Removal leaves the `next` links of a list without the task. -/
lemma TaskListOk.remove_forward (h : TaskListOk ⟨tasks, A ++ T :: B⟩) :
    Segment 0 (taskListRemove T tasks).next (taskListRemove T tasks).taskHead (A ++ B) 0 := by
  have hforward : Segment 0 tasks.next tasks.taskHead (A ++ T :: B) 0 := h.forward
  have hbackward : Backlinked tasks.prev 0 (A ++ T :: B) := h.backward
  have hdistinct : (A ++ T :: B).Nodup := h.distinct
  have hprev := hbackward.prev_eq
  -- `T` stands in the list once
  have hA : T ∉ A := fun hmem => List.disjoint_of_nodup_append hdistinct hmem (by simp)
  rcases segment_append.mp hforward with ⟨b, hsegA, hb, -, hsegB⟩
  rw [hb] at hsegA
  rw [taskListRemove_next, taskListRemove_taskHead h.prev_ne]
  rcases A.eq_nil_or_concat with hnil | ⟨A', a, hconcat⟩
  · subst hnil
    have hfirst : tasks.taskHead = T := hsegA
    have hprev0 : tasks.prev T = 0 := hprev
    rw [if_pos hprev0, if_pos hfirst.symm]
    exact hsegB
  · rw [List.concat_eq_append] at hconcat
    subst hconcat
    have ha : tasks.prev T = a := by rw [hprev]; simp
    have ha0 : a ≠ 0 := hforward.ne_nil (by simp)
    have hhead' : T ≠ tasks.taskHead := by
      intro heq
      rcases hsegA.start_mem with hstart | hmem
      · rw [hstart] at hsegA
        cases A' with
        | nil => exact hA (by simp [hsegA.1])
        | cons c A' => exact hA (by simp [hsegA.1])
      · exact hA (heq ▸ hmem)
    rw [ha, if_neg ha0, if_neg hhead', segment_append]
    rcases segment_append.mp hsegA with ⟨c, hseg', hc, -, -⟩
    subst hc
    -- the link of the predecessor is the one that was set, the others are the old ones
    have hkeep : ∀ x ∈ A' ++ B, Function.update tasks.next c (tasks.next T) x = tasks.next x := by
      intro x hx
      apply Function.update_of_ne
      intro heq
      subst heq
      have hnodup : (A' ++ x :: (T :: B)).Nodup := by simpa using hdistinct
      rcases List.nodup_append.mp hnodup with ⟨-, hbehind, hapart⟩
      rcases List.mem_append.mp hx with hmem | hmem
      · exact hapart x hmem x List.mem_cons_self rfl
      · exact (List.nodup_cons.mp hbehind).1 (List.mem_cons_of_mem T hmem)
    refine ⟨tasks.next T, segment_append.mpr ⟨c, ?_, ?_⟩, ?_⟩
    · exact hseg'.congr fun x hx => hkeep x (List.mem_append_left _ hx)
    · simp [ha0]
    · exact hsegB.congr fun x hx => hkeep x (List.mem_append_right _ hx)

/-- A task that is current and not alone is removed: the task that `task_next` selects then is the
task's successor exactly when only one other task was there. -/
lemma TaskListOk.remove_getNext (h : TaskListOk ⟨tasks, live⟩) (hcurrent : tasks.currentTask = T)
    (htwo : 2 ≤ live.length) :
    taskGetNext (taskListRemove T tasks) ≠ 0 ∧
      (taskGetNext (taskListRemove T tasks) = taskGetNext tasks ↔ live.length = 2) := by
  have hcurrent' : tasks.currentTask ∈ live := by
    have hmem := h.current
    rw [if_neg (by rintro rfl; exact absurd htwo (by simp))] at hmem
    exact hmem
  rw [hcurrent] at hcurrent'
  rcases List.append_of_mem hcurrent' with ⟨A, B, hAB⟩
  subst hAB
  have hforward : Segment 0 tasks.next tasks.taskHead (A ++ T :: B) 0 := h.forward
  have hrest := h.remove_forward
  have hdistinct : (A ++ B).Nodup := by
    have hdistinct : (A ++ T :: B).Nodup := h.distinct
    exact hdistinct.sublist ((List.sublist_cons_self T B).append_left A)
  have hlength : (A ++ T :: B).length = (A ++ B).length + 1 := by
    simp only [List.length_append, List.length_cons]
    omega
  -- the successor is one of the tasks that are left
  have hsuccessor : taskGetNext tasks ∈ A ++ B ∧ (tasks.next T = 0 → T ≠ tasks.taskHead) := by
    unfold taskGetNext
    rw [hcurrent]
    cases B with
    | nil =>
      have hnext : tasks.next T = 0 := hforward.next_eq
      rw [if_pos hnext]
      cases A with
      | nil => exact absurd htwo (by simp)
      | cons a A =>
        have ha : tasks.taskHead = a := hforward.1
        have hdistinct : (a :: A ++ [T]).Nodup := h.distinct
        rw [ha]
        refine ⟨by simp, fun _ heq => ?_⟩
        simp [heq] at hdistinct
    | cons b B =>
      have hnext : tasks.next T = b := hforward.next_eq
      have hb : b ≠ 0 := hforward.ne_nil (by simp)
      rw [hnext, if_neg hb]
      exact ⟨by simp, fun h0 => absurd h0 hb⟩
  -- so the current task is that successor, and the next one is asked for from there
  have hnow := taskListRemove_currentTask h.prev_ne hcurrent hsuccessor.2
  rw [hlength]
  constructor
  · exact hrest.ne_nil (getNext_mem_of_segment hrest (hnow ▸ hsuccessor.1))
  · rw [taskGetNext, hnow, next_eq_self_iff hrest hdistinct hsuccessor.1]
    omega

/-! ## Ending the process of the current task -/

/-- The tasks and the processes belong together: the process of a live task is in the slot of its
id and has the task, and no two processes of the table have one address. -/
structure TasksHaveProcesses (k : Kernel) (live : List ℕ) : Prop where
  process : ∀ t ∈ live, ∃ p : Process, k.processes[p.id]? = some (some p) ∧
    p.addr = (k.tasks.tasks t).process ∧ p.task = t
  distinct : ∀ (i j : ℕ) (p q : Process), k.processes[i]? = some (some p) →
    k.processes[j]? = some (some q) → p.addr = q.addr → p = q

lemma Kernel.processAt_eq {k : Kernel} (hdistinct : ∀ (i j : ℕ) (p q : Process),
      k.processes[i]? = some (some p) → k.processes[j]? = some (some q) → p.addr = q.addr → p = q)
    {i : ℕ} {p : Process} (hp : k.processes[i]? = some (some p)) :
    k.processAt p.addr = some p := by
  unfold Kernel.processAt
  cases hfind : k.processes.find? fun q => (q.map Process.addr) == some p.addr with
  | none =>
    have hne := List.find?_eq_none.mp hfind _ (List.mem_of_getElem? hp)
    exact absurd hne (by simp)
  | some q =>
    have haddr := List.find?_some hfind
    cases q with
    | none => exact absurd haddr (by simp)
    | some q =>
      rcases List.mem_iff_getElem?.mp (List.mem_of_find?_eq_some hfind) with ⟨j, hj⟩
      have heq : q = p := hdistinct j i q p hj hp (by simpa using haddr)
      rw [heq]
      rfl

/-- While another process is in the table its foreground can be taken over. -/
lemma processUnlink_ok {s : System} {p q : Process} {j : ℕ} (hj : j ≠ p.id)
    (hq : s.kernel.processes[j]? = some (some q)) :
    ∃ currentProcess, processUnlink p s =
      .ok ⟨{ s.kernel with processes := s.kernel.processes.set p.id none }, currentProcess⟩ := by
  unfold processUnlink
  by_cases hcurrent : s.currentProcess = p.addr
  · simp only [hcurrent, if_true]
    unfold processSwitchToAny
    have hq' : (s.kernel.processes.set p.id none)[j]? = some (some q) := by
      rw [List.getElem?_set_ne hj.symm, hq]
    cases hfirst : firstSlot Option.isSome (s.kernel.processes.set p.id none) with
    | none => exact absurd (firstSlot_eq_none.mp hfirst j _ hq') (by simp)
    | some r =>
      rcases r with ⟨i, _ | r⟩
      · exact absurd (firstSlot_eq_some.mp hfirst).2.1 (by simp)
      · exact ⟨r.addr, rfl⟩
  · exact ⟨s.currentProcess, if_neg hcurrent⟩

/-- The task that is entered after the current one ended. -/
lemma terminateCurrentTask_enters {s : System} (h : TaskListOk ⟨s.kernel.tasks, live⟩)
    (hprocesses : TasksHaveProcesses s.kernel live) (htwo : 2 ≤ live.length) :
    ∃ s', terminateCurrentTask s = .ok s' ∧
      (s'.kernel.tasks.currentTask = taskGetNext s.kernel.tasks ↔ live.length = 2) := by
  have hcurrent : s.kernel.tasks.currentTask ∈ live := by
    have hmem := h.current
    rw [if_neg (by rintro rfl; exact absurd htwo (by simp))] at hmem
    exact hmem
  rcases hprocesses.process _ hcurrent with ⟨p, hp, haddr, htask⟩
  have hT : p.task ≠ 0 := htask ▸ h.forward.ne_nil hcurrent
  -- some other task keeps its process
  have hother : ∃ t ∈ live, t ≠ p.task := by
    rw [htask]
    by_contra hall
    push Not at hall
    have hlive : live = List.replicate live.length s.kernel.tasks.currentTask :=
      List.eq_replicate_of_mem hall
    have hdistinct : live.Nodup := h.distinct
    rw [hlive, List.nodup_replicate] at hdistinct
    omega
  rcases hother with ⟨t, ht, hne⟩
  rcases hprocesses.process t ht with ⟨q, hq, -, hqt⟩
  have hj : q.id ≠ p.id := by
    intro hid
    rw [hid, hp] at hq
    rw [← Option.some.inj (Option.some.inj hq)] at hqt
    exact hne hqt.symm
  rcases processUnlink_ok hj hq with ⟨currentProcess, hunlink⟩
  have hremove := h.remove_getNext htask.symm htwo
  -- the terminate runs through, and `task_next` switches to what is next then
  have hterminate : processTerminate p s =
      .ok ⟨processFreeProcess p { s.kernel with processes := s.kernel.processes.set p.id none },
        currentProcess⟩ := by
    unfold processTerminate
    rw [hunlink]
    rfl
  have hnext : taskNext (taskListRemove p.task s.kernel.tasks) =
      .ok (taskSwitchCurrent (taskGetNext (taskListRemove p.task s.kernel.tasks))
        (taskListRemove p.task s.kernel.tasks)) := if_neg hremove.1
  refine ⟨⟨{ processFreeProcess p
        { s.kernel with processes := s.kernel.processes.set p.id none } with
      tasks := taskSwitchCurrent (taskGetNext (taskListRemove p.task s.kernel.tasks))
        (taskListRemove p.task s.kernel.tasks) }, currentProcess⟩, ?_, hremove.2⟩
  · unfold terminateCurrentTask
    rw [← haddr, Kernel.processAt_eq hprocesses.distinct hp]
    show (processTerminate p s >>= fun s => taskNext s.kernel.tasks >>= fun tasks =>
      Except.ok { s with kernel := { s.kernel with tasks } }) = _
    rw [hterminate, ok_bind, processFreeProcess_tasks, if_neg hT, hnext, ok_bind]

/-- **Rotation after an exit.** Of the well-formed task lists with two tasks or more, those of two
tasks are the ones in which an exit or an exception of the current task leads to its successor. -/
theorem exit_enters_successor_iff {s : System} {live : List ℕ}
    (h : TaskListOk ⟨s.kernel.tasks, live⟩) (hprocesses : TasksHaveProcesses s.kernel live)
    (htwo : 2 ≤ live.length) :
    (∃ s', isr80hCommand9Exit s = .ok s' ∧
      (s'.kernel.tasks.currentTask = taskGetNext s.kernel.tasks ↔ live.length = 2)) ∧
    ∃ s', idtHandleException s = .ok s' ∧
      (s'.kernel.tasks.currentTask = taskGetNext s.kernel.tasks ↔ live.length = 2) :=
  ⟨terminateCurrentTask_enters h hprocesses htwo, terminateCurrentTask_enters h hprocesses htwo⟩

/-- Three tasks, the first one running. -/
def threeTasks : TaskList where
  taskHead := 4096
  taskTail := 12288
  currentTask := 4096
  tasks a :=
    if a = 4096 then ⟨⟨0, 0⟩, {}, 65536, 8192, 0⟩
    else if a = 8192 then ⟨⟨0, 0⟩, {}, 131072, 12288, 4096⟩
    else ⟨⟨0, 0⟩, {}, 196608, 0, 8192⟩

/-- A process of a task, in the slot `id`. -/
def processOfTask (id task addr : ℕ) : Process := { processInit addr with id, task }

/-- Their processes, the first one in the foreground. -/
def threeProcesses : System where
  kernel :=
    { machine := ⟨⟨(kheapInit fun _ => 0).2, false⟩, fun _ => 0⟩
      tasks := threeTasks
      fileBlocks := []
      processes := [some (processOfTask 0 4096 65536), some (processOfTask 1 8192 131072),
        some (processOfTask 2 12288 196608)] }
  currentProcess := 65536

lemma threeTasks_ok : TaskListOk ⟨threeProcesses.kernel.tasks, [4096, 8192, 12288]⟩ := by
  refine .of_links (by decide) ?_ ?_ rfl (by decide)
  · simp [threeProcesses, threeTasks, TaskList.next]
  · simp [threeProcesses, threeTasks, TaskList.prev]

lemma threeTasks_haveProcesses : TasksHaveProcesses threeProcesses.kernel [4096, 8192, 12288] := by
  constructor
  · intro t ht
    rcases List.mem_cons.mp ht with rfl | ht
    · exact ⟨processOfTask 0 4096 65536, rfl, rfl, rfl⟩
    rcases List.mem_cons.mp ht with rfl | ht
    · exact ⟨processOfTask 1 8192 131072, rfl, rfl, rfl⟩
    · rw [List.mem_singleton.mp ht]
      exact ⟨processOfTask 2 12288 196608, rfl, rfl, rfl⟩
  · intro i j p q hp hq haddr
    have hmem := fun (r : Process) (l : ℕ)
        (h : threeProcesses.kernel.processes[l]? = some (some r)) =>
      List.mem_of_getElem? h
    have hp := hmem p i hp
    have hq := hmem q j hq
    simp only [threeProcesses, List.mem_cons, Option.some.injEq, List.not_mem_nil,
      or_false] at hp hq
    rcases hp with rfl | rfl | rfl <;> rcases hq with rfl | rfl | rfl <;>
      first | rfl | exact absurd haddr (by decide)

theorem exit_enters_successor_threeTasks :
    (∃ s', isr80hCommand9Exit threeProcesses = .ok s' ∧
      (s'.kernel.tasks.currentTask = taskGetNext threeProcesses.kernel.tasks ↔
        [4096, 8192, 12288].length = 2)) ∧
    ∃ s', idtHandleException threeProcesses = .ok s' ∧
      (s'.kernel.tasks.currentTask = taskGetNext threeProcesses.kernel.tasks ↔
        [4096, 8192, 12288].length = 2) :=
  exit_enters_successor_iff threeTasks_ok threeTasks_haveProcesses (by decide)

/-- With three tasks the successor loses its turn. -/
theorem exit_skips_successor :
    ¬ ∀ (s : System) (live : List ℕ), TaskListOk ⟨s.kernel.tasks, live⟩ →
      TasksHaveProcesses s.kernel live → 2 ≤ live.length →
      ∃ s', isr80hCommand9Exit s = .ok s' ∧
        s'.kernel.tasks.currentTask = taskGetNext s.kernel.tasks := by
  intro h
  rcases h threeProcesses [4096, 8192, 12288] threeTasks_ok threeTasks_haveProcesses
    (by decide) with ⟨s', hs', hsuccessor⟩
  rcases terminateCurrentTask_enters threeTasks_ok threeTasks_haveProcesses (by decide) with
    ⟨t, ht, hiff⟩
  have heq : s' = t := Except.ok.inj (hs'.symm.trans ht)
  subst heq
  exact absurd (hiff.mp hsuccessor) (by decide)

end MarrowOS
