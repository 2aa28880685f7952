import MarrowOS.Lib.Rotation
import MarrowOS.Task.TaskListTheorems

/-!
# Round-robin scheduling

As long as no task is freed the scheduler goes round the task list: `task_next` is a turn of
the rotation whose nodes are the live tasks in creation order, and `task_new` lets a node join
(`Rotates`). Between two turns of one task every other task has one (`roundRobin`).
-/

namespace MarrowOS

open Links Rotation Runs

/-! ## Runs -/

/-- The task list and the tasks that `task_next` selected so far. -/
structure SchedRun where
  tasks : TaskRun
  selected : List ℕ

def schedStep (s : SchedRun) (op : TaskOp) : Option SchedRun :=
  (taskStep s.tasks op).map fun tasks =>
    match op with
    | .taskNext => ⟨tasks, s.selected ++ [tasks.list.currentTask]⟩
    | _ => ⟨tasks, s.selected⟩

/-- No task is freed. -/
def KeepsTasks : TaskOp → Prop
  | .taskFree _ => False
  | _ => True

/-- From a state in which `T` is current to one in which it is the next to be selected, the
other tasks had one turn each: those behind `T`, the newcomers `N` that came in time, and those
before `T`. -/
structure FullTurn (r r' : TaskRun) (selected : List ℕ) : Prop where
  once : ∀ x ∈ r.live, x ≠ r.list.currentTask → selected.count x = 1
  order : ∃ A B N N', r.live = A ++ r.list.currentTask :: B ∧ r'.live = r.live ++ N ++ N' ∧
    selected = B ++ N ++ A

/-! ## The rotation -/

/-- The live tasks form a rotation that stands at the current task. -/
structure Rotates (r : TaskRun) (s : Rotation ℕ) : Prop where
  ok : TaskListOk r
  nodes : r.live = s.nodes
  current : s.current = some r.list.currentTask

variable {r r' : TaskRun} {s : Rotation ℕ} {op : TaskOp}

/-- Every list that is not empty stands somewhere. -/
lemma TaskListOk.rotates (h : TaskListOk r) (hlive : r.live ≠ []) :
    ∃ A B, r.live = A ++ r.list.currentTask :: B ∧ Rotates r ⟨A ++ [r.list.currentTask], B⟩ := by
  have hcurrent := h.current
  rw [if_neg hlive] at hcurrent
  rcases List.append_of_mem hcurrent with ⟨A, B, hAB⟩
  refine ⟨A, B, hAB, h, ?_, List.getLast?_concat⟩
  rw [hAB]
  simp [Rotation.nodes]

lemma Rotates.served_ne_nil (h : Rotates r s) : s.served ≠ [] := by
  intro hnil
  have hcurrent := h.current
  rw [Rotation.current, hnil] at hcurrent
  exact absurd hcurrent (by simp)

lemma Rotates.live_ne_nil (h : Rotates r s) : r.live ≠ [] := by
  rw [h.nodes]
  intro hnil
  exact h.served_ne_nil (List.append_eq_nil_iff.mp hnil).1

/-- `task_get_next` answers the task whose turn is next. -/
lemma Rotates.getNext (h : Rotates r s) : s.turn.current = some (taskGetNext r.list) := by
  have hforward := h.ok.forward
  rw [h.nodes] at hforward
  rcases s with ⟨served, waiting⟩
  rcases List.eq_nil_or_concat served with hnil | ⟨l, c, hserved⟩
  · exact absurd hnil h.served_ne_nil
  rw [List.concat_eq_append] at hserved
  subst hserved
  have hc : c = r.list.currentTask :=
    Option.some.inj (List.getLast?_concat.symm.trans h.current)
  subst hc
  have hnodes : Rotation.nodes ⟨l ++ [r.list.currentTask], waiting⟩ =
      l ++ r.list.currentTask :: waiting := by simp [Rotation.nodes]
  rw [hnodes] at hforward
  unfold taskGetNext
  cases waiting with
  | nil =>
    -- behind the last task comes the head
    have hnext : r.list.next r.list.currentTask = 0 := hforward.next_eq
    rw [if_pos hnext]
    cases l with
    | nil => rw [← hforward.1]; rfl
    | cons a l => rw [hforward.1]; rfl
  | cons b waiting =>
    have hb : r.list.next r.list.currentTask = b := hforward.next_eq
    have hb0 : b ≠ 0 := hforward.ne_nil (by simp)
    rw [hb, if_neg hb0, turn_current_cons]

lemma Rotates.taskNext (h : Rotates r s) (hstep : taskStep r .taskNext = some r') :
    Rotates r' s.turn ∧ r'.live = r.live := by
  have hr' : r' = ⟨taskSwitchCurrent (taskGetNext r.list) r.list, r.live⟩ := by
    rw [taskStep, if_pos h.live_ne_nil] at hstep
    exact (Option.some.inj hstep).symm
  subst hr'
  exact ⟨⟨h.ok.taskNext h.live_ne_nil, by rw [turn_nodes]; exact h.nodes, h.getNext⟩, rfl⟩

lemma Rotates.taskNew (h : Rotates r s) {task process : ℕ} {pageDirectory : Paging4gbChunk}
    {registers : Registers}
    (hstep : taskStep r (.taskNew task pageDirectory registers process) = some r') :
    Rotates r' (s.join task) ∧ r'.live = r.live ++ [task] ∧
      r'.list.currentTask = r.list.currentTask ∧ r'.list.taskHead = r.list.taskHead := by
  have hfrees : FreesLast r (.taskNew task pageDirectory registers process) := trivial
  have hok : TaskListOk r' := h.ok.step hfrees hstep
  rw [taskStep] at hstep
  split at hstep
  · rename_i hfresh
    have hstep := Option.some.inj hstep
    subst hstep
    have hhead : r.list.taskHead ≠ 0 := by
      rw [Ne, h.ok.head_eq_zero_iff]
      exact h.live_ne_nil
    have htail : r.list.taskTail ≠ task := by
      intro heq
      rcases getLastD_eq_or_mem (l := r.live) (p := 0) with hz | hmem
      · exact hfresh.1 (heq.symm.trans (h.ok.tail.trans hz))
      · exact hfresh.2 (heq ▸ h.ok.tail ▸ hmem)
    rcases @taskNewLink_of_head_ne task process pageDirectory registers r.list hhead htail with
      ⟨-, -, hhead', -, hcurrent⟩
    refine ⟨⟨hok, ?_, ?_⟩, rfl, hcurrent, hhead'⟩
    · rw [join_nodes, ← h.nodes]
    · rw [hcurrent]
      exact h.current
  · cases hstep

/-! ## Since a turn of `T` -/

/-- What is known of a run that started with the turn of `T` in the list `A ++ T :: B`. -/
def SinceTurn (A : List ℕ) (T : ℕ) (B : List ℕ) (u : SchedRun) : Prop :=
  ∃ s, Rotates u.tasks s ∧ (T ∉ u.selected → Passing A T B s u.selected)

/-- What is known of a run that started when `task` joined a list with head `head`. -/
def SinceNew (head task : ℕ) (u : SchedRun) : Prop :=
  ∃ s, Rotates u.tasks s ∧ (head ∉ u.selected → Newcomer head task s u.selected)

lemma schedStep_tasks {u u' : SchedRun} (hstep : schedStep u op = some u') :
    taskStep u.tasks op = some u'.tasks := by
  rcases Option.map_eq_some_iff.mp hstep with ⟨tasks, htasks, rfl⟩
  cases op <;> exact htasks

lemma schedStep_selected {u u' : SchedRun} (hstep : schedStep u op = some u') :
    u'.selected = match op with
      | .taskNext => u.selected ++ [u'.tasks.list.currentTask]
      | _ => u.selected := by
  rcases Option.map_eq_some_iff.mp hstep with ⟨tasks, htasks, rfl⟩
  cases op <;> rfl

/-- A property of the turns so far that a turn and a newcomer keep is kept by every step. -/
lemma schedStep_keeps {P : Rotation ℕ → List ℕ → Prop} {c : ℕ}
    (hturn : ∀ s turns x, P s turns → s.turn.current = some x → x ≠ c → P s.turn (turns ++ [x]))
    (hjoin : ∀ s turns a, P s turns → P (s.join a) turns) {u u' : SchedRun}
    (h : ∃ s, Rotates u.tasks s ∧ (c ∉ u.selected → P s u.selected)) (hkeeps : KeepsTasks op)
    (hstep : schedStep u op = some u') :
    ∃ s, Rotates u'.tasks s ∧ (c ∉ u'.selected → P s u'.selected) := by
  rcases h with ⟨s, hrot, hP⟩
  have htasks := schedStep_tasks hstep
  have hselected := schedStep_selected hstep
  cases op with
  | taskNew task pageDirectory registers process =>
    refine ⟨s.join task, (hrot.taskNew htasks).1, fun hc => ?_⟩
    rw [hselected] at hc ⊢
    exact hjoin s _ task (hP hc)
  | taskFree task => exact absurd hkeeps id
  | taskNext =>
    refine ⟨s.turn, (hrot.taskNext htasks).1, fun hc => ?_⟩
    rw [hselected, List.mem_append, List.mem_singleton, not_or] at hc
    rw [hselected]
    exact hturn s _ _ (hP hc.1) (hrot.taskNext htasks).1.current (Ne.symm hc.2)

lemma SinceTurn.step {A B : List ℕ} {T : ℕ} {u u' : SchedRun} (h : SinceTurn A T B u)
    (hkeeps : KeepsTasks op) (hstep : schedStep u op = some u') : SinceTurn A T B u' :=
  schedStep_keeps (fun _ _ _ hp hcurrent hx => hp.turn hcurrent hx) (fun _ _ a hp => hp.join a)
    h hkeeps hstep

lemma SinceNew.step {head task : ℕ} {u u' : SchedRun} (h : SinceNew head task u)
    (hkeeps : KeepsTasks op) (hstep : schedStep u op = some u') : SinceNew head task u' :=
  schedStep_keeps (fun _ _ _ hp hcurrent hx => hp.turn hcurrent hx) (fun _ _ a hp => hp.join a)
    h hkeeps hstep

/-! ## Runs from the empty list -/

/-- A run that frees nothing keeps an invariant that the operations keep. -/
lemma run_keeps {S : Type} {step : S → TaskOp → Option S} {I : S → Prop}
    (hstep : ∀ u op u', I u → KeepsTasks op → step u op = some u' → I u') {u u' : S}
    {ops : List TaskOp} (hu : I u) (hkeeps : ∀ op ∈ ops, KeepsTasks op)
    (hrun : run step u ops = some u') : I u' := by
  induction ops generalizing u with
  | nil =>
    obtain rfl : u = u' := Option.some.inj hrun
    exact hu
  | cons op ops ih =>
    rcases run_cons.mp hrun with ⟨v, hv, hrest⟩
    have hop := hkeeps op List.mem_cons_self
    exact ih (hstep u op v hu hop hv) (fun o ho => hkeeps o (List.mem_cons_of_mem _ ho)) hrest

lemma run_taskListOk {tasks : ℕ → Task} {ops : List TaskOp} (hkeeps : ∀ op ∈ ops, KeepsTasks op)
    (hrun : run taskStep (emptyTaskRun tasks) ops = some r) : TaskListOk r := by
  refine run_keeps (fun u op u' h hop hstep => h.step ?_ hstep) (emptyTaskRun_ok tasks) hkeeps hrun
  cases op with
  | taskNew => trivial
  | taskFree => exact absurd hop id
  | taskNext => trivial

/-- A full turn selects every node but the one it starts from once. -/
lemma count_full_turn {A B N N' : List ℕ} {T x : ℕ} (hnodup : (A ++ T :: (B ++ N ++ N')).Nodup)
    (hmem : x ∈ A ++ T :: B) (hx : x ≠ T) : (B ++ N ++ A).count x = 1 := by
  have hsub : (A ++ (B ++ N)).Sublist (A ++ T :: (B ++ N ++ N')) :=
    (((List.sublist_append_left (B ++ N) N').cons T)).append_left A
  have hturns : (B ++ N ++ A).Nodup := (List.perm_append_comm.nodup_iff).mp (hnodup.sublist hsub)
  apply List.count_eq_one_of_mem hturns
  simp only [List.mem_append, List.mem_cons] at hmem ⊢
  tauto

/-- **Round robin.** In a run from the empty list in which no task is freed, let `op` be followed
by the operations `middle` and these by a `task_next`. If `op` is a `task_next` and the last one
selects the same task as it did for the first time since, everything else had one turn in
between. If `op` creates a task and the last one selects the head for the first time since, the
new task had its turn. -/
theorem roundRobin (tasks : ℕ → Task) {before middle : List TaskOp} {op : TaskOp}
    (hkeeps : ∀ o ∈ before ++ middle, KeepsTasks o) {r₀ r₁ r₂ r₃ : TaskRun} {selected : List ℕ}
    (h₀ : run taskStep (emptyTaskRun tasks) before = some r₀) (hlive : r₀.live ≠ [])
    (h₁ : taskStep r₀ op = some r₁)
    (h₂ : run schedStep ⟨r₁, []⟩ middle = some ⟨r₂, selected⟩)
    (h₃ : taskStep r₂ .taskNext = some r₃) :
    (op = .taskNext → r₁.list.currentTask ∉ selected →
      r₃.list.currentTask = r₁.list.currentTask → FullTurn r₁ r₂ selected) ∧
    (∀ task pageDirectory registers process,
      op = .taskNew task pageDirectory registers process → r₁.list.taskHead ∉ selected →
      r₃.list.currentTask = r₁.list.taskHead → task ∈ selected) := by
  have hbefore : ∀ o ∈ before, KeepsTasks o := fun o ho => hkeeps o (List.mem_append_left _ ho)
  have hmiddle : ∀ o ∈ middle, KeepsTasks o := fun o ho => hkeeps o (List.mem_append_right _ ho)
  have hok₀ := run_taskListOk hbefore h₀
  rcases hok₀.rotates hlive with ⟨A₀, B₀, -, hrot₀⟩
  constructor
  · rintro rfl hselected hcurrent
    have hrot := (hrot₀.taskNext h₁).1
    rcases hrot.ok.rotates hrot.live_ne_nil with ⟨A, B, hAB, hrot₁⟩
    have hsince : SinceTurn A r₁.list.currentTask B ⟨r₂, selected⟩ :=
      run_keeps (fun _ _ _ h hop hstep => h.step hop hstep)
        ⟨_, hrot₁, fun _ => Passing.start (s := ⟨A ++ [r₁.list.currentTask], B⟩) rfl⟩ hmiddle h₂
    rcases hsince with ⟨s, hrot₂, hpassing⟩
    have hnodup : s.nodes.Nodup := hrot₂.nodes ▸ hrot₂.ok.distinct
    have hnext := (hrot₂.taskNext h₃).1.current
    rw [hcurrent] at hnext
    rcases (hpassing hselected).full hnodup hnext with ⟨N, N', hnodes, hturns⟩
    have hturns : selected = B ++ N ++ A := hturns
    have hlive₂ : r₂.live = s.nodes := hrot₂.nodes
    refine ⟨fun x hx hne => ?_, A, B, N, N', hAB, ?_, hturns⟩
    · rw [hturns]
      exact count_full_turn (hnodes ▸ hnodup) (hAB ▸ hx) hne
    · rw [hlive₂, hnodes, hAB]
      simp
  · rintro task pageDirectory registers process rfl hselected hcurrent
    rcases hrot₀.taskNew h₁ with ⟨hrot₁, -, -, hhead⟩
    have hfirst : ∃ l, A₀ ++ [r₀.list.currentTask] = r₁.list.taskHead :: l := by
      have hforward := hok₀.forward
      rw [hrot₀.nodes, ← hhead] at hforward
      cases A₀ with
      | nil => exact ⟨[], by rw [hforward.1]; rfl⟩
      | cons a A₀ => exact ⟨A₀ ++ [r₀.list.currentTask], by rw [hforward.1]; rfl⟩
    have hsince : SinceNew r₁.list.taskHead task ⟨r₂, selected⟩ :=
      run_keeps (fun _ _ _ h hop hstep => h.step hop hstep)
        ⟨_, hrot₁, fun _ => Newcomer.start hfirst task⟩ hmiddle h₂
    rcases hsince with ⟨s, hrot₂, hnewcomer⟩
    have hnext := (hrot₂.taskNext h₃).1.current
    rw [hcurrent] at hnext
    exact (hnewcomer hselected).full (hrot₂.nodes ▸ hrot₂.ok.distinct) hnext

/-- Two tasks, and a third one that joins between two turns of the first. -/
theorem roundRobin_threeTasks :
    ∃ r₁ r₂, run taskStep (emptyTaskRun clearedTasks)
        [.taskNew 4096 ⟨0, 0⟩ {} 0, .taskNew 8192 ⟨0, 0⟩ {} 0, .taskNext, .taskNext] = some r₁ ∧
      run schedStep ⟨r₁, []⟩ [.taskNew 12288 ⟨0, 0⟩ {} 0, .taskNext, .taskNext] =
        some ⟨r₂, [8192, 12288]⟩ ∧
      FullTurn r₁ r₂ [8192, 12288] := by
  exact ⟨_, _, rfl, rfl, (@roundRobin clearedTasks
    [.taskNew 4096 ⟨0, 0⟩ {} 0, .taskNew 8192 ⟨0, 0⟩ {} 0, .taskNext]
    [.taskNew 12288 ⟨0, 0⟩ {} 0, .taskNext, .taskNext] .taskNext (by simp [KeepsTasks])
    _ _ _ _ _ rfl (by decide) rfl rfl rfl).1 rfl (by decide) rfl⟩

end MarrowOS
