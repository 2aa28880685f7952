import MarrowOS.Lib.Links
import MarrowOS.Task.TaskList
import Mathlib.Tactic.Tauto

/-!
# The task list invariant

`TaskListOk` is the invariant a doubly linked list with cursors is supposed to have.
`task_new` and the scheduling steps keep it. `task_list_remove` mends the `next` link before
the removed task but not the `prev` link after it, so removal keeps the invariant exactly when
there is no task after the removed one (`taskListOk_throughout_iff`).
-/

namespace MarrowOS

open Links Runs

/-- The task list is the list of the live tasks. -/
structure TaskListOk (r : TaskRun) : Prop where
  /-- No task is in the list twice. -/
  distinct : r.live.Nodup
  /-- Following `next` from `task_head` visits the live tasks in creation order. -/
  forward : Segment 0 r.list.next r.list.taskHead r.live 0
  /-- The `prev` links name the predecessors. -/
  backward : Backlinked r.list.prev 0 r.live
  /-- `task_tail` is the last live task. -/
  tail : r.list.taskTail = r.live.getLastD 0
  /-- `current_task` is live, null when nothing is. -/
  current : if r.live = [] then r.list.currentTask = 0 else r.list.currentTask ∈ r.live
  /-- No cursor and no link of a live task names a task that is not live. -/
  noStale : ∀ x, (x = r.list.taskHead ∨ x = r.list.taskTail ∨ x = r.list.currentTask ∨
    ∃ a ∈ r.live, x = r.list.next a ∨ x = r.list.prev a) → x = 0 ∨ x ∈ r.live

/-- Freeing is only asked of the last task of the list, the one with no `next`. -/
def FreesLast (r : TaskRun) : TaskOp → Prop
  | .taskFree task => r.list.next task = 0
  | _ => True

/-! ## The invariant without its last field -/

section
variable {r : TaskRun}

/-- Consistent links and cursors never name a task that is not live. -/
lemma TaskListOk.of_links (distinct : r.live.Nodup)
    (forward : Segment 0 r.list.next r.list.taskHead r.live 0)
    (backward : Backlinked r.list.prev 0 r.live) (tail : r.list.taskTail = r.live.getLastD 0)
    (current : if r.live = [] then r.list.currentTask = 0 else r.list.currentTask ∈ r.live) :
    TaskListOk r := by
  refine ⟨distinct, forward, backward, tail, current, ?_⟩
  rintro x (rfl | rfl | rfl | ⟨a, ha, rfl | rfl⟩)
  · exact forward.start_mem
  · rw [tail]
    exact getLastD_eq_or_mem
  · split at current
    · exact Or.inl current
    · exact Or.inr current
  · exact forward.next_mem ha
  · exact backward.prev_mem ha

lemma TaskListOk.head_eq_zero_iff (h : TaskListOk r) : r.list.taskHead = 0 ↔ r.live = [] := by
  constructor
  · intro h0
    have hf := h.forward
    rw [h0] at hf
    exact hf.eq_nil_of_start
  · intro hl
    have hf := h.forward
    rw [hl] at hf
    exact hf

lemma emptyTaskRun_ok (tasks : ℕ → Task) : TaskListOk (emptyTaskRun tasks) :=
  .of_links List.nodup_nil rfl trivial rfl rfl

end

/-! ## `task_new` -/

section
variable {r : TaskRun} {task process : ℕ} {pageDirectory : Paging4gbChunk}
  {registers : Registers}

/-- The links and cursors after a task was appended to a non-empty list. -/
lemma taskNewLink_of_head_ne {s : TaskList} (hhead : s.taskHead ≠ 0) (htail : s.taskTail ≠ task) :
    (taskNewLink task pageDirectory registers process s).next
        = Function.update (Function.update s.next s.taskTail task) task 0 ∧
      (taskNewLink task pageDirectory registers process s).prev
        = Function.update s.prev task s.taskTail ∧
      (taskNewLink task pageDirectory registers process s).taskHead = s.taskHead ∧
      (taskNewLink task pageDirectory registers process s).taskTail = task ∧
      (taskNewLink task pageDirectory registers process s).currentTask = s.currentTask := by
  have hs : taskNewLink task pageDirectory registers process s =
      { ((s.write task ⟨pageDirectory, registers, process, 0, 0⟩).setNext s.taskTail task).setPrev
          task s.taskTail with taskTail := task } := by
    simp [taskNewLink, hhead]
  rw [hs]
  refine ⟨?_, ?_, rfl, rfl, rfl⟩
  · calc _ = ((((s.write task ⟨pageDirectory, registers, process, 0, 0⟩).setNext s.taskTail
          task).setPrev task s.taskTail)).next := rfl
      _ = _ := by simp [Function.update_comm htail.symm]
  · calc _ = ((((s.write task ⟨pageDirectory, registers, process, 0, 0⟩).setNext s.taskTail
          task).setPrev task s.taskTail)).prev := rfl
      _ = _ := by simp

/-- The links and cursors after a task was put on the empty list. -/
lemma taskNewLink_of_head_eq {s : TaskList} (hhead : s.taskHead = 0) :
    (taskNewLink task pageDirectory registers process s).next = Function.update s.next task 0 ∧
      (taskNewLink task pageDirectory registers process s).prev = Function.update s.prev task 0 ∧
      (taskNewLink task pageDirectory registers process s).taskHead = task ∧
      (taskNewLink task pageDirectory registers process s).taskTail = task ∧
      (taskNewLink task pageDirectory registers process s).currentTask = task := by
  have hs : taskNewLink task pageDirectory registers process s =
      { s.write task ⟨pageDirectory, registers, process, 0, 0⟩ with
        taskHead := task, taskTail := task, currentTask := task } := by
    simp [taskNewLink, hhead]
  rw [hs]
  exact ⟨s.write_next _ _, s.write_prev _ _, rfl, rfl, rfl⟩

/-- Only the first task becomes the current one. -/
lemma taskNewLink_currentTask {s : TaskList} (hhead : s.taskHead ≠ 0) :
    (taskNewLink task pageDirectory registers process s).currentTask = s.currentTask := by
  simp [taskNewLink, hhead]

lemma TaskListOk.taskNew_empty (h : TaskListOk r) (hlive : r.live = []) (h0 : task ≠ 0) :
    TaskListOk ⟨taskNewLink task pageDirectory registers process r.list, r.live ++ [task]⟩ := by
  have hhead : r.list.taskHead = 0 := h.head_eq_zero_iff.mpr hlive
  obtain ⟨hn, hp, hh, ht, hc⟩ := @taskNewLink_of_head_eq task process pageDirectory
    registers _ hhead
  rw [hlive]
  refine .of_links (by simp) ?_ ?_ ?_ ?_
  · simp [hn, hh, h0]
  · simp [hp]
  · simp [ht]
  · simp [hc]

lemma TaskListOk.taskNew (h : TaskListOk r) (h0 : task ≠ 0) (hfresh : task ∉ r.live) :
    TaskListOk ⟨taskNewLink task pageDirectory registers process r.list, r.live ++ [task]⟩ := by
  -- behind the tail `t`, if there is one
  rcases r.live.eq_nil_or_concat with hlive | ⟨l, t, hlive⟩
  · exact h.taskNew_empty hlive h0
  rw [List.concat_eq_append] at hlive
  have htail : r.list.taskTail = t := by rw [h.tail, hlive]; simp
  have hhead : r.list.taskHead ≠ 0 := by
    rw [Ne, h.head_eq_zero_iff, hlive]
    simp
  have htask : t ≠ task := by
    rintro rfl
    exact hfresh (by simp [hlive])
  have hnew : ∀ x ∈ l ++ [t], x ≠ task := by
    rintro x hx rfl
    exact hfresh (hlive ▸ hx)
  have hnd := h.distinct
  rw [hlive] at hnd
  have hlt : ∀ x ∈ l, x ≠ t := by
    rintro x hx rfl
    exact (List.disjoint_of_nodup_append hnd) hx (by simp)
  have hfwd := h.forward
  rw [hlive, segment_append] at hfwd
  obtain ⟨b, hl, rfl, ht0, -⟩ := hfwd
  have hbwd := h.backward
  rw [hlive] at hbwd
  have hcur := h.current
  rw [hlive, if_neg (by simp)] at hcur
  obtain ⟨hn, hp, hh, htl, hc⟩ := @taskNewLink_of_head_ne task process pageDirectory
    registers _ hhead (htail ▸ htask)
  rw [hlive]
  refine .of_links ?_ ?_ ?_ ?_ ?_
  · rw [List.nodup_append]
    refine ⟨hnd, by simp, ?_⟩
    intro x hx y hy
    rw [List.mem_singleton.mp hy]
    exact hnew x hx
  · -- the old links up to the tail, then the two links that were set
    rw [hn, hh, htail, List.append_assoc, segment_append]
    refine ⟨b, hl.congr fun x hx => ?_, ?_⟩
    · rw [Function.update_of_ne (hnew x (by simp [hx])), Function.update_of_ne (hlt x hx)]
    · simp [Function.update_of_ne htask, ht0, h0]
  · rw [hp, htail, backlinked_append]
    refine ⟨hbwd.congr fun x hx => ?_, by simp⟩
    rw [Function.update_of_ne (hnew x hx)]
  · rw [htl]
    simp
  · rw [hc, if_neg (by simp)]
    simp only [List.mem_append] at hcur ⊢
    tauto

end

/-! ## Scheduling -/

lemma TaskListOk.getNext_mem {r : TaskRun} (h : TaskListOk r) (hlive : r.live ≠ []) :
    taskGetNext r.list ∈ r.live := by
  have hcur := h.current
  rw [if_neg hlive] at hcur
  have hhead : r.list.taskHead ≠ 0 := by rwa [Ne, h.head_eq_zero_iff]
  unfold taskGetNext
  split
  · exact (h.noStale _ (Or.inl rfl)).resolve_left hhead
  · exact (h.noStale _ (Or.inr (Or.inr (Or.inr ⟨_, hcur, Or.inl rfl⟩)))).resolve_left ‹_›

lemma TaskListOk.taskNext {r : TaskRun} (h : TaskListOk r) (hlive : r.live ≠ []) :
    TaskListOk ⟨taskSwitchCurrent (taskGetNext r.list) r.list, r.live⟩ := by
  refine .of_links h.distinct h.forward h.backward h.tail ?_
  rw [if_neg hlive]
  exact h.getNext_mem hlive

/-! ## `task_list_remove` -/

section
variable {r : TaskRun} {task : ℕ}

lemma taskListMendNext_tasks {s : TaskList} (hprev : s.prev task ≠ task) :
    (taskListMendNext task s).tasks task = s.tasks task := by
  unfold taskListMendNext
  split
  · exact Function.update_of_ne hprev.symm _ _
  · rfl

lemma taskListMendNext_cursors (task : ℕ) (s : TaskList) :
    (taskListMendNext task s).taskHead = s.taskHead ∧
      (taskListMendNext task s).taskTail = s.taskTail ∧
      (taskListMendNext task s).currentTask = s.currentTask := by
  unfold taskListMendNext
  split <;> exact ⟨rfl, rfl, rfl⟩

lemma taskListMendNext_prev (task : ℕ) (s : TaskList) :
    (taskListMendNext task s).prev = s.prev := by
  unfold taskListMendNext
  split
  · exact s.setNext_prev _ _
  · rfl

lemma taskListMendNext_next (task : ℕ) (s : TaskList) :
    (taskListMendNext task s).next =
      if s.prev task = 0 then s.next else Function.update s.next (s.prev task) (s.next task) := by
  by_cases hp : s.prev task = 0
  · rw [if_pos hp, taskListMendNext, if_neg (not_not_intro hp)]
  · rw [if_neg hp, taskListMendNext, if_pos hp]
    exact s.setNext_next _ _

/-- The structures are last written by the first statement of `task_list_remove`. -/
lemma taskListRemove_tasks (s : TaskList) :
    (taskListRemove task s).tasks = (taskListMendNext task s).tasks := by
  simp only [taskListRemove]
  split_ifs <;> rfl

lemma taskListRemove_prev (s : TaskList) : (taskListRemove task s).prev = s.prev := by
  rw [← taskListMendNext_prev task s]
  funext x
  rw [TaskList.prev, TaskList.prev, taskListRemove_tasks]

/-- Removing a task that has a successor leaves the successor's `prev` on it. -/
lemma TaskListOk.not_taskFree (h : TaskListOk r) (hmem : task ∈ r.live)
    (hnext : r.list.next task ≠ 0) :
    ¬ TaskListOk ⟨taskListRemove task r.list, r.live.erase task⟩ := by
  intro h'
  obtain ⟨l₁, l₂, hlive⟩ := List.append_of_mem hmem
  have hnd := h.distinct
  rw [hlive] at hnd
  have htask : task ∉ l₁ := fun hx => List.disjoint_of_nodup_append hnd hx (by simp)
  have hfwd := h.forward
  rw [hlive] at hfwd
  cases l₂ with
  | nil => exact hnext hfwd.next_eq
  | cons n l₂ =>
    have hprev : r.list.prev n = task := by
      have hb := h.backward
      rw [hlive, show l₁ ++ task :: n :: l₂ = (l₁ ++ [task]) ++ n :: l₂ by simp] at hb
      rw [hb.prev_eq]
      simp
    have hb' := h'.backward
    rw [taskListRemove_prev, hlive, List.erase_append_right _ htask, List.erase_cons_head] at hb'
    rw [hb'.prev_eq] at hprev
    rcases getLastD_eq_or_mem (l := l₁) (p := 0) with hz | hz
    · exact hfwd.ne_nil (by simp) (hprev.symm.trans hz)
    · exact htask (hprev ▸ hz)

/-- The links and cursors after the last task of the list was removed. -/
lemma taskListRemove_last {s : TaskList} (hnext : s.next task = 0) (hprev : s.prev task ≠ task)
    (htail : s.taskTail = task) :
    (taskListRemove task s).next =
        (if s.prev task = 0 then s.next else Function.update s.next (s.prev task) 0) ∧
      (taskListRemove task s).taskHead = (if task = s.taskHead then 0 else s.taskHead) ∧
      (taskListRemove task s).taskTail = s.prev task ∧
      (taskListRemove task s).currentTask =
        (if task = s.currentTask then (if task = s.taskHead then 0 else s.taskHead)
          else s.currentTask) := by
  have htask := taskListMendNext_tasks hprev
  obtain ⟨hh, ht, hc⟩ := taskListMendNext_cursors task s
  have hnext' : (s.tasks task).next = 0 := hnext
  constructor
  · have hmend := taskListMendNext_next task s
    rw [hnext] at hmend
    rw [← hmend]
    funext x
    rw [TaskList.next, TaskList.next, taskListRemove_tasks]
  unfold taskListRemove
  generalize taskListMendNext task s = s₁ at *
  obtain ⟨head, tail, current, tasks⟩ := s₁
  simp only at hh ht hc htask
  subst hh ht hc
  by_cases h₁ : s.taskHead = task <;> by_cases h₃ : s.currentTask = task <;>
    simp [@eq_comm _ task, htask, htail, hnext', h₁, h₃, taskGetNext, TaskList.next, TaskList.prev]

lemma TaskListOk.taskFree (h : TaskListOk r) (hmem : task ∈ r.live)
    (hnext : r.list.next task = 0) :
    TaskListOk ⟨taskListRemove task r.list, r.live.erase task⟩ := by
  obtain ⟨l, l₂, hlive⟩ := List.append_of_mem hmem
  have hfwd := h.forward
  rw [hlive] at hfwd
  -- a task without successor is the last one
  obtain rfl : l₂ = [] := by
    cases l₂ with
    | nil => rfl
    | cons n l₂ =>
      have hn := hfwd.next_eq
      simp only [List.cons_append, List.head_cons] at hn
      exact absurd (hn.symm.trans hnext) (hfwd.ne_nil (by simp))
  have hnd := h.distinct
  rw [hlive] at hnd
  have htask : task ∉ l := fun hx => List.disjoint_of_nodup_append hnd hx (by simp)
  have htask0 : task ≠ 0 := hfwd.ne_nil (by simp)
  have hbwd := h.backward
  rw [hlive] at hbwd
  have hp : r.list.prev task = l.getLastD 0 := hbwd.prev_eq
  have hpne : r.list.prev task ≠ task := by
    rw [hp]
    rintro heq
    rcases getLastD_eq_or_mem (l := l) (p := 0) with hz | hz
    · exact htask0 (heq.symm.trans hz)
    · exact htask (heq ▸ hz)
  have htail : r.list.taskTail = task := by rw [h.tail, hlive]; simp
  have hcur := h.current
  rw [hlive, if_neg (by simp)] at hcur
  obtain ⟨b, hseg, rfl, -, -⟩ := segment_append.mp hfwd
  obtain ⟨hn', hh', ht', hc'⟩ := taskListRemove_last hnext hpne htail
  rw [hlive, List.erase_append_right _ htask, List.erase_cons_head, List.append_nil]
  rcases l.eq_nil_or_concat with rfl | ⟨l, p, hl⟩
  · -- the sole task: the list becomes empty
    obtain rfl : r.list.currentTask = b := by simpa using hcur
    have hb : r.list.taskHead = r.list.currentTask := hseg
    refine .of_links List.nodup_nil ?_ trivial ?_ ?_
    · rw [segment_nil, hh', hb, if_pos rfl]
    · rw [ht', hp]
    · rw [if_pos rfl, hc', if_pos rfl, hb, if_pos rfl]
  · -- the predecessor `p` is the last task now
    rw [List.concat_eq_append] at hl
    subst hl
    have hp' : r.list.prev b = p := by rw [hp]; simp
    have hp0 : p ≠ 0 := hfwd.ne_nil (by simp)
    have hhead : r.list.taskHead ∈ l ++ [p] := by
      refine (hseg.start_mem).resolve_left ?_
      intro heq
      rw [heq] at hseg
      cases l with
      | nil => exact htask (by simp [hseg.1])
      | cons x l => exact htask (by simp [hseg.1])
    have hbh : b ≠ r.list.taskHead := by
      rintro heq
      exact htask (heq ▸ hhead)
    obtain ⟨c, hseg₁, rfl, -, -⟩ := segment_append.mp hseg
    have hlp : ∀ x ∈ l, x ≠ c := by
      rintro x hx rfl
      exact List.disjoint_of_nodup_append (List.nodup_append.mp hnd).1 hx (by simp)
    refine .of_links (List.nodup_append.mp hnd).1 ?_ ?_ ?_ ?_
    · rw [hn', hh', hp', if_neg hp0, if_neg hbh, segment_append]
      refine ⟨c, hseg₁.congr fun x hx => Function.update_of_ne (hlp x hx) _ _, ?_⟩
      simp [hp0]
    · rw [taskListRemove_prev]
      exact (backlinked_append.mp hbwd).1
    · rw [ht', hp]
    · rw [if_neg (by simp), hc', if_neg hbh]
      split
      · exact hhead
      · rename_i hne
        rcases List.mem_append.mp hcur with hx | hx
        · exact hx
        · exact absurd (List.mem_singleton.mp hx).symm hne

end

/-! ## A task that comes and goes -/

/-- The cursors and the tasks `live` are the same. -/
structure SameTasks (live : List ℕ) (s s' : TaskList) : Prop where
  taskHead : s'.taskHead = s.taskHead
  taskTail : s'.taskTail = s.taskTail
  currentTask : s'.currentTask = s.currentTask
  tasks : ∀ t ∈ live, s'.tasks t = s.tasks t

lemma SameTasks.refl (live : List ℕ) (s : TaskList) : SameTasks live s s :=
  ⟨rfl, rfl, rfl, fun _ _ => rfl⟩

/-- The structures after a task was appended to a non-empty list. -/
lemma taskNewLink_tasks {s : TaskList} {task process t : ℕ} {pageDirectory : Paging4gbChunk}
    {registers : Registers} (hhead : s.taskHead ≠ 0) (hne : t ≠ task) :
    (taskNewLink task pageDirectory registers process s).tasks t =
      if t = s.taskTail then { s.tasks t with next := task } else s.tasks t := by
  have hs : taskNewLink task pageDirectory registers process s =
      { ((s.write task ⟨pageDirectory, registers, process, 0, 0⟩).setNext s.taskTail task).setPrev
          task s.taskTail with taskTail := task } := by
    simp [taskNewLink, hhead]
  rw [hs]
  by_cases ht : t = s.taskTail
  · subst ht
    simp [TaskList.setPrev, TaskList.setNext, TaskList.write, Function.update_of_ne hne]
  · simp [TaskList.setPrev, TaskList.setNext, TaskList.write, Function.update_of_ne hne, ht]

/-- A task that is linked at the end of the list and then removed leaves no trace. -/
lemma TaskListOk.taskListRemove_taskNewLink {s : TaskList} {live : List ℕ}
    (h : TaskListOk ⟨s, live⟩) {task : ℕ} (h0 : task ≠ 0) (hfresh : task ∉ live)
    (pageDirectory : Paging4gbChunk) (registers : Registers) (process : ℕ) :
    SameTasks live s
      (taskListRemove task (taskNewLink task pageDirectory registers process s)) := by
  rcases live.eq_nil_or_concat with rfl | ⟨l, t, rfl⟩
  · -- the sole task
    have hhead : s.taskHead = 0 := h.head_eq_zero_iff.mpr rfl
    have htail : s.taskTail = 0 := h.tail
    have hcurrent : s.currentTask = 0 := h.current
    obtain ⟨hn, hp, hh, ht, hc⟩ := @taskNewLink_of_head_eq task process pageDirectory registers
      s hhead
    generalize taskNewLink task pageDirectory registers process s = s₁ at hn hp hh ht hc ⊢
    have hnext : s₁.next task = 0 := by rw [hn, Function.update_self]
    have hprev : s₁.prev task = 0 := by rw [hp, Function.update_self]
    obtain ⟨-, hh', ht', hc'⟩ := taskListRemove_last hnext (by rw [hprev]; exact h0.symm) ht
    refine ⟨?_, ?_, ?_, fun t ht => absurd ht List.not_mem_nil⟩
    · rw [hh', if_pos hh.symm, hhead]
    · rw [ht', hprev, htail]
    · rw [hc', if_pos hc.symm, if_pos hh.symm, hcurrent]
  · -- behind the tail `t`
    rw [List.concat_eq_append] at h hfresh ⊢
    have htail : s.taskTail = t := by
      have htail := h.tail
      simpa using htail
    have hhead : s.taskHead ≠ 0 := by
      rw [Ne, h.head_eq_zero_iff]
      simp
    have hmem : ∀ x ∈ l ++ [t], x ≠ task := by
      rintro x hx rfl
      exact hfresh hx
    have ht : t ≠ task := hmem t (by simp)
    have hheadNe : task ≠ s.taskHead := by
      rcases h.noStale s.taskHead (Or.inl rfl) with hzero | hin
      · exact absurd hzero hhead
      · exact (hmem _ hin).symm
    have hcurrent : s.currentTask ∈ l ++ [t] := by
      have hcurrent := h.current
      rw [if_neg (by simp)] at hcurrent
      exact hcurrent
    have ht0 : t ≠ 0 := h.forward.ne_nil (by simp)
    have hlast : s.next t = 0 := by
      have hforward := h.forward
      exact hforward.next_eq
    obtain ⟨hn, hp, hh, htl, hc⟩ := @taskNewLink_of_head_ne task process pageDirectory registers
      s hhead (htail ▸ ht)
    have htasks := fun x hx => @taskNewLink_tasks s task process x pageDirectory registers hhead
      (hmem x hx)
    generalize taskNewLink task pageDirectory registers process s = s₁ at hn hp hh htl hc htasks ⊢
    have hnext : s₁.next task = 0 := by rw [hn, Function.update_self]
    have hprev : s₁.prev task = t := by rw [hp, Function.update_self, htail]
    obtain ⟨-, hh', ht', hc'⟩ := taskListRemove_last hnext (by rw [hprev]; exact ht) htl
    refine ⟨?_, ?_, ?_, fun x hx => ?_⟩
    · rw [hh', hh, if_neg hheadNe]
    · rw [ht', hprev, htail]
    · rw [hc', hc, if_neg (hmem _ hcurrent).symm]
    · -- the link of the old tail was set and is mended again
      rw [taskListRemove_tasks, taskListMendNext, hprev, if_pos ht0, hnext]
      show Function.update s₁.tasks t { s₁.tasks t with next := 0 } x = s.tasks x
      have htask := htasks x hx
      rw [htail] at htask
      by_cases hxt : x = t
      · subst hxt
        rw [if_pos rfl] at htask
        rw [Function.update_self, htask]
        show ({ s.tasks x with next := 0 } : Task) = s.tasks x
        rw [← hlast]
        rfl
      · rw [if_neg hxt] at htask
        rw [Function.update_of_ne hxt, htask]

/-! ## Runs -/

/-- What one operation that meets the condition keeps. -/
lemma TaskListOk.step {r r' : TaskRun} {op : TaskOp} (h : TaskListOk r) (hop : FreesLast r op)
    (hstep : taskStep r op = some r') : TaskListOk r' := by
  cases op with
  | taskNew task pageDirectory registers process =>
    simp only [taskStep] at hstep
    split at hstep
    · obtain rfl := Option.some.inj hstep
      exact h.taskNew (by tauto) (by tauto)
    · cases hstep
  | taskFree task =>
    simp only [taskStep] at hstep
    split at hstep
    · obtain rfl := Option.some.inj hstep
      exact h.taskFree ‹_› hop
    · cases hstep
  | taskNext =>
    simp only [taskStep] at hstep
    split at hstep
    · obtain rfl := Option.some.inj hstep
      exact h.taskNext ‹_›
    · cases hstep

/-- An operation that does not meet it breaks the list at once. -/
lemma TaskListOk.not_step {r r' : TaskRun} {op : TaskOp} (h : TaskListOk r)
    (hop : ¬ FreesLast r op) (hstep : taskStep r op = some r') : ¬ TaskListOk r' := by
  cases op with
  | taskNew task pageDirectory registers process => exact absurd trivial hop
  | taskNext => exact absurd trivial hop
  | taskFree task =>
    simp only [taskStep] at hstep
    split at hstep
    · obtain rfl := Option.some.inj hstep
      exact h.not_taskFree ‹_› hop
    · cases hstep

/-- Over every run from the empty list, the task list is the list of the live tasks in every
state reached exactly when every `task_free` of the run is of the last task. -/
theorem taskListOk_throughout_iff (tasks : ℕ → Task) (ops : List TaskOp)
    (hrun : (run taskStep (emptyTaskRun tasks) ops).isSome) :
    Throughout taskStep TaskListOk (emptyTaskRun tasks) ops ↔
      Meets taskStep FreesLast (emptyTaskRun tasks) ops := by
  obtain ⟨r, hr⟩ := Option.isSome_iff_exists.mp hrun
  exact throughout_iff_meets (fun _ _ _ h hop => h.step hop) (fun _ _ _ h hop => h.not_step hop)
    (emptyTaskRun_ok tasks) hr

/-- A memory in which every structure is cleared. -/
def clearedTasks : ℕ → Task := fun _ => ⟨⟨0, 0⟩, {}, 0, 0, 0⟩

/-- Two tasks are created, the clock ticks, and they exit in reverse order. -/
theorem taskListOk_throughout_lifo :
    Throughout taskStep TaskListOk (emptyTaskRun clearedTasks)
      [.taskNew 4096 ⟨0, 0⟩ {} 0, .taskNew 8192 ⟨0, 0⟩ {} 0, .taskNext, .taskFree 8192,
        .taskFree 4096] := by
  refine (taskListOk_throughout_iff clearedTasks _ (by decide)).mpr ?_
  refine (meets_cons_of_step rfl).mpr ⟨trivial, (meets_cons_of_step rfl).mpr ⟨trivial,
    (meets_cons_of_step rfl).mpr ⟨trivial, (meets_cons_of_step rfl).mpr ⟨?_,
      (meets_cons_of_step rfl).mpr ⟨?_, trivial⟩⟩⟩⟩⟩
  · show TaskList.next _ 8192 = 0
    decide
  · show TaskList.next _ 4096 = 0
    decide

/-- After the head of two tasks exits, the other one's `prev` still names it. -/
theorem taskFree_head_leaves_stale_prev :
    ¬ ∀ (tasks : ℕ → Task) (ops : List TaskOp),
      (run taskStep (emptyTaskRun tasks) ops).isSome →
      Throughout taskStep TaskListOk (emptyTaskRun tasks) ops := by
  intro h
  have hok : TaskListOk _ :=
    (h clearedTasks [.taskNew 4096 ⟨0, 0⟩ {} 0, .taskNew 8192 ⟨0, 0⟩ {} 0, .taskFree 4096]
      (by decide)).last rfl
  have hprev : TaskList.prev _ 8192 = 0 := hok.backward.1
  exact absurd hprev (by decide)

end MarrowOS
