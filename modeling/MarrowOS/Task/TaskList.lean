import MarrowOS.Memory.Paging
import MarrowOS.Lib.Runs
import Mathlib.Logic.Function.Basic

/-!
# The task list (`task.c`)

The tasks form a doubly linked list threaded through the task structures, with three global
cursors `task_head`, `task_tail` and `current_task`. A `TaskList` is the three cursors and
the memory holding the structures, addressed by pointer; freeing a task does not clear its
structure, so a stale link still reads the old contents.

`TaskRun` pairs the list with the history variable `live`, the tasks created and not yet
freed in creation order, and `taskStep` is one operation on it.
-/

namespace MarrowOS

/-- `struct registers`. -/
structure Registers where
  edi : ℕ := 0
  esi : ℕ := 0
  ebp : ℕ := 0
  ebx : ℕ := 0
  edx : ℕ := 0
  ecx : ℕ := 0
  eax : ℕ := 0
  ip : ℕ := 0
  cs : ℕ := 0
  flags : ℕ := 0
  esp : ℕ := 0
  ss : ℕ := 0
deriving DecidableEq, Repr

/-- `struct task`. -/
structure Task where
  pageDirectory : Paging4gbChunk
  registers : Registers
  process : ℕ
  next : ℕ
  prev : ℕ
deriving DecidableEq, Repr

/-- The cursors of the task list and the task structures in memory. -/
structure TaskList where
  taskHead : ℕ
  taskTail : ℕ
  currentTask : ℕ
  tasks : ℕ → Task

namespace TaskList

/-- Store a whole structure at `a`. -/
def write (s : TaskList) (a : ℕ) (t : Task) : TaskList :=
  { s with tasks := Function.update s.tasks a t }

/-- `a->next = x`. -/
def setNext (s : TaskList) (a x : ℕ) : TaskList := s.write a { s.tasks a with next := x }

/-- `a->prev = x`. -/
def setPrev (s : TaskList) (a x : ℕ) : TaskList := s.write a { s.tasks a with prev := x }

/-- The `next` links. -/
def next (s : TaskList) (a : ℕ) : ℕ := (s.tasks a).next

/-- The `prev` links. -/
def prev (s : TaskList) (a : ℕ) : ℕ := (s.tasks a).prev

variable (s : TaskList) (a x : ℕ) (t : Task)

@[simp] lemma write_taskHead : (s.write a t).taskHead = s.taskHead := rfl
@[simp] lemma write_taskTail : (s.write a t).taskTail = s.taskTail := rfl
@[simp] lemma write_currentTask : (s.write a t).currentTask = s.currentTask := rfl
@[simp] lemma setNext_taskHead : (s.setNext a x).taskHead = s.taskHead := rfl
@[simp] lemma setNext_taskTail : (s.setNext a x).taskTail = s.taskTail := rfl
@[simp] lemma setNext_currentTask : (s.setNext a x).currentTask = s.currentTask := rfl
@[simp] lemma setPrev_taskHead : (s.setPrev a x).taskHead = s.taskHead := rfl
@[simp] lemma setPrev_taskTail : (s.setPrev a x).taskTail = s.taskTail := rfl
@[simp] lemma setPrev_currentTask : (s.setPrev a x).currentTask = s.currentTask := rfl

@[simp] lemma write_next : (s.write a t).next = Function.update s.next a t.next := by
  funext b
  simp only [next, write, Function.update_apply]
  split <;> rfl

@[simp] lemma write_prev : (s.write a t).prev = Function.update s.prev a t.prev := by
  funext b
  simp only [prev, write, Function.update_apply]
  split <;> rfl

@[simp] lemma setNext_next : (s.setNext a x).next = Function.update s.next a x := by
  simp [setNext]

@[simp] lemma setNext_prev : (s.setNext a x).prev = s.prev := by
  simp only [setNext, write_prev]
  exact Function.update_eq_self a s.prev

@[simp] lemma setPrev_next : (s.setPrev a x).next = s.next := by
  simp only [setPrev, write_next]
  exact Function.update_eq_self a s.next

@[simp] lemma setPrev_prev : (s.setPrev a x).prev = Function.update s.prev a x := by
  simp [setPrev]

end TaskList

def taskGetNext (s : TaskList) : ℕ :=
  if s.next s.currentTask = 0 then s.taskHead else s.next s.currentTask

/-- The first statement of `task_list_remove`, which mends the link before the task. -/
def taskListMendNext (task : ℕ) (s : TaskList) : TaskList :=
  if s.prev task ≠ 0 then s.setNext (s.prev task) (s.next task) else s

def taskListRemove (task : ℕ) (s : TaskList) : TaskList :=
  let s := taskListMendNext task s
  let s := if task = s.taskHead then { s with taskHead := s.next task } else s
  let s := if task = s.taskTail then { s with taskTail := s.prev task } else s
  if task = s.currentTask then { s with currentTask := taskGetNext s } else s

/-- The registers that `task_init` sets up, with the entry point of an ELF file. -/
def taskInitRegisters (elfEntry : Option ℕ) : Registers :=
  let registers : Registers := { ip := marrowosProgramVirtualAddress }
  let registers := match elfEntry with
    | some entry => { registers with ip := entry }
    | none => registers
  { registers with
    ss := userDataSegment
    cs := userCodeSegment
    esp := marrowosProgramVirtualStackAddressStart }

/-- The part of `task_new` after a successful `task_init`: the structure, cleared but for
what `task_init` set, is linked at the end of the list. -/
def taskNewLink (task : ℕ) (pageDirectory : Paging4gbChunk) (registers : Registers)
    (process : ℕ) (s : TaskList) : TaskList :=
  let s := s.write task { pageDirectory, registers, process, next := 0, prev := 0 }
  if s.taskHead = 0 then { s with taskHead := task, taskTail := task, currentTask := task }
  else
    let s := s.setNext s.taskTail task
    let s := s.setPrev task s.taskTail
    { s with taskTail := task }

/-- The effect of `task_switch` on the list. -/
def taskSwitchCurrent (task : ℕ) (s : TaskList) : TaskList := { s with currentTask := task }

/-! ## Runs -/

/-- The list and the tasks that are live, in creation order. -/
structure TaskRun where
  list : TaskList
  live : List ℕ

/-- The operations on the list. `task_new` succeeds: the allocator answers `task`, and
`task_init` sets up the structure with the given page directory, registers and process.
`taskNext` is `task_next`, or a `task_switch` to the task `task_get_next` answers. -/
inductive TaskOp
  | taskNew (task : ℕ) (pageDirectory : Paging4gbChunk) (registers : Registers) (process : ℕ)
  | taskFree (task : ℕ)
  | taskNext

/-- One operation. A fresh structure is not null and not the address of a live task; only live
tasks are freed; switching needs a current task to start from. -/
def taskStep (r : TaskRun) : TaskOp → Option TaskRun
  | .taskNew task pageDirectory registers process =>
    if task ≠ 0 ∧ task ∉ r.live then
      some ⟨taskNewLink task pageDirectory registers process r.list, r.live ++ [task]⟩
    else none
  | .taskFree task =>
    if task ∈ r.live then some ⟨taskListRemove task r.list, r.live.erase task⟩ else none
  | .taskNext =>
    if r.live ≠ [] then some ⟨taskSwitchCurrent (taskGetNext r.list) r.list, r.live⟩ else none

/-- The empty list; the structures in memory hold anything. -/
def emptyTaskRun (tasks : ℕ → Task) : TaskRun := ⟨⟨0, 0, 0, tasks⟩, []⟩

end MarrowOS
