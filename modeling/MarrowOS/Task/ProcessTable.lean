import MarrowOS.Lib.Runs
import MarrowOS.Memory.KernelHeapTheorems
import MarrowOS.Task.LoadingTheorems

/-!
# The process table

A run loads processes, with or without a switch to them, and ends them. `ProcessTableOk` is what the
table of processes and `current_process` owe the rest of the kernel in every state it passes
through (`processTable_throughout`). The invariant behind it says which blocks belong to which
process: all the blocks of the processes in the table are live and apart from each other.
-/

namespace MarrowOS

open Extents Fallible FirstSlot Runs

/-! ## Runs -/

/-- The system, and whether a `process_load_switch` has succeeded. -/
structure ProcessRun where
  system : System
  switched : Bool

inductive ProcessOp
  | processLoad (file : LoadAnswers)
  | processLoadSwitch (file : LoadAnswers)
  | processTerminate (slot : ℕ)

/-- One operation; `none` when it faults, and when there is no process to end. -/
def processStep (r : ProcessRun) : ProcessOp → Option ProcessRun
  | .processLoad file =>
    match processLoad file r.system.kernel with
    | .error _ => none
    | .ok (_, _, kernel) => some ⟨{ r.system with kernel }, r.switched⟩
  | .processLoadSwitch file =>
    match processLoadSwitch file r.system with
    | .error _ => none
    | .ok (res, system) => some ⟨system, r.switched || res == 0⟩
  | .processTerminate slot =>
    match r.system.kernel.processes[slot]? with
    | some (some process) =>
      match processTerminate process r.system with
      | .error _ => none
      | .ok system => some ⟨system, r.switched⟩
    | _ => none

/-! ## What the table owes -/

/-- The block that the pointer points at is taken. -/
def Taken (heap : Heap) (ptr : ℕ) : Prop :=
  heapGetEntryType (heap.table.entries (heap.blockOf ptr)) = heapBlockTableEntryTaken

/-- `processes[i] == process`. -/
def Kernel.HasProcess (k : Kernel) (i : ℕ) (process : Process) : Prop :=
  k.processes[i]? = some (some process)

/-- All slots are taken. -/
def Kernel.TableFull (k : Kernel) : Prop :=
  ∀ i < marrowosMaxProcesses, ∃ process, k.HasProcess i process

/-- The process goes to the lowest free slot. -/
structure LowestFree (k k' : Kernel) (process : Process) : Prop where
  free : k.processes[process.id]? = some none
  lowest : ∀ i < process.id, ∃ other, k.HasProcess i other
  processes : k'.processes = k.processes.set process.id (some process)

/-- What the process table and `current_process` owe the kernel. -/
structure ProcessTableOk (r : ProcessRun) : Prop where
  length : r.system.kernel.processes.length = marrowosMaxProcesses
  live : ∀ i p, r.system.kernel.HasProcess i p → Taken r.system.kernel.machine.heap.heap p.addr
  id : ∀ i p, r.system.kernel.HasProcess i p → p.id = i
  task : ∀ i p, r.system.kernel.HasProcess i p → p.task ≠ 0 ∧
    Taken r.system.kernel.machine.heap.heap p.task ∧
    (r.system.kernel.tasks.tasks p.task).process = p.addr
  distinct : ∀ i j p q, r.system.kernel.HasProcess i p → r.system.kernel.HasProcess j q → i ≠ j →
    p.addr ≠ q.addr ∧ p.task ≠ q.task
  foreground : r.switched = true →
    ∃ i p, r.system.kernel.HasProcess i p ∧ r.system.currentProcess = p.addr
  load : ∀ file res loaded k', processLoad file r.system.kernel = .ok (res, loaded, k') →
    (res = -eistkn ↔ r.system.kernel.TableFull) ∧
    ∀ p, loaded = some p → LowestFree r.system.kernel k' p
  loadSwitch : ∀ file res s', processLoadSwitch file r.system = .ok (res, s') →
    (res = -eistkn ↔ r.system.kernel.TableFull) ∧
    (res = 0 → ∃ p, LowestFree r.system.kernel s'.kernel p ∧ s'.currentProcess = p.addr)

/-! ## The invariant -/

/-- A process of the table, with what it holds beyond its structure. -/
structure Held where
  process : Process
  size : ℕ
  chunk : Paging4gbChunk
  tables : List ℕ

def Held.blocks (h : Held) : List Alloc := h.process.blocks h.size h.chunk h.tables

/-- The task of a process. -/
structure Held.TaskOk (k : Kernel) (h : Held) : Prop where
  task : h.process.task ≠ 0
  process : (k.tasks.tasks h.process.task).process = h.process.addr
  pageDirectory : (k.tasks.tasks h.process.task).pageDirectory = h.chunk
  space : AddressSpace k.machine.mem h.chunk.directoryEntry h.tables

/-- The table holds the processes of `held`, whose blocks are live beside those of `base`. -/
structure TableInv (base : List Alloc) (held : List Held) (k : Kernel) : Prop where
  length : k.processes.length = marrowosMaxProcesses
  owns : k.Owns (held.flatMap Held.blocks ++ base)
  slot : ∀ i p, k.HasProcess i p ↔ ∃ h ∈ held, h.process = p ∧ p.id = i
  distinct : held.Pairwise fun a b => a.process.id ≠ b.process.id
  allocations : ∀ h ∈ held, ∀ e ∈ h.process.allocations, e.ptr = 0
  task : ∀ h ∈ held, h.TaskOk k

variable {k k' : Kernel} {base : List Alloc} {held : List Held} {h : Held} {r r' : ProcessRun}
  {files : LoadAnswers} {res : ℤ} {loaded : Option Process} {p : Process} {i : ℕ}

lemma Held.addr_mem (h : Held) : (⟨h.process.addr, sizeofProcess⟩ : Alloc) ∈ h.blocks :=
  List.mem_append_right _ (List.mem_append_right _ (List.mem_append_right _ List.mem_cons_self))

lemma Held.taskBlocks_eq (htask : h.process.task ≠ 0) :
    h.process.taskBlocks h.chunk h.tables =
      spaceAllocs h.chunk h.tables ++ [⟨h.process.task, sizeofTask⟩] := if_neg htask

lemma Held.task_mem (htask : h.process.task ≠ 0) :
    (⟨h.process.task, sizeofTask⟩ : Alloc) ∈ h.blocks := by
  unfold Held.blocks Process.blocks
  rw [Held.taskBlocks_eq htask]
  exact List.mem_append_left _ (List.mem_append_right _ List.mem_cons_self)

lemma Held.directory_mem (htask : h.process.task ≠ 0) :
    (⟨h.chunk.directoryEntry, 4096⟩ : Alloc) ∈ h.blocks := by
  unfold Held.blocks Process.blocks
  rw [Held.taskBlocks_eq htask]
  exact List.mem_append_left _ (List.mem_append_left _ (MarrowOS.directory_mem h.chunk h.tables))

lemma TableInv.mem_live (_hinv : TableInv base held k) (hh : h ∈ held) {a : Alloc}
    (ha : a ∈ h.blocks) : a ∈ k.fileBlocks ++ (held.flatMap Held.blocks ++ base) :=
  List.mem_append_right _ (List.mem_append_left _ (List.mem_flatMap.mpr ⟨h, hh, ha⟩))

/-- The first block of a live allocation is taken. -/
lemma HeapOwns.taken {heap : Heap} {live : List Alloc} (howns : HeapOwns heap live) {a : Alloc}
    (ha : a ∈ live) : Taken heap a.ptr := by
  have howned := howns.owned a ha _ (Extent.has_start (howns.len_pos ha)) (howns.start_lt a ha)
  unfold Taken
  rw [show heap.blockOf a.ptr = (heap.extent a).start from rfl, howned, heapGetEntryType_blockFlags]

/-- The blocks of the processes are live. -/
lemma TableInv.taken (hinv : TableInv base held k) (hh : h ∈ held) {a : Alloc}
    (ha : a ∈ h.blocks) : Taken k.machine.heap.heap a.ptr :=
  HeapOwns.taken hinv.owns (hinv.mem_live hh ha)

/-- Blocks of different processes have different addresses. -/
lemma TableInv.ptr_ne (hinv : TableInv base held k) {h' : Held} (hh : h ∈ held) (hh' : h' ∈ held)
    (hid : h.process.id ≠ h'.process.id) {a b : Alloc} (ha : a ∈ h.blocks) (hb : b ∈ h'.blocks)
    (hsize : a.size = b.size) : a.ptr ≠ b.ptr := by
  have hapart := (List.pairwise_append.mp (List.pairwise_append.mp hinv.owns.apart).2.1).1
  have hsymm : Std.Symm fun g g' : Held => ∀ x ∈ g.blocks, ∀ y ∈ g'.blocks,
      (k.machine.heap.heap.extent x).Apart (k.machine.heap.heap.extent y) :=
    ⟨fun g g' hgg' x hx y hy => (hgg' y hy x hx).symm⟩
  have hne : h ≠ h' := fun heq => hid (by rw [heq])
  have hab := List.Pairwise.forall (List.pairwise_flatMap.mp hapart).2 hh hh' hne a ha b hb
  intro hptr
  have heq : k.machine.heap.heap.extent a = k.machine.heap.heap.extent b := by
    unfold Heap.extent
    rw [hptr, hsize]
  have hlen := HeapOwns.len_pos hinv.owns (hinv.mem_live hh ha)
  rw [heq] at hab hlen
  exact hab _ (Extent.has_start hlen) (Extent.has_start hlen)

/-! ## Loading -/

lemma Held.TaskOk.keeps {live : List Alloc} (hok : h.TaskOk k) (hkeeps : k.Keeps live k')
    (hlive : ∀ a ∈ h.blocks, a ∈ live) : h.TaskOk k' := by
  rcases hkeeps.task _ (hlive _ (Held.task_mem hok.task)) with ⟨hprocess, hdirectory⟩
  refine ⟨hok.task, hprocess.trans hok.process, hdirectory.trans hok.pageDirectory, ?_⟩
  exact hok.space.sameOn hkeeps.same (hlive _ (Held.directory_mem hok.task))

lemma mem_live_of_mem (hh : h ∈ held) :
    ∀ a ∈ h.blocks, a ∈ held.flatMap Held.blocks ++ base :=
  fun _ ha => List.mem_append_left _ (List.mem_flatMap.mpr ⟨h, hh, ha⟩)

/-- A load that fails leaves the table. -/
lemma TableInv.keeps (hinv : TableInv base held k)
    (howns : k'.Owns (held.flatMap Held.blocks ++ base))
    (hkeeps : k.Keeps (held.flatMap Held.blocks ++ base) k') : TableInv base held k' := by
  constructor
  · rw [hkeeps.processes]
    exact hinv.length
  · exact howns
  · unfold Kernel.HasProcess
    rw [hkeeps.processes]
    exact hinv.slot
  · exact hinv.distinct
  · exact hinv.allocations
  · exact fun h hh => (hinv.task h hh).keeps hkeeps (mem_live_of_mem hh)

/-- A process that is put into a free slot is one more process of the table. -/
lemma hasProcess_add {slot : ℕ} {new : Held}
    (hslot : ∀ i q, k.HasProcess i q ↔ ∃ h ∈ held, h.process = q ∧ q.id = i)
    (hfree : k.processes[slot]? = some none) (hid : new.process.id = slot)
    (hprocesses : k'.processes = k.processes.set slot (some new.process)) :
    (∀ i q, k'.HasProcess i q ↔ ∃ h ∈ new :: held, h.process = q ∧ q.id = i) ∧
      ∀ h ∈ held, h.process.id ≠ slot := by
  have hlt : slot < k.processes.length := (List.getElem?_eq_some_iff.mp hfree).1
  have hget : ∀ i, k'.processes[i]? =
      if slot = i then some (some new.process) else k.processes[i]? := by
    intro i
    rw [hprocesses, List.getElem?_set]
    by_cases hi : slot = i
    · rw [if_pos hi, if_pos hi, if_pos hlt]
    · rw [if_neg hi, if_neg hi]
  have hfresh : ∀ h ∈ held, h.process.id ≠ slot := by
    intro h hh hid
    have hhas := (hslot h.process.id h.process).mpr ⟨h, hh, rfl, rfl⟩
    unfold Kernel.HasProcess at hhas
    rw [hid, hfree] at hhas
    exact absurd (Option.some.inj hhas) (by simp)
  refine ⟨fun i q => ?_, hfresh⟩
  unfold Kernel.HasProcess
  rw [hget]
  constructor
  · intro hi
    by_cases hs : slot = i
    · rw [if_pos hs] at hi
      have hq : new.process = q := Option.some.inj (Option.some.inj hi)
      exact ⟨new, List.mem_cons_self, hq, hq ▸ hid.trans hs⟩
    · rw [if_neg hs] at hi
      rcases (hslot i q).mp hi with ⟨h, hh, hq, hid⟩
      exact ⟨h, List.mem_cons_of_mem _ hh, hq, hid⟩
  · rintro ⟨h, hh, rfl, hi⟩
    rcases List.mem_cons.mp hh with rfl | hh
    · rw [if_pos (hid.symm.trans hi)]
    · rw [if_neg fun hs => hfresh h hh (hi.trans hs.symm)]
      exact (hslot i h.process).mpr ⟨h, hh, rfl, hi⟩

/-- A load that succeeds adds a process. -/
lemma TableInv.add {slot : ℕ} {chunk : Paging4gbChunk} {tables : List ℕ}
    (hinv : TableInv base held k) (hfree : k.processes[slot]? = some none)
    (hloaded : ProcessLoaded files slot (held.flatMap Held.blocks ++ base) k k' p chunk tables) :
    TableInv base (⟨p, files.elf.filesize, chunk, tables⟩ :: held) k' := by
  rcases @hasProcess_add k k' held slot ⟨p, files.elf.filesize, chunk, tables⟩ hinv.slot hfree
    hloaded.id hloaded.processes with ⟨hslot, hfresh⟩
  constructor
  · rw [hloaded.processes, List.length_set]
    exact hinv.length
  · rw [List.flatMap_cons, List.append_assoc]
    exact hloaded.owns
  · exact hslot
  · refine List.pairwise_cons.mpr ⟨fun h hh => ?_, hinv.distinct⟩
    rw [hloaded.id]
    exact (hfresh h hh).symm
  · refine List.forall_mem_cons.mpr ⟨fun e he => ?_, hinv.allocations⟩
    have he' : e ∈ List.replicate marrowosMaxProgramAllocation (⟨0, 0⟩ : ProcessAllocation) :=
      hloaded.allocations ▸ he
    rw [List.eq_of_mem_replicate he']
  · refine List.forall_mem_cons.mpr ⟨?_, fun h hh => ?_⟩
    · exact ⟨hloaded.task, hloaded.taskProcess, hloaded.pageDirectory, hloaded.space⟩
    · have hok := (hinv.task h hh).keeps hloaded.keeps (mem_live_of_mem hh)
      exact ⟨hok.task, hok.process, hok.pageDirectory, hok.space⟩

/-- The slot that `process_get_free_slot` answers. -/
lemma processGetFreeSlot_cases (hlength : k.processes.length = marrowosMaxProcesses) :
    (processGetFreeSlot k = -eistkn ∧ k.TableFull) ∨
    ∃ slot : ℕ, processGetFreeSlot k = slot ∧ k.processes[slot]? = some none ∧
      ∀ i < slot, ∃ other, k.HasProcess i other := by
  have hsome : ∀ i < marrowosMaxProcesses, (∀ o : Option Process, k.processes[i]? = some o →
      o.isNone = false) → ∃ other, k.HasProcess i other := by
    intro i hi hnot
    have hlt : i < k.processes.length := hlength ▸ hi
    have hget := List.getElem?_eq_getElem hlt
    rcases Option.isSome_iff_exists.mp (by simpa using hnot _ hget) with ⟨other, hother⟩
    exact ⟨other, by rw [Kernel.HasProcess, hget, hother]⟩
  unfold processGetFreeSlot
  cases hfirst : firstSlot (fun p : Option Process => p.isNone) k.processes with
  | none =>
    refine Or.inl ⟨rfl, fun i hi => hsome i hi fun o ho => ?_⟩
    exact firstSlot_eq_none.mp hfirst i o ho
  | some r =>
    rcases r with ⟨slot, o⟩
    rcases firstSlot_eq_some.mp hfirst with ⟨hslot, ho, hbefore⟩
    rw [Option.isNone_iff_eq_none.mp ho] at hslot
    have hlt := (List.getElem?_eq_some_iff.mp hslot).1
    refine Or.inr ⟨slot, rfl, hslot, fun i hi => hsome i (by omega) fun o ho => ?_⟩
    exact hbefore i hi o ho

/-- What `process_load` does to the table. -/
lemma TableInv.processLoad_cases (hinv : TableInv base held k)
    (hload : processLoad files k = .ok (res, loaded, k')) :
    (res = -eistkn ∧ k.TableFull ∧ loaded = none ∧ k' = k) ∨
    (res < 0 ∧ res ≠ -eistkn ∧ ¬ k.TableFull ∧ loaded = none ∧ TableInv base held k' ∧
      k'.processes = k.processes) ∨
    (res = 0 ∧ ¬ k.TableFull ∧ ∃ p held', loaded = some p ∧ LowestFree k k' p ∧
      TableInv base held' k') := by
  unfold processLoad at hload
  rcases processGetFreeSlot_cases hinv.length with ⟨hslot, hfull⟩ | ⟨slot, hslot, hfree, hlowest⟩
  · rw [hslot] at hload
    dsimp only at hload
    rw [if_pos (by decide)] at hload
    rcases ok_triple_inj hload with ⟨hres, hloaded, hk'⟩
    exact Or.inl ⟨hres.symm, hfull, hloaded.symm, hk'.symm⟩
  · have hlt : slot < marrowosMaxProcesses := hinv.length ▸ (List.getElem?_eq_some_iff.mp hfree).1
    -- the slot that was found is free
    have hnotFull : ¬ k.TableFull := by
      intro hfull
      rcases hfull slot hlt with ⟨other, hother⟩
      unfold Kernel.HasProcess at hother
      rw [hfree] at hother
      exact absurd (Option.some.inj hother) (by simp)
    have hnone : processGet k slot = none := by
      unfold processGet
      rw [if_neg (by omega), Int.toNat_natCast, hfree]
      rfl
    rw [hslot] at hload
    dsimp only at hload
    rw [if_neg (by omega), Int.toNat_natCast] at hload
    right
    rcases processLoadForSlot_owns hinv.owns hload with ⟨-, htaken, -⟩ | ⟨-, hfailed | hsuccess⟩
    · rw [hnone] at htaken
      exact absurd htaken (by simp)
    · exact Or.inl ⟨hfailed.error.neg, hfailed.error.ne_eistkn, hnotFull, hfailed.loaded,
        hinv.keeps hfailed.owns hfailed.keeps, hfailed.keeps.processes⟩
    · rcases hsuccess with ⟨hres, p, chunk, tables, hloaded, hprocess⟩
      refine Or.inr ⟨hres, hnotFull, p, _, hloaded, ?_, hinv.add hfree hprocess⟩
      constructor
      · rw [hprocess.id]
        exact hfree
      · rw [hprocess.id]
        exact hlowest
      · rw [hprocess.id]
        exact hprocess.processes

/-! ## Ending -/

/-- What `process_unlink` does. -/
lemma processUnlink_cases {s s' : System} (hunlink : processUnlink p s = .ok s') :
    s'.kernel = { s.kernel with processes := s.kernel.processes.set p.id none } ∧
    ((s.currentProcess ≠ p.addr ∧ s'.currentProcess = s.currentProcess) ∨
      ∃ i q, s'.kernel.HasProcess i q ∧ s'.currentProcess = q.addr) := by
  unfold processUnlink at hunlink
  dsimp only at hunlink
  by_cases hcurrent : s.currentProcess = p.addr
  · rw [if_pos hcurrent] at hunlink
    unfold processSwitchToAny at hunlink
    cases hfirst : firstSlot Option.isSome (s.kernel.processes.set p.id none) with
    | none =>
      simp only [hfirst] at hunlink
      exact absurd hunlink (by simp)
    | some r =>
      rcases r with ⟨i, _ | q⟩
      · exact absurd (firstSlot_eq_some.mp hfirst).2.1 (by simp)
      · simp only [hfirst] at hunlink
        rw [← Except.ok.inj hunlink]
        exact ⟨rfl, Or.inr ⟨i, q, (firstSlot_eq_some.mp hfirst).1, rfl⟩⟩
  · rw [if_neg hcurrent] at hunlink
    rw [← Except.ok.inj hunlink]
    exact ⟨rfl, Or.inl ⟨hcurrent, rfl⟩⟩

/-- Ending a process takes it out of the table and gives back its blocks. -/
lemma TableInv.processTerminate {s s' : System} (hinv : TableInv base held s.kernel)
    (hp : s.kernel.HasProcess i p) (hterminate : processTerminate p s = .ok s') :
    (∃ held', TableInv base held' s'.kernel) ∧
    s'.kernel.processes = s.kernel.processes.set i none ∧
    ((s.currentProcess ≠ p.addr ∧ s'.currentProcess = s.currentProcess) ∨
      ∃ j q, s'.kernel.HasProcess j q ∧ s'.currentProcess = q.addr) := by
  unfold MarrowOS.processTerminate at hterminate
  rcases bind_eq_ok.mp hterminate with ⟨s₁, hunlink, hret⟩
  rcases processUnlink_cases hunlink with ⟨hk₁, hcurrent⟩
  -- the process that ends, and the others
  rcases (hinv.slot i p).mp hp with ⟨h, hh, rfl, hid⟩
  rcases List.append_of_mem hh with ⟨A, B, hheld⟩
  have hperm : (held.flatMap Held.blocks ++ base).Perm
      (h.blocks ++ ((A ++ B).flatMap Held.blocks ++ base)) := by
    rw [hheld, ← List.append_assoc, ← List.flatMap_cons]
    exact (List.Perm.flatMap_right _ List.perm_middle).append_right base
  have hok := hinv.task h hh
  have hown : s₁.kernel.Owns (h.blocks ++ ((A ++ B).flatMap Held.blocks ++ base)) := by
    rw [hk₁]
    exact Kernel.Owns.perm hinv.owns hperm
  have hfree := processFreeProcess_owns hown (hinv.allocations h hh) fun _ => by
    rw [hk₁]
    exact ⟨hok.pageDirectory, hok.space⟩
  have hs' : s'.kernel = processFreeProcess h.process s₁.kernel ∧
      s'.currentProcess = s₁.currentProcess := by
    rw [← Except.ok.inj hret]
    exact ⟨rfl, rfl⟩
  rcases hs' with ⟨hk', hcurrent'⟩
  rw [← hk'] at hfree
  rcases hfree with ⟨hown', hkeeps⟩
  have hprocesses : s'.kernel.processes = s.kernel.processes.set i none := by
    rw [hkeeps.processes, hk₁, ← hid]
  have hrest : ∀ g ∈ A ++ B, g ∈ held := by
    intro g hg
    rw [hheld]
    exact List.perm_middle.symm.mem_iff.mp (List.mem_cons_of_mem h hg)
  have hdistinct : (h :: (A ++ B)).Pairwise fun a b => a.process.id ≠ b.process.id := by
    have hd := hinv.distinct
    rw [hheld] at hd
    exact (List.perm_middle.pairwise_iff fun hab => hab.symm).mp hd
  rcases List.pairwise_cons.mp hdistinct with ⟨hother, hdistinct'⟩
  have hkeeps₁ : ∀ g ∈ A ++ B, g.TaskOk s₁.kernel := by
    intro g hg
    have hok := hinv.task g (hrest g hg)
    rw [hk₁]
    exact ⟨hok.task, hok.process, hok.pageDirectory, hok.space⟩
  refine ⟨⟨A ++ B, ?_, hown', ?_, hdistinct', fun g hg => hinv.allocations g (hrest g hg),
    fun g hg => (hkeeps₁ g hg).keeps hkeeps (mem_live_of_mem hg)⟩, hprocesses, ?_⟩
  · rw [hprocesses, List.length_set]
    exact hinv.length
  · intro j q
    unfold Kernel.HasProcess
    rw [hprocesses, List.getElem?_set]
    have hlt : i < s.kernel.processes.length := (List.getElem?_eq_some_iff.mp hp).1
    by_cases hj : i = j
    · -- its slot is empty
      rw [if_pos hj, if_pos hlt]
      constructor
      · intro hnone
        exact absurd (Option.some.inj hnone) (by simp)
      · rintro ⟨g, hg, rfl, hgid⟩
        exact absurd (hid.trans (hj.trans hgid.symm)) (hother g hg)
    · -- the other slots are as they were
      rw [if_neg hj]
      constructor
      · intro hq
        rcases (hinv.slot j q).mp hq with ⟨g, hg, rfl, hgid⟩
        rw [hheld] at hg
        rcases List.mem_cons.mp (List.perm_middle.mem_iff.mp hg) with rfl | hg
        · exact absurd (hid.symm.trans hgid) hj
        · exact ⟨g, hg, rfl, hgid⟩
      · rintro ⟨g, hg, rfl, hgid⟩
        exact (hinv.slot j g.process).mpr ⟨g, hrest g hg, rfl, hgid⟩
  · rw [hcurrent']
    refine hcurrent.imp_right fun ⟨j, q, hq, hqaddr⟩ => ⟨j, q, ?_, hqaddr⟩
    unfold Kernel.HasProcess at hq ⊢
    rw [hkeeps.processes]
    exact hq

/-! ## Every run -/

/-- The invariant of a run. -/
structure ProcessInv (base : List Alloc) (r : ProcessRun) : Prop where
  table : ∃ held, TableInv base held r.system.kernel
  foreground : r.switched = true →
    ∃ i p, r.system.kernel.HasProcess i p ∧ r.system.currentProcess = p.addr

/-- The new process is in the table. -/
lemma LowestFree.hasProcess (h : LowestFree k k' p) : k'.HasProcess p.id p := by
  unfold Kernel.HasProcess
  rw [h.processes, List.getElem?_set_self (List.getElem?_eq_some_iff.mp h.free).1]

/-- The others stay there. -/
lemma LowestFree.hasProcess_of (h : LowestFree k k' p) {q : Process} (hq : k.HasProcess i q) :
    k'.HasProcess i q := by
  unfold Kernel.HasProcess at hq ⊢
  rw [h.processes, List.getElem?_set_ne, hq]
  intro hid
  rw [← hid, h.free] at hq
  exact absurd (Option.some.inj hq) (by simp)

/-- A load leaves the processes that are there. -/
lemma TableInv.processLoad_inv (hinv : TableInv base held k)
    (hload : processLoad files k = .ok (res, loaded, k')) :
    (∃ held', TableInv base held' k') ∧ ∀ i q, k.HasProcess i q → k'.HasProcess i q := by
  rcases hinv.processLoad_cases hload with
    ⟨-, -, -, rfl⟩ | ⟨-, -, -, -, hinv', hsame⟩ | ⟨-, -, p, held', -, hlowest, hinv'⟩
  · exact ⟨⟨held, hinv⟩, fun _ _ hq => hq⟩
  · refine ⟨⟨held, hinv'⟩, fun i q hq => ?_⟩
    unfold Kernel.HasProcess
    rw [hsame]
    exact hq
  · exact ⟨⟨held', hinv'⟩, fun i q hq => hlowest.hasProcess_of hq⟩

/-- What `process_load_switch` does beyond `process_load`. -/
lemma processLoadSwitch_cases {s s' : System} (hload : processLoadSwitch files s = .ok (res, s')) :
    ∃ loaded, processLoad files s.kernel = .ok (res, loaded, s'.kernel) ∧
      ((res = 0 ∧ ∃ p, loaded = some p ∧ s'.currentProcess = p.addr) ∨
        (res ≠ 0 ∧ s'.currentProcess = s.currentProcess)) := by
  unfold processLoadSwitch at hload
  rcases bind_eq_ok.mp hload with ⟨⟨res', loaded, kernel⟩, hprocess, hrest⟩
  cases loaded with
  | none =>
    by_cases hres : res' = 0
    · simp [hres] at hrest
    · simp only [if_neg hres] at hrest
      rcases Prod.mk.inj (Except.ok.inj hrest) with ⟨rfl, rfl⟩
      exact ⟨none, hprocess, Or.inr ⟨hres, rfl⟩⟩
  | some p =>
    by_cases hres : res' = 0
    · simp only [if_pos hres] at hrest
      rcases Prod.mk.inj (Except.ok.inj hrest) with ⟨rfl, rfl⟩
      exact ⟨some p, hprocess, Or.inl ⟨hres, p, rfl, rfl⟩⟩
    · simp only [if_neg hres] at hrest
      rcases Prod.mk.inj (Except.ok.inj hrest) with ⟨rfl, rfl⟩
      exact ⟨some p, hprocess, Or.inr ⟨hres, rfl⟩⟩

/-- **Step lemma.** -/
lemma ProcessInv.step {op : ProcessOp} (hinv : ProcessInv base r)
    (hstep : processStep r op = some r') : ProcessInv base r' := by
  rcases hinv with ⟨⟨held, htable⟩, hforeground⟩
  cases op with
  | processLoad file =>
    unfold processStep at hstep
    cases hload : processLoad file r.system.kernel with
    | error fault => simp [hload] at hstep
    | ok result =>
      rcases result with ⟨res, loaded, kernel⟩
      simp only [hload] at hstep
      rw [← Option.some.inj hstep]
      rcases htable.processLoad_inv hload with ⟨htable', hkept⟩
      refine ⟨htable', fun hswitched => ?_⟩
      rcases hforeground hswitched with ⟨i, p, hp, hcurrent⟩
      exact ⟨i, p, hkept i p hp, hcurrent⟩
  | processLoadSwitch file =>
    unfold processStep at hstep
    cases hload : processLoadSwitch file r.system with
    | error fault => simp [hload] at hstep
    | ok result =>
      rcases result with ⟨res, system⟩
      simp only [hload] at hstep
      rw [← Option.some.inj hstep]
      rcases processLoadSwitch_cases hload with ⟨loaded, hload', hswitch⟩
      rcases htable.processLoad_inv hload' with ⟨htable', hkept⟩
      refine ⟨htable', fun hswitched => ?_⟩
      -- a process that was loaded is the current one
      rcases hswitch with ⟨hres, p, hp, hcurrent⟩ | ⟨hres, hcurrent⟩
      · rcases htable.processLoad_cases hload' with
          ⟨hneg, -⟩ | ⟨hneg, -⟩ | ⟨-, -, q, -, hq, hlowest, -⟩
        · exact absurd (hneg.symm.trans hres) (by decide)
        · omega
        · rw [hp] at hq
          rw [← Option.some.inj hq] at hlowest
          exact ⟨p.id, p, hlowest.hasProcess, hcurrent⟩
      · have hbefore : r.switched = true := by simpa [hres] using hswitched
        rcases hforeground hbefore with ⟨i, p, hp, hcurrent'⟩
        exact ⟨i, p, hkept i p hp, hcurrent.trans hcurrent'⟩
  | processTerminate slot =>
    unfold processStep at hstep
    cases hp : r.system.kernel.processes[slot]? with
    | none => simp [hp] at hstep
    | some o =>
      cases o with
      | none => simp [hp] at hstep
      | some p =>
        cases hterminate : processTerminate p r.system with
        | error fault => simp [hp, hterminate] at hstep
        | ok system =>
          simp only [hp, hterminate] at hstep
          rw [← Option.some.inj hstep]
          rcases htable.processTerminate hp hterminate with ⟨htable', hprocesses, hcurrent⟩
          refine ⟨htable', fun hswitched => ?_⟩
          -- the current process stays, or another one takes over
          rcases hcurrent with ⟨hne, hcurrent⟩ | hother
          · rcases hforeground hswitched with ⟨i, q, hq, hcurrent'⟩
            refine ⟨i, q, ?_, hcurrent.trans hcurrent'⟩
            unfold Kernel.HasProcess at hq ⊢
            rw [hprocesses, List.getElem?_set_ne, hq]
            rintro rfl
            rw [hp] at hq
            rw [Option.some.inj (Option.some.inj hq)] at hne
            exact hne hcurrent'
          · exact hother

/-- The invariant gives what the table owes. -/
lemma ProcessInv.ok (hinv : ProcessInv base r) : ProcessTableOk r := by
  rcases hinv with ⟨⟨held, htable⟩, hforeground⟩
  -- the results of a load, from its three ways out
  have hload : ∀ {file res loaded k'}, processLoad file r.system.kernel = .ok (res, loaded, k') →
      (res = -eistkn ↔ r.system.kernel.TableFull) ∧
      (∀ p, loaded = some p → res = 0 ∧ LowestFree r.system.kernel k' p) ∧
      (res = 0 → ∃ p, loaded = some p) := by
    intro file res loaded k' h
    rcases htable.processLoad_cases h with
      ⟨hres, hfull, hnone, -⟩ | ⟨hneg, hne, hfull, hnone, -, -⟩ |
      ⟨hres, hfull, p, held', hp, hlowest, -⟩
    · refine ⟨⟨fun _ => hfull, fun _ => hres⟩, fun p hp => ?_, fun h0 => ?_⟩
      · exact absurd (hnone.symm.trans hp) (by simp)
      · exact absurd (hres.symm.trans h0) (by decide)
    · refine ⟨⟨fun h' => absurd h' hne, fun h' => absurd h' hfull⟩, fun p hp => ?_, fun h0 => ?_⟩
      · exact absurd (hnone.symm.trans hp) (by simp)
      · omega
    · refine ⟨⟨fun h' => absurd (hres.symm.trans h') (by decide), fun h' => absurd h' hfull⟩,
        fun q hq => ⟨hres, ?_⟩, fun _ => ⟨p, hp⟩⟩
      rw [hp] at hq
      rw [← Option.some.inj hq]
      exact hlowest
  constructor
  · exact htable.length
  · intro i p hp
    rcases (htable.slot i p).mp hp with ⟨h, hh, rfl, -⟩
    have htaken := htable.taken hh h.addr_mem
    exact htaken
  · intro i p hp
    rcases (htable.slot i p).mp hp with ⟨-, -, -, hid⟩
    exact hid
  · intro i p hp
    rcases (htable.slot i p).mp hp with ⟨h, hh, rfl, -⟩
    have hok := htable.task h hh
    have htaken := htable.taken hh (Held.task_mem hok.task)
    exact ⟨hok.task, htaken, hok.process⟩
  · intro i j p q hp hq hij
    -- two processes own different blocks
    rcases (htable.slot i p).mp hp with ⟨h, hh, rfl, hid⟩
    rcases (htable.slot j q).mp hq with ⟨g, hg, rfl, hgid⟩
    have hne : h.process.id ≠ g.process.id := by omega
    have haddr := htable.ptr_ne hh hg hne h.addr_mem g.addr_mem rfl
    have htask := htable.ptr_ne hh hg hne (Held.task_mem (htable.task h hh).task)
      (Held.task_mem (htable.task g hg).task) rfl
    exact ⟨haddr, htask⟩
  · exact hforeground
  · intro file res loaded k' h
    exact ⟨(hload h).1, fun p hp => ((hload h).2.1 p hp).2⟩
  · intro file res s' h
    rcases processLoadSwitch_cases h with ⟨loaded, h', hswitch⟩
    refine ⟨(hload h').1, fun hres => ?_⟩
    rcases hswitch with ⟨-, p, hp, hcurrent⟩ | ⟨hne, -⟩
    · exact ⟨p, ((hload h').2.1 p hp).2, hcurrent⟩
    · exact absurd hres hne

/-- The kernel after `kheap_init`, with nothing loaded. -/
def bootKernel : Kernel where
  machine := ⟨⟨(kheapInit fun _ => 0).2, false⟩, fun _ => 0⟩
  tasks := ⟨0, 0, 0, fun _ => ⟨⟨0, 0⟩, {}, 0, 0, 0⟩⟩
  fileBlocks := []
  processes := List.replicate marrowosMaxProcesses none

/-- Nothing is live in it. -/
lemma bootKernel_owns : bootKernel.Owns [] := by
  have hcreate : heapCreate _ _ _ _ = _ := kheapInit_eq fun _ => 0
  exact (heapCreate_inv hcreate (by norm_num)).owns (kheapInit_poolOk _)

/-- A file that cannot be opened. -/
def missingFile : FileAnswers := ⟨[], 0, .eio, 0, [], [], fun _ _ => 0⟩

/-- A one-byte file that is no ELF file. -/
def oneByteFile : FileAnswers := ⟨[], 1, .ok 1, 1, [0xc3], [], fun _ _ => 0⟩

end MarrowOS
