import MarrowOS.Task.FailedLoads
import MarrowOS.Task.KernelPages
import MarrowOS.Task.Termination
import MarrowOS.Task.UserHeap

/-!
# What a process may write

In a run of loads, `process_malloc` and `process_free`, `WriteIsolated` says that every page that a
process may write is in a block of its own. Program headers can break this: the size in memory is
never compared with the buffer. `writeIsolated_throughout` says that nothing else can.
-/

namespace MarrowOS

open ByteMem CInt Extents Fallible Overlay Runs

/-! ## Runs -/

/-- The kernel, and the size of the file that each slot was loaded from if it is an ELF file. -/
structure IsolationRun where
  kernel : Kernel
  imageSize : ℕ → ℕ

inductive IsolationOp
  | processLoad (files : LoadAnswers)
  | processMalloc (slot size : ℕ)
  | processFree (slot ptr : ℕ)

/-- One call; `none` when it faults, and when there is no process in the slot. -/
def isolationStep (r : IsolationRun) : IsolationOp → Option IsolationRun
  | .processLoad files =>
    match processLoad files r.kernel with
    | .error _ => none
    | .ok (_, none, kernel) => some { r with kernel }
    | .ok (_, some process, kernel) =>
      some ⟨kernel, Function.update r.imageSize process.id files.elf.filesize⟩
  | .processMalloc slot size =>
    match r.kernel.processes[slot]? with
    | some (some process) =>
      match processMalloc process size r.kernel with
      | .error _ => none
      | .ok (_, process, kernel) => some { r with kernel := kernel.setProcess slot process }
    | _ => none
  | .processFree slot ptr =>
    match r.kernel.processes[slot]? with
    | some (some process) =>
      let (process, kernel) := processFree process ptr r.kernel
      some { r with kernel := kernel.setProcess slot process }
    | _ => none

/-- Requests are for at least one byte and can be satisfied, and processes free what is theirs. -/
def IsolationAllowed (r : IsolationRun) : IsolationOp → Prop
  | .processLoad _ => True
  | .processMalloc _ size =>
    1 ≤ size ∧ HasFreeRun r.kernel.machine.heap.heap.table (blocksFor size)
  | .processFree slot ptr => ∀ process, r.kernel.HasProcess slot process →
    ∃ a ∈ process.allocations, a.ptr ≠ 0 ∧ a.ptr = ptr

/-! ## Isolation -/

/-- The buffer that the program was read into. -/
def Process.imageBlocks (process : Process) (size : ℕ) : List Alloc :=
  match process.filetype, process.elfFile with
  | .binary, _ => [⟨process.ptr, process.size⟩]
  | .elf, some elfFile => [⟨elfFile.elfMemory, size⟩]
  | .elf, none => []

/-- The blocks of a process that are its own to write: its program, its stack and its
allocations. -/
def Process.dataBlocks (process : Process) (size : ℕ) : List Alloc :=
  process.imageBlocks size ++ (process.stackBlocks ++ userAllocs process.allocations)

/-- All blocks of a process, those that the kernel keeps for it included. -/
def Held.allBlocks (h : Held) : List Alloc := h.process.allBlocks h.size h.chunk h.tables

/-- The owners of the heap's blocks: the file layer, the processes of the table, and whoever owns
the blocks of `base`. -/
structure BlockOwners (base : List Alloc) (held : List Held) (r : IsolationRun) : Prop where
  slot : ∀ i p, r.kernel.HasProcess i p ↔ ∃ h ∈ held, h.process = p ∧ p.id = i
  size : ∀ h ∈ held, h.size = r.imageSize h.process.id
  task : ∀ h ∈ held, h.TaskOk r.kernel
  owns : r.kernel.Owns (held.flatMap Held.allBlocks ++ base)

/-- The byte `x` is in the block `a`, in no other live one, and in no free one. -/
structure OnlyIn (heap : Heap) (live : List Alloc) (a : Alloc) (x : ℕ) : Prop where
  covers : a.Covers x
  alone : ∃ others, live.Perm (a :: others) ∧ ∀ b ∈ others, ¬ b.Covers x
  taken : heap.blockOf x < heap.table.total → Taken heap x

/-- Every page that a process may write is in a block of its own. -/
def WriteIsolated (base : List Alloc) (r : IsolationRun) : Prop :=
  ∃ held, BlockOwners base held r ∧ ∀ h ∈ held, ∀ v < 2 ^ 32,
    UserWritable (pageEntry r.kernel.machine.mem h.chunk.directoryEntry v) →
    ∃ a ∈ h.process.dataBlocks h.size, OnlyIn r.kernel.machine.heap.heap
      (r.kernel.fileBlocks ++ (held.flatMap Held.allBlocks ++ base)) a
      (translate r.kernel.machine.mem h.chunk.directoryEntry v)

/-- The program headers of the file at `addr` give no access to what is not in its buffer: of those
that cover a page outside the stack, the last one maps it to the buffer, if it is writable. -/
def StaysInImage (file : FileAnswers) (addr : ℕ) : Prop :=
  ∀ p < 2 ^ 20, ¬ StackPage p → ∀ pre m post, elfMappings file addr = pre ++ m :: post →
    m.Covers p → (∀ q ∈ post, ¬ q.Covers p) → m.flags &&& pagingIsWritable ≠ 0 →
    (⟨addr, file.filesize⟩ : Alloc).Covers (m.target p)

/-- Files that are loaded as ELF files stay in their buffers. -/
def LoadsStayInImage (r : IsolationRun) : IsolationOp → Prop
  | .processLoad files =>
    LoadsElf files r.kernel → StaysInImage files.elf (loadAddress files r.kernel)
  | _ => True

/-! ## Blocks -/

variable {heap : Heap} {live base : List Alloc} {held rest : List Held} {h : Held}
  {r : IsolationRun} {process : Process} {k k' : Kernel} {a b : Alloc} {x p ptr size : ℕ}
  {files : LoadAnswers} {chunk : Paging4gbChunk} {tables : List ℕ} {slot : ℕ}

/-- A byte of a live block. -/
lemma HeapOwns.onlyIn (h : HeapOwns heap live) (ha : a ∈ live) (hx : a.Covers x)
    (hlt : x < 2 ^ 32) : OnlyIn heap live a x := by
  refine ⟨hx, ?_, fun hin => ?_⟩
  · obtain ⟨pre, post, rfl⟩ := List.append_of_mem ha
    refine ⟨pre ++ post, List.perm_middle, fun b hb hbx => ?_⟩
    have h' : HeapOwns heap (a :: (pre ++ post)) := h.perm List.perm_middle
    have heq := h'.covers_unique List.mem_cons_self (List.mem_cons_of_mem a hb) hx hbx
    exact h'.ptr_ne hb (by rw [heq])
  · -- the block of the byte is one of those that the owner marked
    have hptr := h.ptr_eq a ha
    have hlen : (heap.extent a).len = blocksFor a.size := rfl
    have hblock : heap.blockOf x = (x - heap.saddr) / 4096 := by
      unfold Alloc.Covers at hx
      unfold Heap.blockOf
      rw [u32_of_lt (by omega) (by omega)]
      omega
    have hhas : (heap.extent a).Has (heap.blockOf x) := by
      unfold Alloc.Covers at hx
      unfold Extent.Has
      rw [hblock]
      omega
    unfold Taken
    rw [h.owned a ha _ hhas hin, heapGetEntryType_blockFlags]

lemma imageBlocks_subset : ∀ a ∈ process.imageBlocks size, a ∈ process.programBlocks size := by
  intro a ha
  unfold Process.imageBlocks at ha
  unfold Process.programBlocks
  cases hfiletype : process.filetype with
  | binary =>
    rw [hfiletype] at ha
    exact ha
  | elf =>
    rw [hfiletype] at ha
    cases hf : process.elfFile with
    | none =>
      rw [hf] at ha
      exact absurd ha List.not_mem_nil
    | some f =>
      rw [hf] at ha
      rw [List.mem_singleton.mp ha]
      exact List.mem_cons_self

/-- What a process may write is among its blocks. -/
lemma Held.dataBlocks_subset : ∀ a ∈ h.process.dataBlocks h.size, a ∈ h.allBlocks := by
  intro a ha
  unfold Held.allBlocks Process.allBlocks
  rcases List.mem_append.mp ha with himage | hrest
  · apply List.mem_append_right
    exact Process.programBlocks_subset (imageBlocks_subset a himage)
  rcases List.mem_append.mp hrest with hstack | halloc
  · apply List.mem_append_right
    exact Process.stackBlocks_subset hstack
  · exact List.mem_append_left _ halloc

/-! ## Entries -/

/-- The address of a page has no flags. -/
lemma aligned_and_writable (hx : x % 4096 = 0) : x &&& pagingIsWritable = 0 := by
  have hbit : x.testBit 1 = false := by
    rw [Nat.testBit_eq_decide_div_mod_eq]
    simp only [pow_one, decide_eq_false_iff_not]
    omega
  apply Nat.eq_of_testBit_eq
  intro i
  rw [Nat.testBit_and, Nat.zero_testBit, show (pagingIsWritable : ℕ) = 2 ^ 1 from rfl,
    Nat.testBit_two_pow]
  by_cases hi : 1 = i
  · rw [← hi, hbit, Bool.false_and]
  · simp [hi]

/-- An entry is writable if its flags are. -/
lemma UserWritable.flags {flags : ℕ} (hw : UserWritable (x ||| flags)) (hx : x % 4096 = 0) :
    flags &&& pagingIsWritable ≠ 0 := by
  intro hflags
  apply hw.2.2
  rw [Nat.and_or_distrib_right, aligned_and_writable hx, hflags]
  rfl

/-- Page `p` may be mapped to the address `x`: in the program or the stack anywhere, and in the
allocations where it is. -/
def Held.MayWrite (h : Held) (p x : ℕ) : Prop :=
  (∃ a ∈ h.process.imageBlocks h.size ++ h.process.stackBlocks, a.Covers x) ∨
    x = 4096 * p ∧ ∃ a ∈ userAllocs h.process.allocations, a.Covers x

/-! ## Loading -/

/-- Rounding up the end of a buffer does not leave its blocks, also around the end of memory. -/
lemma pagingAlignAddress_le (haligned : ptr % 4096 = 0) :
    pagingAlignAddress (u32 (ptr + size)) ≤ ptr + 4096 * blocksFor size := by
  have hblocks : blocksFor size = (size + 4095) / 4096 := rfl
  have hu : u32 ((ptr : ℤ) + size) ≤ ptr + size := by
    rw [← Nat.cast_add, u32_natCast]
    exact Nat.mod_le _ _
  generalize u32 ((ptr : ℤ) + size) = n at hu
  unfold pagingAlignAddress
  simp only [pagingPageSize]
  split
  · have hup : u32 ((n : ℤ) + (4096 : ℕ) - (n % 4096 : ℕ)) ≤ n + 4096 - n % 4096 := by
      unfold u32
      omega
    omega
  · omega

/-- An element of a list with `s` at its end is that `s`, or stands before it. -/
lemma split_concat {α : Type} {l pre post : List α} {m s : α} (heq : l ++ [s] = pre ++ m :: post) :
    m = s ∨ ∃ post', post = post' ++ [s] ∧ l = pre ++ m :: post' := by
  rcases List.eq_nil_or_concat post with rfl | ⟨post', t, rfl⟩
  · exact Or.inl (List.singleton_inj.mp (List.append_inj' heq rfl).2).symm
  · rw [List.concat_eq_append, ← List.cons_append, ← List.append_assoc] at heq
    rcases List.append_inj' heq rfl with ⟨hl, hs⟩
    exact Or.inr ⟨post', by rw [List.concat_eq_append, List.singleton_inj.mp hs], hl⟩

/-- A byte of a page that starts in a block. -/
lemma stackMapping_target {stack : ℕ} {m : Mapping} (haligned : stack % 4096 = 0)
    (hlt : stack + 4096 ≤ 2 ^ 31) (hm : m = stackMapping stack) (hvalid : m.Valid)
    (hcovers : m.Covers p) :
    (⟨stack, marrowosUserProgramStackSize⟩ : Alloc).Covers (m.target p) := by
  have hblocks : blocksFor marrowosUserProgramStackSize = 4 := by decide
  have hend := @pagingAlignAddress_end stack marrowosUserProgramStackSize haligned
    (by rw [hblocks]; omega)
  rcases Mapping.target_lt hvalid hcovers with ⟨-, hphys, hphysEnd⟩
  have hphys' : m.phys = stack := congrArg Mapping.phys hm
  have hphysEnd' : m.physEnd =
      pagingAlignAddress (u32 (stack + marrowosUserProgramStackSize)) := by
    rw [hm, stackMapping]
  rw [hphysEnd', hend] at hphysEnd
  unfold Alloc.Covers
  dsimp only
  omega

/-- The mappings of a process. -/
lemma Process.mapping_range {m : Mapping}
    (hm : m ∈ process.programMappings files.elf ++ [stackMapping process.stack]) :
    m.physEnd < 2 ^ 32 ∧ m.flags < 4096 := by
  rcases List.mem_append.mp hm with hprogram | hstack
  · unfold Process.programMappings at hprogram
    split at hprogram
    · rw [List.mem_singleton.mp hprogram]
      exact ⟨pagingAlignAddress_lt (u32_lt _), userWritableFlags_lt⟩
    · rcases List.mem_map.mp hprogram with ⟨phdr, -, rfl⟩
      exact ⟨(phdrMapping_flags _ phdr).1, (phdrMapping_flags _ phdr).2.1⟩
    · exact absurd hprogram List.not_mem_nil
  · rw [List.mem_singleton.mp hstack]
    exact ⟨(stackMapping_inRange _).physEnd, (stackMapping_inRange _).flags⟩

/-- The mapping of a flat binary leads into its blocks. -/
lemma binaryMapping_target {ptr size : ℕ} {m : Mapping} (haligned : ptr % 4096 = 0)
    (hm : m = binaryMapping ptr size) (hvalid : m.Valid) (hcovers : m.Covers p) :
    (⟨ptr, size⟩ : Alloc).Covers (m.target p) := by
  rcases Mapping.target_lt hvalid hcovers with ⟨-, hphys, hphysEnd⟩
  have hphys' : m.phys = ptr := congrArg Mapping.phys hm
  have hend : m.physEnd ≤ ptr + 4096 * blocksFor size := by
    rw [hm]
    exact pagingAlignAddress_le haligned
  unfold Alloc.Covers
  dsimp only
  omega

/-- What the new process may write. -/
lemma ProcessLoaded.mayWrite (h : ProcessLoaded files slot live k k' process chunk tables)
    (hstays : LoadsElf files k → StaysInImage files.elf (loadAddress files k)) (hp : p < 2 ^ 20)
    (hw : UserWritable (pageAt k'.machine.mem chunk.directoryEntry p)) :
    ∃ a ∈ process.imageBlocks files.elf.filesize ++ process.stackBlocks,
      a.Covers (entryAddress (pageAt k'.machine.mem chunk.directoryEntry p)) := by
  have hstack : (⟨process.stack, marrowosUserProgramStackSize⟩ : Alloc) ∈ process.stackBlocks := by
    rw [Process.stackBlocks, if_neg h.stack]
    exact List.mem_singleton_self _
  rcases h.stack_address with ⟨hstackAligned, hstackLt⟩
  have hidentity : UserWritable (4096 * p ||| (pagingIsPresent ||| pagingAccessFromAll)) →
      ∃ a ∈ process.imageBlocks files.elf.filesize ++ process.stackBlocks,
        a.Covers (entryAddress (4096 * p ||| (pagingIsPresent ||| pagingAccessFromAll))) :=
    fun hwritable => absurd rfl (hwritable.flags (by omega))
  rw [h.pages p hp] at hw ⊢
  revert hw
  -- the last mapping that covers the page decides, and the stack comes last
  apply (@overlay_mapping_iff _ _ (fun entry => UserWritable entry →
    ∃ a ∈ process.imageBlocks files.elf.filesize ++ process.stackBlocks,
      a.Covers (entryAddress entry)) p hidentity).mpr
  intro pre m post heq hcovers hpost hwritable
  have hm : m ∈ process.programMappings files.elf ++ [stackMapping process.stack] := by
    rw [heq]
    exact List.mem_append_right _ List.mem_cons_self
  have hvalid := h.valid m hm
  rcases Mapping.target_lt hvalid hcovers with ⟨haligned, hphys, hphysEnd⟩
  have hflags := hwritable.flags haligned
  have hrange := Process.mapping_range hm
  rw [entryAddress_or haligned (by omega) hrange.2]
  rcases split_concat heq with hstackMapping | ⟨post', hpost', hprogram⟩
  · exact ⟨_, List.mem_append_right _ hstack,
      stackMapping_target hstackAligned hstackLt hstackMapping hvalid hcovers⟩
  · have hnotStack : ¬ StackPage p := by
      intro hpage
      apply hpost (stackMapping process.stack)
      · rw [hpost']
        exact List.mem_append_right _ (List.mem_singleton_self _)
      · exact (stackMapping_covers_iff hstackAligned hstackLt hp).mpr hpage
    have hpost'' : ∀ q ∈ post', ¬ q.Covers p := by
      intro q hq
      apply hpost
      rw [hpost']
      exact List.mem_append_left _ hq
    rcases h.filetype with ⟨hfiletype, hsome, hloads⟩ | ⟨hfiletype, -⟩
    · -- an ELF file
      obtain ⟨f, hf⟩ := Option.isSome_iff_exists.mp hsome
      have hsplit : elfMappings files.elf (loadAddress files k) = pre ++ m :: post' := by
        rw [← hprogram]
        unfold Process.programMappings elfMappings
        rw [hfiletype, hf, ← h.elf f hfiletype hf]
      have hin := hstays hloads p hp hnotStack pre m post' hsplit hcovers hpost'' hflags
      refine ⟨⟨f.elfMemory, files.elf.filesize⟩, ?_, ?_⟩
      · unfold Process.imageBlocks
        rw [hfiletype, hf]
        exact List.mem_append_left _ (List.mem_singleton_self _)
      · rw [h.elf f hfiletype hf]
        exact hin
    · -- a flat binary
      have hblock : (⟨process.ptr, process.size⟩ : Alloc) ∈
          process.imageBlocks files.elf.filesize := by
        unfold Process.imageBlocks
        rw [hfiletype]
        exact List.mem_singleton_self _
      refine ⟨_, List.mem_append_left _ hblock, ?_⟩
      have hbinary : m = binaryMapping process.ptr process.size := by
        have hmem : m ∈ process.programMappings files.elf := by
          rw [hprogram]
          exact List.mem_append_right _ List.mem_cons_self
        unfold Process.programMappings at hmem
        rw [hfiletype] at hmem
        exact List.mem_singleton.mp hmem
      have hptr : process.ptr % 4096 = 0 := by
        apply HeapOwns.ptr_aligned h.owns (a := ⟨process.ptr, process.size⟩)
        apply List.mem_append_right
        apply List.mem_append_left
        exact Process.programBlocks_subset (imageBlocks_subset _ hblock)
      exact binaryMapping_target hptr hbinary hvalid hcovers

/-! ## The invariant -/

/-- What the processes may write, and what else `process_malloc` and `process_free` rely on. -/
structure IsolationInv (base : List Alloc) (held : List Held) (r : IsolationRun) : Prop extends
    BlockOwners base held r where
  length : r.kernel.processes.length = marrowosMaxProcesses
  distinct : held.Pairwise fun a b => a.process.id ≠ b.process.id
  fits : ∀ h ∈ held, ∀ a ∈ h.process.allocations, a.ptr ≠ 0 →
    a.ptr + 4096 * blocksFor a.size < 2 ^ 32
  writes : ∀ h ∈ held, ∀ p < 2 ^ 20,
    UserWritable (pageAt r.kernel.machine.mem h.chunk.directoryEntry p) →
    h.MayWrite p (entryAddress (pageAt r.kernel.machine.mem h.chunk.directoryEntry p))

lemma Held.MayWrite.dataBlock (hw : h.MayWrite p x) :
    ∃ a ∈ h.process.dataBlocks h.size, a.Covers x := by
  unfold Process.dataBlocks
  rcases hw with ⟨a, ha, hx⟩ | ⟨-, a, ha, hx⟩
  · refine ⟨a, ?_, hx⟩
    rw [← List.append_assoc]
    exact List.mem_append_left _ ha
  · exact ⟨a, List.mem_append_right _ (List.mem_append_right _ ha), hx⟩

/-- The invariant gives the isolation. -/
lemma IsolationInv.isolated (hinv : IsolationInv base held r) : WriteIsolated base r := by
  refine ⟨held, hinv.toBlockOwners, fun h hh v hv hw => ?_⟩
  have hpage := pageEntry_eq_pageAt r.kernel.machine.mem h.chunk.directoryEntry v
  rw [hpage] at hw
  obtain ⟨a, ha, hx⟩ := (hinv.writes h hh (v / 4096) (by omega) hw).dataBlock
  have hmem : a ∈ r.kernel.fileBlocks ++ (held.flatMap Held.allBlocks ++ base) := by
    apply List.mem_append_right
    apply List.mem_append_left
    exact List.mem_flatMap.mpr ⟨h, hh, Held.dataBlocks_subset a ha⟩
  refine ⟨a, ha, HeapOwns.onlyIn hinv.owns hmem ?_ (translate_lt _ _ _)⟩
  -- the rest of the page is in the same block
  have haligned : a.ptr % 4096 = 0 := HeapOwns.ptr_aligned hinv.owns hmem
  have hentry := entryAddress_mod (pageEntry_lt r.kernel.machine.mem h.chunk.directoryEntry v)
  rw [translate]
  rw [← hpage] at hx
  unfold Alloc.Covers at hx ⊢
  omega

/-- The order of the processes does not matter. -/
lemma IsolationInv.perm {held' : List Held} (hinv : IsolationInv base held r)
    (hperm : held.Perm held') : IsolationInv base held' r := by
  have hmem : ∀ h, h ∈ held' ↔ h ∈ held := fun h => hperm.symm.mem_iff
  refine ⟨⟨?_, fun h hh => hinv.size h ((hmem h).mp hh), fun h hh => hinv.task h ((hmem h).mp hh),
    ?_⟩, hinv.length, ?_, fun h hh => hinv.fits h ((hmem h).mp hh),
    fun h hh => hinv.writes h ((hmem h).mp hh)⟩
  · intro i p
    rw [hinv.slot]
    simp only [hmem]
  · exact hinv.owns.perm ((hperm.flatMap_right Held.allBlocks).append_right base)
  · exact (hperm.pairwise_iff fun h => Ne.symm h).mp hinv.distinct

/-- The process in a slot, and the other ones. -/
lemma IsolationInv.head (hinv : IsolationInv base held r)
    (hprocess : r.kernel.HasProcess slot process) :
    ∃ h rest, h.process = process ∧ h.process.id = slot ∧ IsolationInv base (h :: rest) r := by
  rcases (hinv.slot slot process).mp hprocess with ⟨h, hh, heq, hid⟩
  obtain ⟨pre, post, rfl⟩ := List.append_of_mem hh
  exact ⟨h, pre ++ post, heq, heq ▸ hid, hinv.perm List.perm_middle⟩

lemma Held.space_mem (htask : h.process.task ≠ 0) :
    ∀ a ∈ spaceAllocs h.chunk h.tables, a ∈ h.blocks := by
  intro a ha
  unfold Held.blocks Process.blocks
  rw [Held.taskBlocks_eq htask]
  exact List.mem_append_left _ (List.mem_append_left _ ha)

lemma Held.blocks_subset : ∀ a ∈ h.blocks, a ∈ h.allBlocks :=
  fun _ ha => List.mem_append_right _ ha

/-- The process with another allocation table. -/
def Held.withAllocations (h : Held) (allocations : List ProcessAllocation) : Held :=
  { h with process := { h.process with allocations } }

/-- The processes in the other slots. -/
lemma exists_held_cons_iff {i : ℕ} {p : Process} (hi : i ≠ h.process.id) :
    (∃ g ∈ h :: rest, g.process = p ∧ p.id = i) ↔ ∃ g ∈ rest, g.process = p ∧ p.id = i := by
  constructor
  · rintro ⟨g, hg, rfl, hid⟩
    rcases List.mem_cons.mp hg with rfl | hg
    · exact absurd hid.symm hi
    · exact ⟨g, hg, rfl, hid⟩
  · rintro ⟨g, hg, hp⟩
    exact ⟨g, List.mem_cons_of_mem _ hg, hp⟩

/-- A step that changes the allocations and the pages of one process. -/
lemma IsolationInv.replace (hinv : IsolationInv base (h :: rest) r)
    {allocations : List ProcessAllocation} (hunmaps : r.kernel.Unmaps h.chunk h.tables k')
    (howns : k'.Owns (userAllocs allocations ++
      (h.blocks ++ (rest.flatMap Held.allBlocks ++ base))))
    (hsame : SameOn (rest.flatMap Held.allBlocks ++ base) r.kernel.machine.mem k'.machine.mem)
    (hfits : ∀ a ∈ allocations, a.ptr ≠ 0 → a.ptr + 4096 * blocksFor a.size < 2 ^ 32)
    (hwrites : ∀ p < 2 ^ 20, UserWritable (pageAt k'.machine.mem h.chunk.directoryEntry p) →
      (h.withAllocations allocations).MayWrite p
        (entryAddress (pageAt k'.machine.mem h.chunk.directoryEntry p))) :
    IsolationInv base (h.withAllocations allocations :: rest)
      { r with kernel :=
        k'.setProcess h.process.id (h.withAllocations allocations).process } := by
  have hprocess : k'.processes[h.process.id]? = some (some h.process) := by
    rw [hunmaps.processes]
    exact (hinv.slot _ _).mpr ⟨h, List.mem_cons_self, rfl, rfl⟩
  have hget := Kernel.setProcess_getElem? hprocess (h.withAllocations allocations).process
  rcases List.pairwise_cons.mp hinv.distinct with ⟨hfresh, hdistinct⟩
  have hlive : ∀ g ∈ rest, ∀ a ∈ g.blocks, a ∈ rest.flatMap Held.allBlocks ++ base :=
    fun g hg a ha => List.mem_append_left _ (List.mem_flatMap.mpr ⟨g, hg, Held.blocks_subset a ha⟩)
  refine ⟨⟨fun i p => ?_, ?_, ?_, ?_⟩, ?_, List.pairwise_cons.mpr ⟨hfresh, hdistinct⟩, ?_, ?_⟩
  · show (k'.setProcess _ _).processes[i]? = _ ↔ _
    -- the slot of the process, and the other slots
    rw [hget]
    by_cases hi : i = h.process.id
    · rw [if_pos hi]
      constructor
      · intro hp
        have hp' := Option.some.inj (Option.some.inj hp)
        exact ⟨_, List.mem_cons_self, hp', by rw [← hp', hi]; rfl⟩
      · rintro ⟨g, hg, rfl, hid⟩
        rcases List.mem_cons.mp hg with rfl | hg
        · rfl
        · exact absurd (hi.symm.trans hid.symm) (hfresh g hg)
    · rw [if_neg hi, hunmaps.processes]
      have hother : (∃ g ∈ h.withAllocations allocations :: rest, g.process = p ∧ p.id = i) ↔
          ∃ g ∈ rest, g.process = p ∧ p.id = i := exists_held_cons_iff hi
      exact ((hinv.slot i p).trans (exists_held_cons_iff hi)).trans hother.symm
  · exact List.forall_mem_cons.mpr ⟨hinv.size h List.mem_cons_self,
      fun g hg => hinv.size g (List.mem_cons_of_mem _ hg)⟩
  · -- the tasks and their directories stay
    have htask : ∀ g ∈ h :: rest, AddressSpace k'.machine.mem g.chunk.directoryEntry g.tables →
        g.TaskOk k' := by
      intro g hg hspace
      have hok := hinv.task g hg
      refine ⟨hok.task, ?_, ?_, hspace⟩
      · rw [hunmaps.tasks]
        exact hok.process
      · rw [hunmaps.tasks]
        exact hok.pageDirectory
    refine List.forall_mem_cons.mpr ⟨?_, fun g hg => ?_⟩
    · have hok := htask h List.mem_cons_self hunmaps.space
      exact ⟨hok.task, hok.process, hok.pageDirectory, hok.space⟩
    · have hok := hinv.task g (List.mem_cons_of_mem _ hg)
      have hspace := hok.space.sameOn hsame (hlive g hg _ (Held.directory_mem hok.task))
      have hok' := htask g (List.mem_cons_of_mem _ hg) hspace
      exact ⟨hok'.task, hok'.process, hok'.pageDirectory, hok'.space⟩
  · rw [List.flatMap_cons, List.append_assoc]
    unfold Held.allBlocks Process.allBlocks
    rw [List.append_assoc]
    exact howns
  · show (k'.processes.set _ _).length = _
    rw [List.length_set, hunmaps.processes]
    exact hinv.length
  · exact List.forall_mem_cons.mpr ⟨hfits, fun g hg => hinv.fits g (List.mem_cons_of_mem _ hg)⟩
  · refine List.forall_mem_cons.mpr ⟨hwrites, fun g hg p hp => ?_⟩
    -- the pages of the others are where they were
    have hok := hinv.task g (List.mem_cons_of_mem _ hg)
    have hpages := hsame.pageAt (fun a ha => hlive g hg a (Held.space_mem hok.task a ha))
      hok.space hp
    show UserWritable (pageAt k'.machine.mem g.chunk.directoryEntry p) →
      g.MayWrite p (entryAddress (pageAt k'.machine.mem g.chunk.directoryEntry p))
    rw [hpages]
    exact hinv.writes g (List.mem_cons_of_mem _ hg) p hp

/-! ## `process_malloc` and `process_free` -/

/-- The page tables of a process are in its own blocks. -/
lemma IsolationInv.not_inTables (hinv : IsolationInv base (h :: rest) r)
    (hb : b ∈ rest.flatMap Held.allBlocks ++ base) (hx : b.Covers x) : ¬ InTables h.tables x := by
  rintro ⟨t, ht, h₀, h₁⟩
  have hown := hinv.owns
  rw [List.flatMap_cons, List.append_assoc] at hown
  have htable : (⟨t, 4096⟩ : Alloc) ∈ h.allBlocks := by
    apply Held.blocks_subset
    apply Held.space_mem (hinv.task h List.mem_cons_self).task
    exact List.mem_cons_of_mem _ (List.mem_append_left _ (List.mem_map.mpr ⟨t, ht, rfl⟩))
  have hne := HeapOwns.ptr_ne_of_append hown htable hb
  have heq := HeapOwns.covers_unique hown
    (List.mem_append_right _ (List.mem_append_left _ htable))
    (List.mem_append_right _ (List.mem_append_right _ hb)) (page_covers.mpr ⟨h₀, h₁⟩) hx
  exact hne (congrArg Alloc.ptr heq)

/-- The owner of an address space. -/
lemma IsolationInv.ownsSpace (hinv : IsolationInv base (h :: rest) r) :
    OwnsSpace h.process r.kernel (r.kernel.fileBlocks ++ (userAllocs h.process.allocations ++
      (h.blocks ++ (rest.flatMap Held.allBlocks ++ base)))) h.tables := by
  have hok := hinv.task h List.mem_cons_self
  have hdirectory : r.kernel.pageDirectory h.process = h.chunk := hok.pageDirectory
  have hmem : ∀ a ∈ spaceAllocs h.chunk h.tables, a ∈ r.kernel.fileBlocks ++
      (userAllocs h.process.allocations ++
        (h.blocks ++ (rest.flatMap Held.allBlocks ++ base))) := by
    intro a ha
    apply List.mem_append_right
    apply List.mem_append_right
    exact List.mem_append_left _ (Held.space_mem hok.task a ha)
  have hown := hinv.owns
  rw [List.flatMap_cons, List.append_assoc, Held.allBlocks, Process.allBlocks,
    List.append_assoc] at hown
  constructor
  · exact hown
  · rw [hdirectory]
    exact hok.space
  · rw [hdirectory]
    exact hmem _ (directory_mem h.chunk h.tables)
  · exact fun a ha => hmem a (List.mem_cons_of_mem _ (List.mem_append_left _ ha))

/-- A used slot is one more allocation. -/
lemma userAllocs_set {allocations : List ProcessAllocation} {i : ℕ} {e : ProcessAllocation}
    (hi : allocations[i]? = some e) (he : e.ptr = 0) (hptr : ptr ≠ 0) :
    (userAllocs (allocations.set i ⟨ptr, size⟩)).Perm (⟨ptr, size⟩ :: userAllocs allocations) := by
  rcases List.getElem?_eq_some_iff.mp hi with ⟨hlt, hget⟩
  have hused : (⟨ptr, size⟩ : ProcessAllocation).ptr ≠ 0 := hptr
  have hset : allocations.set i ⟨ptr, size⟩ =
      allocations.take i ++ ⟨ptr, size⟩ :: allocations.drop (i + 1) := by
    rw [List.set_eq_take_append_cons_drop, if_pos hlt]
  have hold : allocations = allocations.take i ++ e :: allocations.drop (i + 1) := by
    rw [← hget, List.cons_getElem_drop_succ, List.take_append_drop]
  have hsame : userAllocs allocations =
      userAllocs (allocations.take i) ++ userAllocs (allocations.drop (i + 1)) := by
    rw [hold, userAllocs_append, userAllocs_unused he, ← hold]
  rw [hset, hsame, userAllocs_append, userAllocs_used hused]
  exact List.perm_middle

/-- A page of an allocation starts in one of its blocks. -/
lemma ownPage_iff (haligned : ptr % 4096 = 0) :
    OwnPage ptr size p ↔ (⟨ptr, size⟩ : Alloc).Covers (4096 * p) := by
  unfold OwnPage Alloc.Covers
  dsimp only
  omega

/-- **`process_malloc`**, by the first process of the list. -/
lemma IsolationInv.processMalloc (hinv : IsolationInv base (h :: rest) r) (hsize : 1 ≤ size)
    (hrun : HasFreeRun r.kernel.machine.heap.heap.table (blocksFor size)) :
    ∃ ptr allocations k',
      processMalloc h.process size r.kernel = .ok (ptr, { h.process with allocations }, k') ∧
      IsolationInv base (h.withAllocations allocations :: rest)
        { r with kernel :=
          k'.setProcess h.process.id (h.withAllocations allocations).process } := by
  have hspaceOwner := hinv.ownsSpace
  obtain ⟨ptr, m, hcleared⟩ := hspaceOwner.heap.kzalloc_cleared hsize hrun
  have hkept := hcleared.owns.sameOn_of_head hcleared.outside
  rcases hspaceOwner.sameOn hkept with ⟨hspace, hpages⟩
  have hdirectory : r.kernel.pageDirectory h.process = h.chunk :=
    (hinv.task h List.mem_cons_self).pageDirectory
  rw [hdirectory] at hspace hpages
  have hlive : ∀ {b}, b ∈ rest.flatMap Held.allBlocks ++ base → b ∈ r.kernel.fileBlocks ++
      (userAllocs h.process.allocations ++
        (h.blocks ++ (rest.flatMap Held.allBlocks ++ base))) := by
    intro b hb
    apply List.mem_append_right
    apply List.mem_append_right
    exact List.mem_append_right _ hb
  by_cases hslot : HasFreeSlot h.process
  · -- the pointer is recorded, and its pages are mapped to themselves
    obtain ⟨i, e, hi, he, -, hmalloc⟩ := processMalloc_of_free hcleared.answer hcleared.ptr_ne
      hslot hcleared.aligned hcleared.fits
    rw [hdirectory] at hmalloc
    have hfits := hcleared.fits
    have hspace' : AddressSpace (pagingMapTo h.chunk ptr ptr (ptr + 4096 * blocksFor size) 7
        m.mem).2 h.chunk.directoryEntry h.tables := hspace.pagingMapTo rfl (by omega)
    have hout : ∀ x, ¬ InTables h.tables x → (pagingMapTo h.chunk ptr ptr
        (ptr + 4096 * blocksFor size) 7 m.mem).2 x = m.mem x :=
      fun x hx => hspace.pagingMapTo_outside rfl (by omega) hx
    have hpages' := fun p => @AddressSpace.pagingMapTo_self m.mem _ p ptr 7 (blocksFor size)
      h.tables h.chunk hspace rfl (by decide) hcleared.aligned hcleared.fits
    generalize (pagingMapTo h.chunk ptr ptr (ptr + 4096 * blocksFor size) 7 m.mem).2 = mem
      at hmalloc hspace' hout hpages'
    have hallocs := @userAllocs_set ptr size _ i e hi he hcleared.ptr_ne
    refine ⟨ptr, _, _, hmalloc, hinv.replace ⟨hcleared.pool, rfl, rfl, rfl, hspace'⟩ ?_ ?_ ?_ ?_⟩
    · refine HeapOwns.perm hcleared.owns ?_
      refine List.perm_middle.symm.trans ?_
      apply List.Perm.append_left
      rw [← List.cons_append]
      exact hallocs.symm.append_right _
    · intro b hb x hx
      exact (hout x (hinv.not_inTables hb hx)).trans (hkept b (hlive hb) x hx)
    · intro a ha hne
      rcases List.mem_or_eq_of_mem_set ha with hold | rfl
      · exact hinv.fits h List.mem_cons_self a hold hne
      · exact hcleared.fits
    · intro p hp
      show UserWritable (pageAt mem h.chunk.directoryEntry p) → _
      by_cases hin : OwnPage ptr size p
      · intro _
        have hentry : pageAt mem h.chunk.directoryEntry p = 4096 * p ||| 7 :=
          (hpages' p hp).trans (if_pos hin)
        show Held.MayWrite _ p (entryAddress (pageAt mem h.chunk.directoryEntry p))
        rw [hentry, entryAddress_or (by omega) (by omega) (by decide)]
        refine Or.inr ⟨rfl, ⟨ptr, size⟩, hallocs.mem_iff.mpr List.mem_cons_self, ?_⟩
        exact (ownPage_iff hcleared.aligned).mp hin
      · have hentry : pageAt mem h.chunk.directoryEntry p =
            pageAt r.kernel.machine.mem h.chunk.directoryEntry p :=
          ((hpages' p hp).trans (if_neg hin)).trans (hpages p hp)
        show _ → Held.MayWrite _ p (entryAddress (pageAt mem h.chunk.directoryEntry p))
        rw [hentry]
        intro hw
        rcases hinv.writes h List.mem_cons_self p hp hw with himage | ⟨hself, a, ha, hx⟩
        · exact Or.inl himage
        · exact Or.inr ⟨hself, a, hallocs.mem_iff.mpr (List.mem_cons_of_mem _ ha), hx⟩
  · -- the blocks go back
    refine ⟨0, h.process.allocations, _,
      processMalloc_of_full hcleared.answer hcleared.ptr_ne hslot,
      hinv.replace ⟨?_, rfl, rfl, rfl, hspace⟩ ?_ ?_ (hinv.fits h List.mem_cons_self)
        fun p hp => ?_⟩
    · exact hcleared.pool.trans (heapFree_samePool _ _)
    · show HeapOwns (heapFree m.heap.heap ptr) _
      rw [hcleared.undo]
      exact hspaceOwner.heap
    · exact fun b hb x hx => hkept b (hlive hb) x hx
    · show UserWritable (pageAt m.mem h.chunk.directoryEntry p) →
        h.MayWrite p (entryAddress (pageAt m.mem h.chunk.directoryEntry p))
      rw [hpages p hp]
      exact hinv.writes h List.mem_cons_self p hp

/-- **`process_free`** of an own pointer, by the first process of the list. -/
lemma IsolationInv.processFree {e : ProcessAllocation} (hinv : IsolationInv base (h :: rest) r)
    (he : e ∈ h.process.allocations) (hptr : e.ptr ≠ 0) :
    ∃ allocations k',
      processFree h.process e.ptr r.kernel = ({ h.process with allocations }, k') ∧
      IsolationInv base (h.withAllocations allocations :: rest)
        { r with kernel :=
          k'.setProcess h.process.id (h.withAllocations allocations).process } := by
  obtain ⟨done, rest', hslots⟩ := List.append_of_mem he
  have hend := hinv.fits h List.mem_cons_self e he hptr
  have hok := hinv.task h List.mem_cons_self
  have hheap := hinv.ownsSpace.heap
  obtain ⟨k', hfree, hown, hunmaps, hout, hpages⟩ := processFree_owns hslots hptr hend hheap
    hok.pageDirectory hok.space
  have haligned : e.ptr % 4096 = 0 := by
    apply HeapOwns.ptr_aligned hheap (a := ⟨e.ptr, e.size⟩)
    apply List.mem_append_right
    exact List.mem_append_left _ (mem_userAllocs he hptr)
  refine ⟨_, k', hfree, hinv.replace hunmaps hown ?_ ?_ fun p hp hw => ?_⟩
  · exact fun b hb x hx => hout x (hinv.not_inTables hb hx)
  · intro a ha hne
    apply hinv.fits h List.mem_cons_self a _ hne
    rw [hslots]
    rcases List.mem_append.mp ha with hdone | hrest
    · exact List.mem_append_left _ hdone
    · rcases List.mem_cons.mp hrest with rfl | hrest
      · exact absurd rfl hne
      · exact List.mem_append_right _ (List.mem_cons_of_mem _ hrest)
  · rcases hpages p hp with ⟨hin, hother⟩
    have hnot : ¬ OwnPage e.ptr e.size p := by
      intro hown
      rw [hin hown] at hw
      exact absurd rfl (hw.flags (by omega))
    rw [hother hnot] at hw ⊢
    rcases hinv.writes h List.mem_cons_self p hp hw with himage | ⟨hself, a, ha, hx⟩
    · exact Or.inl himage
    · refine Or.inr ⟨hself, a, ?_, hx⟩
      -- the page would be one of those that are unmapped
      have hne : a ≠ ⟨e.ptr, e.size⟩ := by
        rintro rfl
        rw [hself] at hx
        exact hnot ((ownPage_iff haligned).mpr hx)
      rw [hslots, userAllocs_append, userAllocs_used hptr] at ha
      show a ∈ userAllocs (done ++ ⟨0, 0⟩ :: rest')
      rw [userAllocs_append]
      have hunused : (⟨0, 0⟩ : ProcessAllocation).ptr = 0 := rfl
      rw [userAllocs_unused hunused]
      rcases List.mem_append.mp ha with hdone | hrest
      · exact List.mem_append_left _ hdone
      · exact List.mem_append_right _ ((List.mem_cons.mp hrest).resolve_left hne)

/-! ## `process_load` -/

lemma mem_allBlocks_of_mem (hh : h ∈ held) :
    ∀ a ∈ h.blocks, a ∈ held.flatMap Held.allBlocks ++ base :=
  fun a ha => List.mem_append_left _ (List.mem_flatMap.mpr ⟨h, hh, Held.blocks_subset a ha⟩)

/-- The pages of a process when its blocks are kept. -/
lemma IsolationInv.writes_keeps (hinv : IsolationInv base held r) (hh : h ∈ held)
    (hsame : SameOn (held.flatMap Held.allBlocks ++ base) r.kernel.machine.mem k'.machine.mem)
    (hp : p < 2 ^ 20) (hw : UserWritable (pageAt k'.machine.mem h.chunk.directoryEntry p)) :
    h.MayWrite p (entryAddress (pageAt k'.machine.mem h.chunk.directoryEntry p)) := by
  have hok := hinv.task h hh
  have hpages := hsame.pageAt
    (fun a ha => mem_allBlocks_of_mem hh a (Held.space_mem hok.task a ha)) hok.space hp
  rw [hpages] at hw ⊢
  exact hinv.writes h hh p hp hw

/-- A load that fails keeps the blocks of the processes. -/
lemma IsolationInv.keeps (hinv : IsolationInv base held r)
    (howns : k'.Owns (held.flatMap Held.allBlocks ++ base))
    (hkeeps : r.kernel.Keeps (held.flatMap Held.allBlocks ++ base) k') :
    IsolationInv base held { r with kernel := k' } := by
  refine ⟨⟨?_, hinv.size, fun h hh => ?_, howns⟩, ?_, hinv.distinct, hinv.fits,
    fun h hh p hp hw => hinv.writes_keeps hh hkeeps.same hp hw⟩
  · unfold Kernel.HasProcess
    dsimp only
    rw [hkeeps.processes]
    exact hinv.slot
  · exact (hinv.task h hh).keeps hkeeps (mem_allBlocks_of_mem hh)
  · show k'.processes.length = _
    rw [hkeeps.processes]
    exact hinv.length

/-- A load that succeeds adds a process, which may write its program and its stack. -/
lemma IsolationInv.add (hinv : IsolationInv base held r)
    (hfree : r.kernel.processes[slot]? = some none)
    (hloaded : ProcessLoaded files slot (held.flatMap Held.allBlocks ++ base) r.kernel k' process
      chunk tables)
    (hstays : LoadsElf files r.kernel → StaysInImage files.elf (loadAddress files r.kernel)) :
    IsolationInv base (⟨process, files.elf.filesize, chunk, tables⟩ :: held)
      ⟨k', Function.update r.imageSize process.id files.elf.filesize⟩ := by
  rcases @hasProcess_add r.kernel k' held slot ⟨process, files.elf.filesize, chunk, tables⟩
    hinv.slot hfree hloaded.id hloaded.processes with ⟨hslot, hfresh⟩
  have hnone : ∀ a ∈ process.allocations, a.ptr = 0 := by
    rw [hloaded.allocations]
    exact processInit_allocations 0
  refine ⟨⟨hslot, ?_, ?_, ?_⟩, ?_, ?_, ?_, ?_⟩
  · have hself : Function.update r.imageSize process.id files.elf.filesize process.id =
        files.elf.filesize := Function.update_self _ _ _
    refine List.forall_mem_cons.mpr ⟨hself.symm, fun h hh => ?_⟩
    have hne : h.process.id ≠ process.id := by
      rw [hloaded.id]
      exact hfresh h hh
    exact (hinv.size h hh).trans (Function.update_of_ne hne _ _).symm
  · refine List.forall_mem_cons.mpr ⟨?_, fun h hh => ?_⟩
    · exact ⟨hloaded.task, hloaded.taskProcess, hloaded.pageDirectory, hloaded.space⟩
    · have hok := (hinv.task h hh).keeps hloaded.keeps (mem_allBlocks_of_mem hh)
      exact ⟨hok.task, hok.process, hok.pageDirectory, hok.space⟩
  · rw [List.flatMap_cons, List.append_assoc, Held.allBlocks, Process.allBlocks,
      userAllocs_eq_nil hnone, List.nil_append]
    exact hloaded.owns
  · show k'.processes.length = _
    rw [hloaded.processes, List.length_set]
    exact hinv.length
  · refine List.pairwise_cons.mpr ⟨fun h hh => ?_, hinv.distinct⟩
    rw [hloaded.id]
    exact (hfresh h hh).symm
  · exact List.forall_mem_cons.mpr ⟨fun a ha hne => absurd (hnone a ha) hne, hinv.fits⟩
  · refine List.forall_mem_cons.mpr ⟨fun p hp hw => Or.inl ?_, fun h hh p hp hw => ?_⟩
    · exact hloaded.mayWrite hstays hp hw
    · exact hinv.writes_keeps hh hloaded.keeps.same hp hw

/-- **`process_load`**. -/
lemma IsolationInv.processLoad {res : ℤ} {loaded : Option Process}
    (hinv : IsolationInv base held r) (hload : processLoad files r.kernel = .ok (res, loaded, k'))
    (hstays : LoadsElf files r.kernel → StaysInImage files.elf (loadAddress files r.kernel)) :
    loaded = none ∧ IsolationInv base held { r with kernel := k' } ∨
      ∃ process held', loaded = some process ∧ IsolationInv base held'
        ⟨k', Function.update r.imageSize process.id files.elf.filesize⟩ := by
  unfold MarrowOS.processLoad at hload
  rcases processGetFreeSlot_cases hinv.length with ⟨hslot, -⟩ | ⟨slot, hslot, hfree, -⟩
  · rw [hslot] at hload
    dsimp only at hload
    rw [if_pos (by decide)] at hload
    rcases ok_triple_inj hload with ⟨-, hnone, hk'⟩
    exact Or.inl ⟨hnone.symm, hk' ▸ hinv⟩
  · rw [hslot] at hload
    dsimp only at hload
    rw [if_neg (by omega), Int.toNat_natCast] at hload
    rcases processLoadForSlot_owns hinv.owns hload with ⟨-, -, hnone, hk'⟩ | ⟨-, hfailed | hsuccess⟩
    · exact Or.inl ⟨hnone, hk' ▸ hinv⟩
    · exact Or.inl ⟨hfailed.loaded, hinv.keeps hfailed.owns hfailed.keeps⟩
    · rcases hsuccess with ⟨-, process, chunk, tables, hloaded, hprocess⟩
      exact Or.inr ⟨process, _, hloaded, hinv.add hfree hprocess hstays⟩

/-! ## Isolation in every run -/

/-- **Step lemma.** -/
lemma IsolationInv.step {r' : IsolationRun} {op : IsolationOp} (hinv : IsolationInv base held r)
    (hallowed : IsolationAllowed r op) (hstays : LoadsStayInImage r op)
    (hstep : isolationStep r op = some r') : ∃ held', IsolationInv base held' r' := by
  cases op with
  | processLoad files =>
    unfold isolationStep at hstep
    cases hload : MarrowOS.processLoad files r.kernel with
    | error fault => simp [hload] at hstep
    | ok result =>
      rcases result with ⟨res, loaded, k'⟩
      simp only [hload] at hstep
      rcases hinv.processLoad hload hstays with ⟨hnone, hinv'⟩ | ⟨process, held', hsome, hinv'⟩
      · rw [hnone] at hstep
        rw [← Option.some.inj hstep]
        exact ⟨held, hinv'⟩
      · rw [hsome] at hstep
        rw [← Option.some.inj hstep]
        exact ⟨held', hinv'⟩
  | processMalloc slot size =>
    rcases hallowed with ⟨hsize, hrun⟩
    unfold isolationStep at hstep
    cases hp : r.kernel.processes[slot]? with
    | none => simp [hp] at hstep
    | some o =>
      cases o with
      | none => simp [hp] at hstep
      | some process =>
        obtain ⟨h, rest, rfl, rfl, hinv'⟩ := hinv.head hp
        obtain ⟨ptr, allocations, k', hmalloc, hnext⟩ := hinv'.processMalloc hsize hrun
        simp only [hp, hmalloc] at hstep
        rw [← Option.some.inj hstep]
        exact ⟨_, hnext⟩
  | processFree slot ptr =>
    unfold isolationStep at hstep
    cases hp : r.kernel.processes[slot]? with
    | none => simp [hp] at hstep
    | some o =>
      cases o with
      | none => simp [hp] at hstep
      | some process =>
        obtain ⟨e, he, hne, rfl⟩ := hallowed process hp
        obtain ⟨h, rest, rfl, rfl, hinv'⟩ := hinv.head hp
        obtain ⟨allocations, k', hfree, hnext⟩ := hinv'.processFree he hne
        simp only [hp, hfree] at hstep
        rw [← Option.some.inj hstep]
        exact ⟨_, hnext⟩

/-- **Write isolation.** From an empty table, in every run whose ELF files stay in their buffers,
every page that a process may write is in a block of its own, in every state. -/
theorem writeIsolated_throughout (howns : k.Owns base)
    (hempty : k.processes = List.replicate marrowosMaxProcesses none) (imageSize : ℕ → ℕ)
    (ops : List IsolationOp) (hallowed : Meets isolationStep IsolationAllowed ⟨k, imageSize⟩ ops)
    (hstays : Meets isolationStep LoadsStayInImage ⟨k, imageSize⟩ ops) :
    Throughout isolationStep (WriteIsolated base) ⟨k, imageSize⟩ ops := by
  have hstart : ∃ held, IsolationInv base held ⟨k, imageSize⟩ := by
    refine ⟨[], ⟨fun i p => ?_, by simp, by simp, howns⟩, ?_, List.Pairwise.nil, by simp, by simp⟩
    · unfold Kernel.HasProcess
      dsimp only
      rw [hempty, List.getElem?_replicate]
      simp
    · show k.processes.length = _
      rw [hempty, List.length_replicate]
  have hboth : Meets isolationStep (fun r op => IsolationAllowed r op ∧ LoadsStayInImage r op)
      ⟨k, imageSize⟩ ops := hallowed.and hstays
  refine (throughout_of_meets (I := fun r => ∃ held, IsolationInv base held r)
    (fun r op r' hr hop hstep => ?_) hstart hboth).imp fun r hr => ?_
  · rcases hr with ⟨held, hinv⟩
    exact hinv.step hop.1 hop.2 hstep
  · rcases hr with ⟨held, hinv⟩
    exact hinv.isolated

/-! ### A program, and what it allocates -/

lemma processLoad_bootKernel (files : LoadAnswers) :
    processLoad files bootKernel = processLoadForSlot files 0 bootKernel := rfl

/-- The first program of a kernel. -/
lemma isolationStep_bootKernel {res : ℤ} (imageSize : ℕ → ℕ)
    (hload : processLoadForSlot files 0 bootKernel = .ok (res, some process, k')) :
    isolationStep ⟨bootKernel, imageSize⟩ (.processLoad files) =
      some ⟨k', Function.update imageSize process.id files.elf.filesize⟩ := by
  unfold isolationStep
  dsimp only
  rw [processLoad_bootKernel, hload]

/-- A program of one byte is loaded, and allocates a hundred bytes. -/
theorem writeIsolated_oneByteFile : Throughout isolationStep (WriteIsolated [])
    ⟨bootKernel, fun _ => 0⟩
    [.processLoad ⟨oneByteFile, oneByteFile⟩, .processMalloc 0 100] := by
  have hroom : bootKernel.RoomLeft (24563 + 1037) := ⟨25600, le_refl _, bootKernel_room⟩
  obtain ⟨process, k', chunk, tables, hload, -, n, hn, htail⟩ :=
    @processLoadForSlot_oneByteFile bootKernel [] 24563 0 bootKernel_owns rfl hroom
  refine writeIsolated_throughout bootKernel_owns rfl _ _ ⟨trivial, fun r' hr' => ?_⟩
    ⟨fun hloads => absurd hloads (not_loadsElf_oneByteFile bootKernel),
      fun _ _ => ⟨trivial, fun _ _ => trivial⟩⟩
  rw [isolationStep_bootKernel _ hload] at hr'
  rw [← Option.some.inj hr']
  obtain ⟨d, rfl⟩ := Nat.exists_eq_add_of_le hn
  have htail' : FreeTail (24562 + d + 1) k'.machine.heap.heap := by
    rw [show 24562 + d + 1 = 24563 + d by omega]
    exact htail
  exact ⟨⟨by decide, hasFreeRun_one htail'.freeBlocks_pos⟩, fun _ _ => trivial⟩

/-! ### A program header that is larger in memory than the file -/

/-- Six pages for a file of one, the sort of header that a program with uninitialised data has. -/
def widePhdr : Elf32Phdr := ⟨ptLoad, 0, 0x400000, 84, 0x6000, pfW⟩

lemma widePhdr_inRange : widePhdr.InRange :=
  ⟨by decide, by decide, by decide, by decide, by decide, by decide⟩

lemma phdrMapping_widePhdr {addr : ℕ} (haligned : addr % 4096 = 0) (hlt : addr + 4096 ≤ 2 ^ 31) :
    phdrMapping addr widePhdr = ⟨0x400000, addr, addr + 0x6000, userWritableFlags⟩ := by
  have hphys : u32 ((addr : ℤ) + (0 : ℕ)) = addr := by
    unfold u32
    omega
  have hblocks : blocksFor 0x6000 = 6 := by decide
  have hend := @pagingAlignAddress_end addr 0x6000 haligned (by rw [hblocks]; omega)
  rw [hblocks] at hend
  have hlower : pagingAlignToLowerPage addr = addr := by
    unfold pagingAlignToLowerPage
    simp only [pagingPageSize]
    omega
  unfold phdrMapping widePhdr
  dsimp only
  rw [hphys, hend, hlower]
  rfl

/-- Its pages show the buffer and what is behind it. -/
lemma ProcessLoaded.pageAt_widePhdr {files : LoadAnswers} {f : ElfFile}
    (h : ProcessLoaded files slot live k k' process chunk tables)
    (hprogram : process.programMappings files.elf =
      [⟨0x400000, f.elfMemory, f.elfMemory + 0x6000, userWritableFlags⟩]) {j : ℕ} (hj : j < 6) :
    pageAt k'.machine.mem chunk.directoryEntry (0x400 + j) =
      (f.elfMemory + 4096 * j) ||| userWritableFlags := by
  have hvirt : 0x400000 / 4096 = 0x400 := by norm_num
  have hbehind : pagesBehind 0x400 (0x400 + j) = j := by
    unfold pagesBehind
    omega
  have hpatch : (⟨0x400000, f.elfMemory, f.elfMemory + 0x6000, userWritableFlags⟩ :
      Mapping).patch (0x400 + j) = some ((f.elfMemory + 4096 * j) ||| userWritableFlags) := by
    unfold Mapping.patch Mapping.Covers Mapping.target
    simp only [hvirt, hbehind, Nat.add_sub_cancel_left]
    exact if_pos (by omega)
  have hnotStack : ¬ (stackMapping process.stack).Covers (0x400 + j) := by
    rw [stackMapping_covers_iff h.stack_address.1 h.stack_address.2 (by omega)]
    rintro ⟨-, hpage⟩
    have hstart : marrowosProgramVirtualStackAddressStart / pagingPageSize = 0x3ff := by decide
    rw [hstart] at hpage
    omega
  rw [h.pages _ (by omega), hprogram, List.singleton_append, List.map_cons, List.map_singleton]
  refine @overlay_of_last _ _ _ _ _ _ [] _ hpatch fun q hq => ?_
  rw [List.mem_singleton.mp hq]
  exact Mapping.patch_eq_none.mpr hnotStack

/-- A program of 84 bytes may write five pages behind its buffer, of which the stack takes four at
most. -/
theorem writeIsolated_widePhdr :
    Meets isolationStep IsolationAllowed ⟨bootKernel, fun _ => 0⟩
      [.processLoad ⟨oneHeaderFile widePhdr, oneHeaderFile widePhdr⟩] ∧
    ¬ Throughout isolationStep (WriteIsolated []) ⟨bootKernel, fun _ => 0⟩
      [.processLoad ⟨oneHeaderFile widePhdr, oneHeaderFile widePhdr⟩] := by
  refine ⟨⟨trivial, fun _ _ => trivial⟩, fun hthroughout => ?_⟩
  have hvalid : ∀ addr, 0 < addr → addr % 4096 = 0 → addr + 4096 ≤ 2 ^ 31 →
      (phdrMapping addr widePhdr).Valid := by
    intro addr _ haligned hlt
    rw [phdrMapping_widePhdr haligned hlt]
    have hend : (addr + 0x6000) % 4096 = 0 := by omega
    exact ⟨by norm_num, haligned, hend, Nat.le_add_right _ _⟩
  obtain ⟨process, k', chunk, tables, hload, hloaded⟩ :=
    processLoadForSlot_oneHeaderFile widePhdr_inRange hvalid
  have hsize : (oneHeaderFile widePhdr).filesize = 84 := oneHeaderFile_filesize _
  obtain ⟨held, howners, hisolated⟩ :=
    (hthroughout.2 _ (isolationStep_bootKernel (fun _ => 0) hload)).head
  -- the process, as the owners know it
  have hprocess : k'.HasProcess 0 process := by
    unfold Kernel.HasProcess
    rw [hloaded.processes]
    rfl
  obtain ⟨h, hh, heq, -⟩ := (howners.slot 0 process).mp hprocess
  have hchunk : h.chunk = chunk := by
    have hdirectory := (howners.task h hh).pageDirectory
    rw [heq] at hdirectory
    exact hdirectory.symm.trans hloaded.pageDirectory
  have hsize' : h.size = 84 := by
    have hupdate := howners.size h hh
    dsimp only at hupdate
    rw [heq, Function.update_self, hsize] at hupdate
    exact hupdate
  rcases hloaded.filetype with ⟨hfiletype, hsome, -⟩ | ⟨-, hnot⟩
  · obtain ⟨f, hf⟩ := Option.isSome_iff_exists.mp hsome
    rcases hloaded.elf_address bootKernel_saddr hfiletype hf with ⟨-, haligned, hlt⟩
    have hprogram : process.programMappings (oneHeaderFile widePhdr) =
        [⟨0x400000, f.elfMemory, f.elfMemory + 0x6000, userWritableFlags⟩] := by
      unfold Process.programMappings
      rw [hfiletype, hf]
      dsimp only
      rw [elfPhdrs_oneHeaderFile widePhdr_inRange hlt, List.map_singleton,
        phdrMapping_widePhdr haligned hlt]
    have hdata : process.dataBlocks 84 =
        [⟨f.elfMemory, 84⟩, ⟨process.stack, marrowosUserProgramStackSize⟩] := by
      have hnone : userAllocs process.allocations = [] := by
        apply userAllocs_eq_nil
        rw [hloaded.allocations]
        exact processInit_allocations 0
      unfold Process.dataBlocks Process.imageBlocks
      rw [hfiletype, hf, Process.stackBlocks, if_neg hloaded.stack, hnone]
      rfl
    -- each of the six pages would be in the buffer or in the stack
    have hblock : ∀ j < 6, ∃ a ∈ process.dataBlocks 84, a.Covers (f.elfMemory + 4096 * j) := by
      intro j hj
      have hentry : pageEntry k'.machine.mem chunk.directoryEntry (4096 * (0x400 + j)) =
          (f.elfMemory + 4096 * j) ||| userWritableFlags := hloaded.pageAt_widePhdr hprogram hj
      have hflags := userWritableFlags_lt
      obtain ⟨a, ha, honly⟩ := hisolated h hh (4096 * (0x400 + j)) (by omega) (by
        rw [hchunk]
        dsimp only
        rw [hentry]
        exact ⟨or_and_ne_zero (by decide), or_and_ne_zero (by decide),
          or_and_ne_zero (by decide)⟩)
      have hcovers := honly.covers
      rw [hchunk, translate] at hcovers
      dsimp only at hcovers
      rw [hentry, entryAddress_or (by omega) (by omega) hflags, Nat.mul_mod_right,
        add_zero] at hcovers
      rw [heq, hsize'] at ha
      exact ⟨a, ha, hcovers⟩
    have hbehind : ∀ j, 0 < j → j < 6 → process.stack ≤ f.elfMemory + 4096 * j ∧
        f.elfMemory + 4096 * j < process.stack + 4096 * 4 := by
      intro j hpos hj
      obtain ⟨a, ha, hcovers⟩ := hblock j hj
      rw [hdata] at ha
      have hone : blocksFor 84 = 1 := by decide
      have hfour : blocksFor marrowosUserProgramStackSize = 4 := by decide
      unfold Alloc.Covers at hcovers
      rcases List.mem_cons.mp ha with rfl | ha
      · dsimp only at hcovers
        rw [hone] at hcovers
        omega
      · rw [List.mem_singleton.mp ha] at hcovers
        dsimp only at hcovers
        rw [hfour] at hcovers
        exact hcovers
    have hfirst := hbehind 1 (by norm_num) (by norm_num)
    have hlast := hbehind 5 (by norm_num) (by norm_num)
    omega
  · exact absurd (loadsElf_oneHeaderFile widePhdr _ bootKernel) hnot

end MarrowOS
