import MarrowOS.Task.LoadingProgress

/-!
# Loads that fail

A load can fail before it has a task, and then the task list was never touched, or while the process
is mapped, and then the new task is the last one of the list and is removed again. Either way
nothing of it is left (`processLoadForSlot_failed`).
-/

namespace MarrowOS

open ByteMem CInt Fallible

variable {k k' : Kernel} {live : List Alloc} {process : Process} {files : LoadAnswers} {res : ℤ}
  {chunk : Paging4gbChunk} {tables list : List ℕ} {slot : ℕ}

/-- Two allocations of different owners have different addresses. -/
lemma HeapOwns.ptr_ne_of_append {heap : Heap} {other mine : List Alloc} {a b : Alloc}
    (h : HeapOwns heap (other ++ (mine ++ live))) (ha : a ∈ mine) (hb : b ∈ live) :
    a.ptr ≠ b.ptr := by
  have hrest := (List.pairwise_append.mp h.before_or_behind).2.1
  have happart := (List.pairwise_append.mp hrest).2.2 a ha b hb
  have hsize := blocksFor_pos (h.size_pos a (List.mem_append_right _ (List.mem_append_left _ ha)))
  have hsize' := blocksFor_pos (h.size_pos b (List.mem_append_right _ (List.mem_append_right _ hb)))
  omega

/-- The new task is none of the old ones. -/
lemma ReadyToMap.task_fresh {k₁ : Kernel} (h : ReadyToMap files slot live k k₁ process chunk tables)
    (hlive : ∀ t ∈ list, ⟨t, sizeofTask⟩ ∈ live) : process.task ∉ list := by
  intro hmem
  have htask : (⟨process.task, sizeofTask⟩ : Alloc) ∈
      process.blocks files.elf.filesize chunk tables := by
    unfold Process.blocks Process.taskBlocks
    rw [if_neg h.task]
    apply List.mem_append_left
    exact List.mem_append_right _ (List.mem_singleton_self _)
  exact HeapOwns.ptr_ne_of_append h.owns htask (hlive _ hmem) rfl

/-- A failure to map removes the task that was linked. -/
lemma ReadyToMap.failed_tasks {k₁ k₂ : Kernel} {res₂ : ℤ} {loaded : Option Process}
    (h : ReadyToMap files slot live k k₁ process chunk tables) (hlist : TaskListOk ⟨k.tasks, list⟩)
    (hlive : ∀ t ∈ list, ⟨t, sizeofTask⟩ ∈ live)
    (hmap : processMapMemory files process k₁ = .ok (res₂, k₂))
    (hres : mappedResult slot process res₂ k₂ = (res, loaded, k')) (hfail : res < 0) :
    SameTasks list k.tasks k'.tasks := by
  have hneg : res₂ < 0 := by
    by_contra hpos
    rw [mappedResult, if_neg hpos] at hres
    have heq := (Prod.mk.inj hres).1
    omega
  rw [mappedResult, if_pos hneg] at hres
  have hk' : k' = processFreeProcess process k₂ := (Prod.mk.inj (Prod.mk.inj hres).2).2.symm
  have hk₂ : k₂.tasks = k₁.tasks := by
    rcases processMapMemory_maps h.space h.pageDirectory h.image h.stackValid hmap with
      ⟨mem, rfl, -⟩
    rfl
  obtain ⟨newChunk, registers, htasks⟩ := h.tasks
  rw [hk', processFreeProcess_tasks, if_neg h.task, hk₂, htasks]
  exact hlist.taskListRemove_taskNewLink h.task (h.task_fresh hlive) newChunk registers process.addr

/-- From `k` to `k'` nothing has changed but what belongs to the file layer: no process, no task of
the list `list`, no page of an address space, no byte of a block that was owned; and the heap's
blocks have the owners they had. -/
structure LeavesNoTrace (live : List Alloc) (list : List ℕ) (k k' : Kernel) : Prop where
  processes : k'.processes = k.processes
  tasks : SameTasks list k.tasks k'.tasks
  pages : ∀ chunk tables, (∀ a ∈ spaceAllocs chunk tables, a ∈ live) →
    AddressSpace k.machine.mem chunk.directoryEntry tables →
    ∀ p < 2 ^ 20, pageAt k'.machine.mem chunk.directoryEntry p =
      pageAt k.machine.mem chunk.directoryEntry p
  memory : SameOn live k.machine.mem k'.machine.mem
  owns : k'.Owns live
  table : k'.fileBlocks = k.fileBlocks →
    SameTable k.machine.heap.heap k'.machine.heap.heap

/-- The pages of an address space are in blocks that it owns. -/
lemma SameOn.pageAt {mem mem' : Mem} (hsame : SameOn live mem mem')
    (hblocks : ∀ a ∈ spaceAllocs chunk tables, a ∈ live)
    (h : AddressSpace mem chunk.directoryEntry tables) {p : ℕ} (hp : p < 2 ^ 20) :
    pageAt mem' chunk.directoryEntry p = pageAt mem chunk.directoryEntry p := by
  have h' : AddressSpace mem' chunk.directoryEntry tables :=
    h.sameOn hsame (hblocks _ (directory_mem chunk tables))
  refine h.pageAt_congr h' (fun x hx => ?_) hp
  obtain ⟨t, ht, h₀, h₁⟩ := hx
  have hmem : (⟨t, 4096⟩ : Alloc) ∈ spaceAllocs chunk tables :=
    List.mem_cons_of_mem _ (List.mem_append_left _ (List.mem_map.mpr ⟨t, ht, rfl⟩))
  exact hsame _ (hblocks _ hmem) x (page_covers.mpr ⟨h₀, h₁⟩)

/-- **A failed load leaves no trace.** -/
theorem processLoadForSlot_failed {loaded : Option Process} (h : k.Owns live)
    (hlist : TaskListOk ⟨k.tasks, list⟩) (hlive : ∀ t ∈ list, ⟨t, sizeofTask⟩ ∈ live)
    (hslot : (processGet k slot).isNone)
    (hload : processLoadForSlot files slot k = .ok (res, loaded, k')) (hfail : res < 0) :
    loaded = none ∧ LeavesNoTrace live list k k' := by
  have hfailed : LoadFailed live k k' res loaded := by
    rcases processLoadForSlot_owns h hload with ⟨-, htaken, -⟩ | ⟨-, hfailed | ⟨hres, -⟩⟩
    · rw [Option.isNone_iff_eq_none.mp hslot] at htaken
      exact absurd htaken (by simp)
    · exact hfailed
    · omega
  have htasks : SameTasks list k.tasks k'.tasks := by
    rcases processLoadForSlot_cases h hload with
      ⟨-, htaken, -⟩ | ⟨-, ⟨-, htasks⟩ | ⟨_, _, _, _, _, _, hready, hmap, hres⟩⟩
    · rw [Option.isNone_iff_eq_none.mp hslot] at htaken
      exact absurd htaken (by simp)
    · rw [htasks]
      exact SameTasks.refl list k.tasks
    · exact hready.failed_tasks hlist hlive hmap hres hfail
  refine ⟨hfailed.loaded, hfailed.keeps.processes, htasks,
    fun chunk tables hblocks hspace p hp => ?_,
    hfailed.keeps.same, hfailed.owns, fun hfile => ?_⟩
  · exact hfailed.keeps.same.pageAt hblocks hspace hp
  · have hown := hfailed.owns
    unfold Kernel.Owns at hown
    rw [hfile] at hown
    exact HeapOwns.sameTable h hown hfailed.keeps.pool

/-- A program header whose memory ends before it starts. -/
def backwardsPhdr : Elf32Phdr := ⟨ptLoad, 0, 0x400000, 84, 0xfffff000, pfW⟩

lemma phdrMapping_backwardsPhdr {addr : ℕ} (hpos : 0 < addr) (haligned : addr % 4096 = 0)
    (hlt : addr + 4096 ≤ 2 ^ 31) : ¬ (phdrMapping addr backwardsPhdr).Valid := by
  rintro ⟨-, -, -, hle⟩
  have hphys : u32 ((addr : ℤ) + (0 : ℕ)) = addr := by
    unfold u32
    omega
  have hend : u32 ((addr : ℤ) + (0xfffff000 : ℕ)) = addr - 4096 := by
    unfold u32
    omega
  have hmod : (addr - 4096) % 4096 = 0 := by omega
  unfold phdrMapping backwardsPhdr at hle
  dsimp only at hle
  rw [hphys, hend, pagingAlignToLowerPage, pagingAlignAddress, if_neg (not_not.mpr hmod)] at hle
  simp only [pagingPageSize, haligned] at hle
  omega

/-- The first task of a kernel is removed again. -/
theorem processLoadForSlot_backwardsPhdr : ∃ loaded k',
    processLoadForSlot ⟨oneHeaderFile backwardsPhdr, oneHeaderFile backwardsPhdr⟩ 0 bootKernel =
      .ok (-einvarg, loaded, k') ∧
    loaded = none ∧ LeavesNoTrace [] [] bootKernel k' := by
  obtain ⟨loaded, k', hload⟩ := @processLoadForSlot_oneHeaderFile_failed backwardsPhdr
    ⟨by decide, by decide, by decide, by decide, by decide, by decide⟩
    fun addr => phdrMapping_backwardsPhdr
  have hlist : TaskListOk ⟨bootKernel.tasks, []⟩ := emptyTaskRun_ok bootKernel.tasks.tasks
  have htrace := processLoadForSlot_failed bootKernel_owns hlist
    (fun t ht => absurd ht List.not_mem_nil) rfl hload (by decide)
  exact ⟨loaded, k', hload, htrace⟩

end MarrowOS
