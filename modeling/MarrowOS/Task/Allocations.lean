import MarrowOS.Memory.FreshAddressSpace
import MarrowOS.Task.ProcessTheorems

/-!
# One process's allocations

* `processFree_foreign_iff`: a pointer the process does not hold is left alone, but for the null
  pointer: an unused slot of the allocation table has that address too, and `kfree` then clears the
  byte `saddr / 4096` entries in front of the block table.
* `mallocAllOrNothing_iff`: `process_malloc` does all of it or nothing, and `process_free` undoes
  it, unless the table records the pointer already, as it does after a request for zero bytes.
-/

namespace MarrowOS

open ByteMem CInt Extents Fallible FirstSlot

variable {k : Kernel} {process : Process} {live : List Alloc} {ptr size : ℕ} {tables : List ℕ}

/-! ## Pointers of others -/

/-- The pointer is none of the process's live allocations. -/
def ForeignPointer (process : Process) (ptr : ℕ) : Prop :=
  ∀ a ∈ process.allocations, a.ptr ≠ 0 → a.ptr ≠ ptr

instance (process : Process) (ptr : ℕ) : Decidable (ForeignPointer process ptr) :=
  inferInstanceAs (Decidable (∀ a ∈ process.allocations, _))

/-- What keeps a call with a foreign pointer from doing anything: the pointer is not null, or no
slot is unused, or the unused slots are clear and so is what null stands for in the block table. -/
def FreesNothing (process : Process) (ptr : ℕ) (heap : Heap) : Prop :=
  ptr ≠ 0 ∨ ¬ HasFreeSlot process ∨
    (∀ a ∈ process.allocations, a.ptr = 0 → a.size = 0) ∧
      FreesNothingAt heap (heapAddressToBlock heap 0)

/-- A pointer that stands in no slot. -/
lemma processFree_of_unrecorded (h : ∀ a ∈ process.allocations, a.ptr ≠ ptr) :
    processFree process ptr k = (process, k) := by
  have hnone : processGetAllocationByAddr process ptr = none :=
    List.find?_eq_none.mpr fun a ha => by simpa using h a ha
  rw [processFree, hnone]

/-- The null pointer finds the first unused slot. -/
lemma processFree_null (hslot : HasFreeSlot process) :
    ∃ a ∈ process.allocations, a.ptr = 0 ∧
      processFree process 0 k = (processAllocationUnjoin process 0,
        k.withMachine ⟨⟨heapFree k.machine.heap.heap 0, k.machine.heap.overdrawn⟩,
          (pagingMapTo (k.pageDirectory process) 0 0 (pagingAlignAddress (u32 a.size)) 0
            k.machine.mem).2⟩) := by
  cases hget : processGetAllocationByAddr process 0 with
  | none =>
    rcases hslot with ⟨a, ha, h0⟩
    have hne := List.find?_eq_none.mp hget a ha
    simp [h0] at hne
  | some a =>
    have h0 : a.ptr = 0 := by simpa using List.find?_some hget
    refine ⟨a, List.mem_of_find?_eq_some hget, h0, ?_⟩
    have hres := @pagingMapTo_fst k.machine.mem 0 0 (pagingAlignAddress (u32 a.size))
      (k.pageDirectory process) 0 rfl rfl pagingAlignAddress_mod (Nat.zero_le _)
    rw [processFree, hget]
    simp only [h0, Nat.cast_zero, zero_add]
    rw [hres, if_neg (lt_irrefl 0)]
    rfl

/-- Clearing the slots of a pointer changes nothing when they are clear. -/
lemma processAllocationUnjoin_eq_self : processAllocationUnjoin process ptr = process ↔
    ∀ a ∈ process.allocations, a.ptr = ptr → ⟨0, 0⟩ = a := by
  have hmap : process.allocations.map (fun a => if a.ptr = ptr then ⟨0, 0⟩ else a) =
      process.allocations.map id ↔ ∀ a ∈ process.allocations, a.ptr = ptr → ⟨0, 0⟩ = a := by
    rw [List.map_inj_left]
    refine forall₂_congr fun a _ => ?_
    by_cases hptr : a.ptr = ptr
    · simp [hptr]
    · simp [hptr]
  rw [List.map_id] at hmap
  constructor
  · intro heq
    exact hmap.mp (congrArg Process.allocations heq)
  · intro hclear
    rw [processAllocationUnjoin, hmap.mpr hclear]

lemma processAllocationUnjoin_null : processAllocationUnjoin process 0 = process ↔
    ∀ a ∈ process.allocations, a.ptr = 0 → a.size = 0 := by
  rw [processAllocationUnjoin_eq_self]
  refine forall₃_congr fun a _ h0 => ⟨fun heq => ?_, fun hsize => ?_⟩
  · rw [← heq]
  · rcases a with ⟨p, n⟩
    rw [show p = 0 from h0, show n = 0 from hsize]

/-- **Foreign pointers.** A call with a pointer the process does not hold changes nothing exactly
when `FreesNothing` holds. -/
theorem processFree_foreign_iff (process : Process) (ptr : ℕ) (k : Kernel)
    (hforeign : ForeignPointer process ptr) :
    processFree process ptr k = (process, k) ↔ FreesNothing process ptr k.machine.heap.heap := by
  by_cases hptr : ptr = 0
  · by_cases hslot : HasFreeSlot process
    · subst hptr
      rcases @processFree_null k process hslot with ⟨a, ha, h0, heq⟩
      rw [heq]
      constructor
      · intro hsame
        rcases Prod.mk.inj hsame with ⟨hprocess, hkernel⟩
        have hheap : heapFree k.machine.heap.heap 0 = k.machine.heap.heap :=
          congrArg (fun k : Kernel => k.machine.heap.heap) hkernel
        exact Or.inr (Or.inr ⟨processAllocationUnjoin_null.mp hprocess,
          heapMarkBlocksFree_eq_self_iff.mp hheap⟩)
      · rintro (hne | hno | ⟨hclear, hnothing⟩)
        · exact absurd rfl hne
        · exact absurd hslot hno
        have hheap : heapFree k.machine.heap.heap 0 = k.machine.heap.heap :=
          heapMarkBlocksFree_eq_self_iff.mpr hnothing
        have hend : pagingAlignAddress (u32 (a.size : ℕ)) = 0 := by
          rw [hclear a ha h0]
          rfl
        rw [processAllocationUnjoin_null.mpr hclear, hheap, hend,
          pagingMapTo_eq rfl rfl rfl le_rfl]
        rfl
    · refine iff_of_true (processFree_of_unrecorded fun a ha h => ?_) (Or.inr (Or.inl hslot))
      exact hslot ⟨a, ha, h.trans hptr⟩
  · refine iff_of_true (processFree_of_unrecorded fun a ha h => ?_) (Or.inl hptr)
    exact hforeign a ha (h.trans_ne hptr) h

/-- A kernel in which the byte that null stands for is set. -/
def dirtyKernel : Kernel where
  machine := ⟨⟨(kheapInit fun _ => 1).2, false⟩, fun _ => 0⟩
  tasks := ⟨0, 0, 0, fun _ => ⟨⟨4096, 8192⟩, {}, 0, 0, 0⟩⟩
  fileBlocks := []
  processes := []

/-- A process without allocations frees the null pointer. -/
theorem processFree_dirtyKernel :
    ForeignPointer (processInit 12288) 0 ∧
      processFree (processInit 12288) 0 dirtyKernel ≠ (processInit 12288, dirtyKernel) := by
  have hempty : ∀ a ∈ (processInit 12288).allocations, a = ⟨0, 0⟩ :=
    fun a ha => List.eq_of_mem_replicate ha
  have hslot : HasFreeSlot (processInit 12288) :=
    ⟨⟨0, 0⟩, List.mem_replicate.mpr ⟨by decide, rfl⟩, rfl⟩
  constructor
  · intro a ha hne
    rw [hempty a ha] at hne
    exact absurd rfl hne
  · intro hsame
    rcases @processFree_null dirtyKernel _ hslot with ⟨a, -, -, heq⟩
    rw [heq] at hsame
    have hheap : heapFree dirtyKernel.machine.heap.heap 0 = dirtyKernel.machine.heap.heap :=
      congrArg (fun k : Kernel => k.machine.heap.heap) (Prod.mk.inj hsame).2
    have hblock : heapAddressToBlock dirtyKernel.machine.heap.heap 0 = -4096 := by decide
    have hclear := heapMarkBlocksFree_eq_self_iff.mp hheap
    rw [hblock] at hclear
    exact absurd hclear (by decide)

/-- Any other pointer is left alone. -/
theorem processFree_dirtyKernel_other :
    processFree (processInit 12288) 0x1234 dirtyKernel = (processInit 12288, dirtyKernel) := by
  apply (processFree_foreign_iff _ _ _ ?_).mpr (Or.inl (by decide))
  intro a ha hne
  rw [List.eq_of_mem_replicate ha] at hne
  exact absurd rfl hne

/-! ## All or nothing -/

/-- Page `p` is one of the blocks of an allocation. -/
def OwnPage (ptr size p : ℕ) : Prop := ptr / 4096 ≤ p ∧ p < ptr / 4096 + blocksFor size

/-- The process got the pointer: a slot that was unused records it, and its pages translate to
themselves and are the user's to write. -/
structure Malloced (process : Process) (k : Kernel) (size ptr : ℕ) (process' : Process)
    (k' : Kernel) : Prop where
  slot : ∃ (i : ℕ) (a : ProcessAllocation), process.allocations[i]? = some a ∧ a.ptr = 0 ∧
    process' = { process with allocations := process.allocations.set i ⟨ptr, size⟩ }
  mapped : ∀ v, ptr ≤ v → v < ptr + 4096 * blocksFor size →
    pagingGetPhysicalAddress k'.machine.mem (k.pageDirectory process).directoryEntry v = v ∧
      UserWritable (pageEntry k'.machine.mem (k.pageDirectory process).directoryEntry v)
  others : ∀ p < 2 ^ 20, ¬ OwnPage ptr size p →
    pageAt k'.machine.mem (k.pageDirectory process).directoryEntry p =
      pageAt k.machine.mem (k.pageDirectory process).directoryEntry p

/-- Table and heap are what they were, and the pages of the allocation are not present. -/
structure Undone (process : Process) (k : Kernel) (size ptr : ℕ) (process' : Process)
    (k' : Kernel) : Prop where
  restored : process' = process
  heap : k'.machine.heap.heap = k.machine.heap.heap
  unmapped : ∀ p < 2 ^ 20, OwnPage ptr size p →
    pageAt k'.machine.mem (k.pageDirectory process).directoryEntry p &&& pagingIsPresent = 0
  others : ∀ p < 2 ^ 20, ¬ OwnPage ptr size p →
    pageAt k'.machine.mem (k.pageDirectory process).directoryEntry p =
      pageAt k.machine.mem (k.pageDirectory process).directoryEntry p

/-- The process got nothing, and nothing changed. -/
structure Refused (process : Process) (k : Kernel) (process' : Process) (k' : Kernel) : Prop where
  restored : process' = process
  heap : k'.machine.heap.heap = k.machine.heap.heap
  pages : ∀ p < 2 ^ 20, pageAt k'.machine.mem (k.pageDirectory process).directoryEntry p =
    pageAt k.machine.mem (k.pageDirectory process).directoryEntry p

/-- `process_malloc` does all of it, and `process_free` undoes it, or nothing. -/
def MallocAllOrNothing (process : Process) (size : ℕ) (k : Kernel) : Prop :=
  ∃ ptr process' k', processMalloc process size k = .ok (ptr, process', k') ∧
    ((ptr ≠ 0 ∧ Malloced process k size ptr process' k' ∧
        Undone process k size ptr (processFree process' ptr k').1 (processFree process' ptr k').2) ∨
      (ptr = 0 ∧ Refused process k process' k'))

/-- If the table has an unused slot, the first one is clear, and no slot records the address of the
first run that is long enough. -/
def Undoable (process : Process) (size : ℕ) (heap : Heap) : Prop :=
  HasFreeSlot process →
    (∀ (i : ℕ) a, processFindFreeAllocationIndex process = i → process.allocations[i]? = some a →
      a.size = 0) ∧
    ∀ a ∈ process.allocations,
      a.ptr ≠ heapBlockToAddress heap (heapGetStartBlock heap (blocksFor size))

/-! ### The allocation table -/

/-- Recording a pointer in a clear slot and clearing it again. -/
lemma unjoin_record {i : ℕ} {a : ProcessAllocation} (hptr : ptr ≠ 0)
    (hi : process.allocations[i]? = some a) (h0 : a.ptr = 0) :
    processAllocationUnjoin
        { process with allocations := process.allocations.set i ⟨ptr, size⟩ } ptr = process ↔
      a.size = 0 ∧ ∀ b ∈ process.allocations, b.ptr ≠ ptr := by
  have hlt := (List.getElem?_eq_some_iff.mp hi).1
  constructor
  · intro heq
    have hall : (process.allocations.set i ⟨ptr, size⟩).map
        (fun a => if a.ptr = ptr then ⟨0, 0⟩ else a) = process.allocations :=
      congrArg Process.allocations heq
    have hget : ∀ j : ℕ, ((process.allocations.set i ⟨ptr, size⟩).map
        (fun a => if a.ptr = ptr then ⟨0, 0⟩ else a))[j]? = process.allocations[j]? := by
      rw [hall]
      exact fun _ => rfl
    constructor
    · have hself := hget i
      rw [List.getElem?_map, List.getElem?_set_self hlt, hi, Option.map_some, if_pos rfl] at hself
      rw [← Option.some.inj hself]
    · intro b hb hbptr
      rcases List.mem_iff_getElem?.mp hb with ⟨j, hj⟩
      have hne : i ≠ j := by
        rintro rfl
        rw [hi] at hj
        rw [← Option.some.inj hj, h0] at hbptr
        exact hptr hbptr.symm
      have hother := hget j
      rw [List.getElem?_map, List.getElem?_set_ne hne, hj, Option.map_some, if_pos hbptr] at hother
      rw [← Option.some.inj hother] at hbptr
      exact hptr hbptr.symm
  · rintro ⟨hsize, hno⟩
    have hclear : (⟨0, 0⟩ : ProcessAllocation) = a := by
      rcases a with ⟨p, n⟩
      rw [show p = 0 from h0, show n = 0 from hsize]
    have hmap : (process.allocations.map fun a => if a.ptr = ptr then ⟨0, 0⟩ else a) =
        process.allocations :=
      congrArg Process.allocations (processAllocationUnjoin_eq_self.mpr
        fun b hb hbptr => absurd hbptr (hno b hb))
    have hset : process.allocations.set i a = process.allocations := by
      rw [← (List.getElem?_eq_some_iff.mp hi).2, List.set_getElem_self]
    rw [← hclear] at hset
    rw [processAllocationUnjoin]
    simp only [List.map_set, if_true, hmap, hset]

/-- The table after `process_free` is the old one, or the one without the pointer. -/
lemma processFree_fst : (processFree process ptr k).1 = process ∨
    (processFree process ptr k).1 = processAllocationUnjoin process ptr := by
  rw [processFree]
  cases processGetAllocationByAddr process ptr with
  | none => exact Or.inl rfl
  | some a =>
    simp only
    split
    · exact Or.inl rfl
    · exact Or.inr rfl

/-- A pointer that no other slot has is found. -/
lemma processGetAllocationByAddr_record {i : ℕ} {a : ProcessAllocation}
    (hi : process.allocations[i]? = some a) (hno : ∀ b ∈ process.allocations, b.ptr ≠ ptr) :
    processGetAllocationByAddr
      { process with allocations := process.allocations.set i ⟨ptr, size⟩ } ptr =
        some ⟨ptr, size⟩ := by
  have hlt := (List.getElem?_eq_some_iff.mp hi).1
  have hmem : (⟨ptr, size⟩ : ProcessAllocation) ∈ process.allocations.set i ⟨ptr, size⟩ :=
    List.mem_of_getElem? (List.getElem?_set_self hlt)
  refine @processGetAllocationByAddr_eq _ ⟨ptr, size⟩ hmem fun b hb hbptr => ?_
  rcases List.mem_or_eq_of_mem_set hb with hold | hnew
  · exact absurd hbptr (hno b hold)
  · exact hnew

/-! ### The pages -/

/-- The owner of an address space: the process, whose directory has these tables, and the heap, in
which they are live. -/
structure OwnsSpace (process : Process) (k : Kernel) (live : List Alloc) (tables : List ℕ) :
    Prop where
  heap : HeapOwns k.machine.heap.heap live
  space : AddressSpace k.machine.mem (k.pageDirectory process).directoryEntry tables
  directory : ⟨(k.pageDirectory process).directoryEntry, 4096⟩ ∈ live
  tables : ∀ a ∈ pageAllocs tables, a ∈ live

/-- Clearing new blocks leaves the address space alone. -/
lemma OwnsSpace.sameOn {mem : Mem} (h : OwnsSpace process k live tables)
    (hsame : SameOn live k.machine.mem mem) :
    AddressSpace mem (k.pageDirectory process).directoryEntry tables ∧
      ∀ p < 2 ^ 20, pageAt mem (k.pageDirectory process).directoryEntry p =
        pageAt k.machine.mem (k.pageDirectory process).directoryEntry p := by
  have hspace := h.space.sameOn hsame h.directory
  refine ⟨hspace, fun p hp => h.space.pageAt_congr hspace (fun x hx => ?_) hp⟩
  rcases hx with ⟨t, ht, h₀, h₁⟩
  exact hsame ⟨t, 4096⟩ (h.tables _ (List.mem_map.mpr ⟨t, ht, rfl⟩)) x (page_covers.mpr ⟨h₀, h₁⟩)

/-- A flag that is set stays set beside an address. -/
lemma or_and_ne_zero {x flags flag : ℕ} (h : flags &&& flag ≠ 0) : (x ||| flags) &&& flag ≠ 0 := by
  have hle : flags &&& flag ≤ (x ||| flags) &&& flag := by
    rw [Nat.and_or_distrib_right]
    exact Nat.right_le_or
  omega

/-- Pages that are mapped to themselves with all access. -/
lemma mapped_self {mem : Mem} {directory : ℕ} (haligned : ptr % 4096 = 0)
    (hend : ptr + 4096 * blocksFor size < 2 ^ 32)
    (hpages : ∀ p, OwnPage ptr size p → pageAt mem directory p = 4096 * p ||| 7) :
    ∀ v, ptr ≤ v → v < ptr + 4096 * blocksFor size →
      pagingGetPhysicalAddress mem directory v = v ∧
        UserWritable (pageEntry mem directory v) := by
  intro v h₀ h₁
  have hentry := hpages (v / 4096) ⟨by omega, by omega⟩
  rw [pagingGetPhysicalAddress_eq, translate, pageEntry_eq_pageAt, hentry]
  constructor
  · rw [entryAddress_or (by omega) (by omega) (by decide)]
    omega
  · exact ⟨or_and_ne_zero (by decide), or_and_ne_zero (by decide), or_and_ne_zero (by decide)⟩

/-- A request that some run of free blocks is large enough for, by a process with an unused slot:
the pointer is the first such run's, slot `i` records it, and freeing it undoes the call if no other
slot has it and the slot was clear. -/
structure Granted (process : Process) (size : ℕ) (k : Kernel) (ptr i : ℕ) (a : ProcessAllocation)
    (k' : Kernel) : Prop where
  ptr_eq : ptr = heapBlockToAddress k.machine.heap.heap
    (heapGetStartBlock k.machine.heap.heap (blocksFor size))
  ptr_ne : ptr ≠ 0
  slot : process.allocations[i]? = some a
  unused : a.ptr = 0
  index : processFindFreeAllocationIndex process = i
  malloc : processMalloc process size k = .ok (ptr,
    { process with allocations := process.allocations.set i ⟨ptr, size⟩ }, k')
  malloced : Malloced process k size ptr
    { process with allocations := process.allocations.set i ⟨ptr, size⟩ } k'
  undone : a.size = 0 → (∀ c ∈ process.allocations, c.ptr ≠ ptr) →
    Undone process k size ptr
      (processFree { process with allocations := process.allocations.set i ⟨ptr, size⟩ } ptr k').1
      (processFree { process with allocations := process.allocations.set i ⟨ptr, size⟩ } ptr k').2

/-- The answer to a request that some run of free blocks is large enough for: the first such run,
cleared. -/
structure Cleared (m : Machine KernelHeap) (live : List Alloc) (size ptr : ℕ)
    (m' : Machine KernelHeap) : Prop where
  answer : kzalloc kernelAllocator size m = .ok (ptr, m')
  ptr_eq : ptr = heapBlockToAddress m.heap.heap (heapGetStartBlock m.heap.heap (blocksFor size))
  ptr_ne : ptr ≠ 0
  aligned : ptr % 4096 = 0
  fits : ptr + 4096 * blocksFor size < 2 ^ 32
  pool : SamePool m.heap.heap m'.heap.heap
  owns : HeapOwns m'.heap.heap (⟨ptr, size⟩ :: live)
  outside : ∀ x, ¬ (⟨ptr, size⟩ : Alloc).Covers x → m'.mem x = m.mem x
  undo : heapFree m'.heap.heap ptr = m.heap.heap

lemma HeapOwns.kzalloc_cleared {m : Machine KernelHeap} (h : HeapOwns m.heap.heap live)
    (hsize : 1 ≤ size) (hrun : HasFreeRun m.heap.heap.table (blocksFor size)) :
    ∃ ptr m', Cleared m live size ptr m' := by
  have hpool := h.pool
  obtain ⟨b, hb, hstart, hkz⟩ := kzalloc_run hpool hsize (hpool.size_le hrun) hrun
  have hfit := hb.1
  have hblocks := blocksFor_pos hsize
  have hsaddr := hpool.pos
  have haligned := hpool.aligned
  have hfits := hpool.fits
  have hlt : b < m.heap.heap.table.total := by omega
  refine ⟨_, _, hkz, ?_, by omega, by omega, by omega, heapMarkBlocksTaken_samePool _ _ _,
    h.take hsize hlt fun j h₀ _ h₂ => hb.2 j h₀ h₂, fun x hx => ?_, h.heapFree_take hsize hb⟩
  · rw [hstart, hpool.heapBlockToAddress_eq hlt]
  · apply fill_of_outside
    by_contra hin
    exact hx (Alloc.covers_of_lt (by omega) (by omega))

/-- What `process_malloc` does when some run of free blocks is large enough. -/
lemma OwnsSpace.processMalloc_cases (h : OwnsSpace process k live tables) (hsize : 1 ≤ size)
    (hrun : HasFreeRun k.machine.heap.heap.table (blocksFor size)) :
    (HasFreeSlot process → ∃ ptr i a k', Granted process size k ptr i a k') ∧
    (¬ HasFreeSlot process → ∃ k', processMalloc process size k = .ok (0, process, k') ∧
      Refused process k process k') := by
  obtain ⟨ptr, m, hcleared⟩ := h.heap.kzalloc_cleared hsize hrun
  have hptr := hcleared.ptr_ne
  have hptrMod := hcleared.aligned
  have hend := hcleared.fits
  rcases h.sameOn (hcleared.owns.sameOn_of_head hcleared.outside) with ⟨hspace, hpages⟩
  constructor
  · intro hslot
    obtain ⟨i, a, hi, h0, hindex, hmalloc⟩ :=
      processMalloc_of_free hcleared.answer hptr hslot hptrMod hend
    -- the pages of the pointer are mapped to themselves
    have hspace₂ : AddressSpace (pagingMapTo (k.pageDirectory process) ptr ptr
        (ptr + 4096 * blocksFor size) 7 m.mem).2 (k.pageDirectory process).directoryEntry tables :=
      hspace.pagingMapTo rfl (by omega)
    have hpages₂ := fun p => @AddressSpace.pagingMapTo_self m.mem _ p ptr 7 (blocksFor size) tables
      (k.pageDirectory process) hspace rfl (by decide) hptrMod hend
    generalize (pagingMapTo (k.pageDirectory process) ptr ptr (ptr + 4096 * blocksFor size) 7
      m.mem).2 = mem₂ at hmalloc hspace₂ hpages₂
    have hown : ∀ p, OwnPage ptr size p → p < 2 ^ 20 := by
      intro p hp
      unfold OwnPage at hp
      omega
    have hothers : ∀ p < 2 ^ 20, ¬ OwnPage ptr size p →
        pageAt mem₂ (k.pageDirectory process).directoryEntry p =
          pageAt k.machine.mem (k.pageDirectory process).directoryEntry p :=
      fun p hp hno => ((hpages₂ p hp).trans (if_neg hno)).trans (hpages p hp)
    refine ⟨ptr, i, a, _, hcleared.ptr_eq, hptr, hi, h0, hindex, hmalloc,
      ⟨⟨i, a, hi, h0, rfl⟩, ?_, hothers⟩, fun hclean hno => ?_⟩
    · exact mapped_self hptrMod hend fun p hp => (hpages₂ p (hown p hp)).trans (if_pos hp)
    · -- `process_free` finds the slot again, and unmaps the same pages
      have hget := @processGetAllocationByAddr_record process ptr size i a hi hno
      have hpages₃ := fun p => @AddressSpace.pagingMapTo_self mem₂ _ p ptr 0 (blocksFor size)
        tables (k.pageDirectory process) hspace₂ rfl (by decide) hptrMod hend
      rw [processFree_eq hget hptrMod hend]
      refine ⟨(unjoin_record hptr hi h0).mpr ⟨hclean, hno⟩, hcleared.undo, fun p hp hin => ?_,
        fun p hp hout => ?_⟩
      · have hentry := (hpages₃ p hp).trans (if_pos hin)
        have hodd : (4096 * p ||| 0) &&& pagingIsPresent = 0 := by
          rw [Nat.or_zero, Nat.and_one_is_mod]
          omega
        exact (congrArg (· &&& pagingIsPresent) hentry).trans hodd
      · exact ((hpages₃ p hp).trans (if_neg hout)).trans (hothers p hp hout)
  · -- the blocks go back
    intro hslot
    exact ⟨_, processMalloc_of_full hcleared.answer hptr hslot, rfl, hcleared.undo, hpages⟩

/-- The table is restored only if the slot was clear and no other slot has the pointer. -/
lemma Granted.clean {ptr i : ℕ} {a : ProcessAllocation} {k' : Kernel}
    (h : Granted process size k ptr i a k')
    (hrestored : (processFree
      { process with allocations := process.allocations.set i ⟨ptr, size⟩ } ptr k').1 = process) :
    a.size = 0 ∧ ∀ c ∈ process.allocations, c.ptr ≠ ptr := by
  rcases processFree_fst with hsame | hunjoin
  · -- the slot would still record the pointer
    have hset : process.allocations.set i ⟨ptr, size⟩ = process.allocations :=
      congrArg Process.allocations (hsame.symm.trans hrestored)
    have hself := List.getElem?_set_self (List.getElem?_eq_some_iff.mp h.slot).1
      (a := (⟨ptr, size⟩ : ProcessAllocation))
    rw [hset, h.slot] at hself
    have hunused := h.unused
    rw [Option.some.inj hself] at hunused
    exact absurd hunused h.ptr_ne
  · exact (unjoin_record h.ptr_ne h.slot h.unused).mp (hunjoin.symm.trans hrestored)

/-- A call that does all or nothing meets the condition. -/
lemma MallocAllOrNothing.undoable (hall : MallocAllOrNothing process size k)
    (h : OwnsSpace process k live tables) (hsize : 1 ≤ size)
    (hrun : HasFreeRun k.machine.heap.heap.table (blocksFor size)) :
    Undoable process size k.machine.heap.heap := by
  intro hslot
  obtain ⟨ptr, i, a, k', hgranted⟩ := (h.processMalloc_cases hsize hrun).1 hslot
  rcases hall with ⟨ptr', process', k'', heq, hcase⟩
  rw [hgranted.malloc] at heq
  rcases ok_triple_inj heq with ⟨rfl, rfl, rfl⟩
  rcases hcase with ⟨-, -, hundone⟩ | ⟨hnull, -⟩
  · have hclean := hgranted.clean hundone.restored
    rw [← hgranted.ptr_eq]
    refine ⟨fun j c hj hc => ?_, hclean.2⟩
    have hij : i = j := by
      rw [hgranted.index] at hj
      exact Int.ofNat.inj hj
    rw [← hij, hgranted.slot] at hc
    rw [← Option.some.inj hc]
    exact hclean.1
  · exact absurd hnull hgranted.ptr_ne

/-- **All or nothing.** A request that some run of free blocks is large enough for is granted whole
and can be undone, or is refused without a trace, exactly when `Undoable` holds. -/
theorem mallocAllOrNothing_iff (process : Process) (size : ℕ) (k : Kernel)
    (h : OwnsSpace process k live tables) (hsize : 1 ≤ size)
    (hrun : HasFreeRun k.machine.heap.heap.table (blocksFor size)) :
    MallocAllOrNothing process size k ↔ Undoable process size k.machine.heap.heap := by
  refine ⟨fun hall => hall.undoable h hsize hrun, fun hundo => ?_⟩
  rcases h.processMalloc_cases hsize hrun with ⟨hgrant, hrefuse⟩
  by_cases hslot : HasFreeSlot process
  · obtain ⟨ptr, i, a, k', hgranted⟩ := hgrant hslot
    rcases hundo hslot with ⟨hclear, hno⟩
    rw [← hgranted.ptr_eq] at hno
    exact ⟨ptr, _, k', hgranted.malloc, Or.inl ⟨hgranted.ptr_ne, hgranted.malloced,
      hgranted.undone (hclear i a hgranted.index hgranted.slot) hno⟩⟩
  · obtain ⟨k', hmalloc, hrefused⟩ := hrefuse hslot
    exact ⟨0, process, k', hmalloc, Or.inr ⟨rfl, hrefused⟩⟩

/-! ### A kernel with one address space -/

/-- A kernel whose tasks all have the page directory `chunk`. -/
def oneSpaceKernel (m : Machine KernelHeap) (chunk : Paging4gbChunk) : Kernel where
  machine := m
  tasks := ⟨0, 0, 0, fun _ => ⟨chunk, {}, 0, 0, 0⟩⟩
  fileBlocks := []
  processes := []

/-- The heap of `kheap_init` is one run of free blocks. -/
lemma bootMachine_freeTail : FreeTail 25600 bootMachine.heap.heap := by
  have htotal : bootMachine.heap.heap.table.total = 25600 := kheapInit_total _
  refine ⟨bootMachine_owns.pool, htotal.ge, fun i hi => iff_of_true ?_ (by omega)⟩
  rw [BlockFree, bootMachine_owns.free i hi fun a ha => absurd ha List.not_mem_nil]
  rfl

/-- The first address space, made by `paging_new_4gb`. -/
lemma exists_oneSpaceKernel : ∃ m chunk live tables,
    (∀ process, OwnsSpace process (oneSpaceKernel m chunk) live tables) ∧
      FreeTail 24574 m.heap.heap := by
  obtain ⟨chunk, m, hnew, htail⟩ :=
    @pagingNew4gb_progress 7 24574 _ serves_freeTail bootMachine bootMachine_freeTail
  obtain ⟨tables, hown, -, -, hspace, -⟩ := pagingNew4gb_owns bootMachine_owns (by decide) hnew
  refine ⟨m, chunk, _, tables, fun process => ⟨hown, hspace, ?_, fun a ha => ?_⟩, htail⟩
  · exact List.mem_append_left _ (directory_mem chunk tables)
  · exact List.mem_append_left _ (List.mem_cons_of_mem _ (List.mem_append_left _ ha))

/-- A request of a process without allocations. -/
theorem mallocAllOrNothing_oneSpaceKernel : ∃ m chunk,
    MallocAllOrNothing (processInit 12288) 100 (oneSpaceKernel m chunk) := by
  obtain ⟨m, chunk, live, tables, hown, htail⟩ := exists_oneSpaceKernel
  have hsaddr := htail.1.pos
  refine ⟨m, chunk, (mallocAllOrNothing_iff _ 100 _ (hown _) (by decide)
    (hasFreeRun_one htail.freeBlocks_pos)).mpr fun _ => ⟨fun i a _ ha => ?_, fun a ha => ?_⟩⟩
  · rw [List.eq_of_mem_replicate (List.mem_of_getElem? ha)]
  · rw [List.eq_of_mem_replicate ha]
    have haddr : heapBlockToAddress m.heap.heap (heapGetStartBlock m.heap.heap (blocksFor 100)) =
        m.heap.heap.saddr + 4096 * (m.heap.heap.table.total - 24574) := htail.startAddress
    intro hnull
    have hzero : 0 = heapBlockToAddress m.heap.heap
      (heapGetStartBlock m.heap.heap (blocksFor 100)) := hnull
    omega

/-- After a request for zero bytes the table records the pointer that the next request gets; freeing
that one clears both slots. -/
theorem mallocAllOrNothing_afterZero : ∃ m chunk live tables ptr process,
    OwnsSpace process (oneSpaceKernel m chunk) live tables ∧
    processMalloc (processInit 12288) 0 (oneSpaceKernel m chunk) =
      .ok (ptr, process, oneSpaceKernel m chunk) ∧
    HasFreeRun m.heap.heap.table (blocksFor 1) ∧
    ¬ MallocAllOrNothing process 1 (oneSpaceKernel m chunk) := by
  obtain ⟨m, chunk, live, tables, hown, htail⟩ := exists_oneSpaceKernel
  have hsaddr := htail.1.pos
  have haligned := htail.1.aligned
  have hfits := htail.1.fits
  have hle := htail.2.1
  have haddr : heapBlockToAddress m.heap.heap (heapGetStartBlock m.heap.heap (blocksFor 1)) =
      m.heap.heap.saddr + 4096 * (m.heap.heap.table.total - 24574) := htail.startAddress
  have hzero := htail.heapMalloc_zero
  generalize hptr : m.heap.heap.saddr + 4096 * (m.heap.heap.table.total - (24573 + 1)) = ptr
    at hzero
  have hslot : HasFreeSlot (processInit 12288) :=
    ⟨⟨0, 0⟩, List.mem_replicate.mpr ⟨by decide, rfl⟩, rfl⟩
  have hkz : kzalloc kernelAllocator 0 (oneSpaceKernel m chunk).machine = .ok (ptr, m) :=
    kzalloc_zero rfl (by omega) (by omega) hzero
  obtain ⟨i, a, hi, -, -, hmalloc⟩ := processMalloc_of_free hkz (by omega) hslot (by omega)
    (show ptr + 4096 * 0 < 2 ^ 32 by omega)
  have hnoPage : (pagingMapTo ((oneSpaceKernel m chunk).pageDirectory (processInit 12288)) ptr ptr
      (ptr + 4096 * blocksFor 0) 7 m.mem).2 = m.mem := by
    rw [show blocksFor 0 = 0 from rfl, Nat.mul_zero, Nat.add_zero,
      pagingMapTo_eq (by omega) (by omega) (by omega) le_rfl, Nat.sub_self]
    rfl
  rw [hnoPage] at hmalloc
  have hrun : HasFreeRun m.heap.heap.table (blocksFor 1) := hasFreeRun_one htail.freeBlocks_pos
  refine ⟨m, chunk, live, tables, ptr, _, hown _, hmalloc, hrun, fun hall => ?_⟩
  have hlt := (List.getElem?_eq_some_iff.mp hi).1
  have hlength : (processInit 12288).allocations.length = 1024 := List.length_replicate
  -- another slot is unused still
  obtain ⟨j, hj, hne⟩ : ∃ j < 1024, i ≠ j := by
    by_cases h0 : i = 0
    · exact ⟨1, by omega, by omega⟩
    · exact ⟨0, by omega, h0⟩
  have hother : ((processInit 12288).allocations.set i ⟨ptr, 0⟩)[j]? = some ⟨0, 0⟩ := by
    rw [List.getElem?_set_ne hne, processInit, List.getElem?_replicate, if_pos hj]
  have hundo := hall.undoable (hown _) (le_refl 1) hrun
  have hno := (hundo ⟨⟨0, 0⟩, List.mem_of_getElem? hother, rfl⟩).2 ⟨ptr, 0⟩
    (List.mem_of_getElem? (List.getElem?_set_self hlt))
  apply hno
  show ptr = heapBlockToAddress m.heap.heap (heapGetStartBlock m.heap.heap (blocksFor 1))
  rw [haddr, ← hptr]

end MarrowOS
