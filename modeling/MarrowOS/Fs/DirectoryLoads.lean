import MarrowOS.Fs.PathResolution
import MarrowOS.Memory.FreshAddressSpace

/-!
# Loading a directory

`fat16_load_fat_directory` has one exit. `LoadOutcome` says which ways lead there, and what is
allocated and freed on each. Whatever fails, the blocks are free again, but the exit returns the
pointer to the structure even when it was freed: a failure is a null pointer only for an item that
is no subdirectory, and for a structure that was not allocated (`cleanFailure_iff`).
-/

namespace MarrowOS

open CInt Fallible

variable {σ : Type} {A : Allocator σ} {disk : Disk} {item : FatDirectoryItem}
  {res : ℤ} {ptr : Addr} {directory : FatDirectory}

/-! ## The status at the exit -/

/-- A structure that `kzalloc` returned. -/
def clearedDirectory : FatDirectory := ⟨0, [], 0, 0, 0⟩

/-- The size of the array for `total` entries, of type `int`. -/
def fat16DirectorySize (total : ℤ) : ℤ := i32 (u32 (total * sizeofFatDirectoryItem))

/-- The array for entries that fill less than `2 ^ 31` bytes. -/
lemma fat16DirectorySize_eq {t : ℕ} (h : 32 * t < 2 ^ 31) :
    fat16DirectorySize t = (32 * t : ℕ) := by
  unfold fat16DirectorySize
  simp only [sizeofFatDirectoryItem]
  rw [u32_of_lt (by omega) (by omega), i32_of_lt (by omega) (by omega)]
  omega

/-- The count that `fat16_load_fat_directory` makes. -/
def fat16CountEntries (disk : Disk) (item : FatDirectoryItem) : Except Fault ℤ := do
  let clusterSector ← fat16ClusterToSector disk.fsPrivate (i32 (fat16GetFirstCluster item))
  fat16GetTotalItemsForDirectory disk (u32 clusterSector)

/-- The read that `fat16_load_fat_directory` makes. -/
def fat16ReadEntries (disk : Disk) (item : FatDirectoryItem) (total : ℤ) :
    Except Fault (ℤ × List UInt8) :=
  fat16ReadInternal disk (i32 (fat16GetFirstCluster item)) 0 (fat16DirectorySize total)

/-- `fat16_load_fat_directory`, with the status at its exit. -/
def fat16LoadFatDirectoryStatus (A : Allocator σ) (disk : Disk) (item : FatDirectoryItem)
    (s : σ) : Except Fault ((ℤ × Addr × FatDirectory) × σ) := do
  if item.attribute &&& fatFileSubdirectory = 0 then
    return ((-einvarg, 0, clearedDirectory), s)
  else
    let (ptr, s) := A.kmalloc sizeofFatDirectory s
    if ptr = 0 then
      return ((-enomem, 0, clearedDirectory), s)
    else
      let totalItems ← fat16CountEntries disk item
      let (itemPtr, s) := A.kmalloc (u32 (fat16DirectorySize totalItems)) s
      if itemPtr = 0 then
        let directory := { clearedDirectory with total := totalItems }
        return ((-enomem, ptr, directory), fat16FreeDirectory A ptr directory s)
      else
        let (res, out) ← fat16ReadEntries disk item totalItems
        let directory : FatDirectory :=
          { clearedDirectory with
            item := itemPtr
            entries := fatDirectoryItemsOf out totalItems.toNat
            total := totalItems }
        if res ≠ 0 then
          return ((res, ptr, directory), fat16FreeDirectory A ptr directory s)
        else
          return ((0, ptr, directory), s)

/-- Forgetting the status gives the function. -/
theorem fat16LoadFatDirectoryStatus_snd (s : σ) :
    (fat16LoadFatDirectoryStatus A disk item s).map (fun r => (r.1.2, r.2)) =
      fat16LoadFatDirectory A disk item s := by
  unfold fat16LoadFatDirectoryStatus fat16LoadFatDirectory fat16CountEntries fat16ReadEntries
    fat16DirectorySize
  by_cases hsub : item.attribute &&& fatFileSubdirectory = 0
  · rw [if_pos hsub, if_pos hsub]
    rfl
  rw [if_neg hsub, if_neg hsub]
  by_cases hptr : (A.kmalloc sizeofFatDirectory s).1 = 0
  · simp only [if_pos hptr]
    rfl
  simp only [if_neg hptr, bind_assoc]
  cases fat16ClusterToSector disk.fsPrivate (i32 (fat16GetFirstCluster item)) with
  | error fault => rfl
  | ok clusterSector =>
    rw [ok_bind, ok_bind]
    cases fat16GetTotalItemsForDirectory disk (u32 clusterSector) with
    | error fault => rfl
    | ok total =>
      rw [ok_bind, ok_bind]
      by_cases harray : (A.kmalloc (u32 (i32 (u32 (total * sizeofFatDirectoryItem))))
          (A.kmalloc sizeofFatDirectory s).2).1 = 0
      · simp only [if_pos harray]
        rfl
      simp only [if_neg harray]
      cases fat16ReadInternal disk (i32 (fat16GetFirstCluster item)) 0
        (i32 (u32 (total * sizeofFatDirectoryItem))) with
      | error fault => rfl
      | ok read =>
        rw [ok_bind, ok_bind]
        by_cases hres : read.1 ≠ 0
        · rw [if_pos hres, if_pos hres]
          rfl
        · rw [if_neg hres, if_neg hres]
          rfl

/-! ## The ways to the exit -/

/-- The ways of a load, from the state `s`: the status, the pointer with what it points to, and the
state at the exit. -/
inductive LoadOutcome (A : Allocator σ) (disk : Disk) (item : FatDirectoryItem) (s : σ) :
    ℤ → Addr → FatDirectory → σ → Prop
  | notSubdirectory (hsub : ¬ IsSubdirectory item) :
    LoadOutcome A disk item s (-einvarg) 0 clearedDirectory s
  | noStructure {s₁ : σ} (hsub : IsSubdirectory item)
    (hptr : A.kmalloc sizeofFatDirectory s = (0, s₁)) :
    LoadOutcome A disk item s (-enomem) 0 clearedDirectory s₁
  | noArray {s₁ s₂ : σ} {ptr : Addr} {total : ℤ} (hsub : IsSubdirectory item)
    (hptr : A.kmalloc sizeofFatDirectory s = (ptr, s₁)) (hne : ptr ≠ 0)
    (hcount : fat16CountEntries disk item = .ok total)
    (harray : A.kmalloc (u32 (fat16DirectorySize total)) s₁ = (0, s₂)) :
    LoadOutcome A disk item s (-enomem) ptr { clearedDirectory with total } (A.kfree ptr s₂)
  | unread {s₁ s₂ : σ} {ptr array : Addr} {total res : ℤ} {out : List UInt8}
    (hsub : IsSubdirectory item)
    (hptr : A.kmalloc sizeofFatDirectory s = (ptr, s₁)) (hne : ptr ≠ 0)
    (hcount : fat16CountEntries disk item = .ok total)
    (harray : A.kmalloc (u32 (fat16DirectorySize total)) s₁ = (array, s₂)) (hne' : array ≠ 0)
    (hread : fat16ReadEntries disk item total = .ok (res, out)) (hres : res ≠ 0) :
    LoadOutcome A disk item s res ptr
      ⟨array, fatDirectoryItemsOf out total.toNat, total, 0, 0⟩ (A.kfree ptr (A.kfree array s₂))
  | loaded {s₁ s₂ : σ} {ptr array : Addr} {total : ℤ} {out : List UInt8}
    (hsub : IsSubdirectory item)
    (hptr : A.kmalloc sizeofFatDirectory s = (ptr, s₁)) (hne : ptr ≠ 0)
    (hcount : fat16CountEntries disk item = .ok total)
    (harray : A.kmalloc (u32 (fat16DirectorySize total)) s₁ = (array, s₂)) (hne' : array ≠ 0)
    (hread : fat16ReadEntries disk item total = .ok (0, out)) :
    LoadOutcome A disk item s 0 ptr ⟨array, fatDirectoryItemsOf out total.toNat, total, 0, 0⟩ s₂

/-- A load goes one of the ways. -/
theorem fat16LoadFatDirectoryStatus_outcome {s s' : σ}
    (h : fat16LoadFatDirectoryStatus A disk item s = .ok ((res, ptr, directory), s')) :
    LoadOutcome A disk item s res ptr directory s' := by
  unfold fat16LoadFatDirectoryStatus at h
  by_cases hsub : item.attribute &&& fatFileSubdirectory = 0
  · rw [if_pos hsub] at h
    cases Except.ok.inj h
    exact .notSubdirectory (not_not.mpr hsub)
  rw [if_neg hsub] at h
  by_cases hne : (A.kmalloc sizeofFatDirectory s).1 = 0
  · cases Except.ok.inj ((if_pos hne).symm.trans h)
    exact .noStructure hsub (Prod.ext hne rfl)
  rcases bind_eq_ok.mp ((if_neg hne).symm.trans h) with ⟨total, hcount, h⟩
  by_cases hne' : (A.kmalloc (u32 (fat16DirectorySize total))
      (A.kmalloc sizeofFatDirectory s).2).1 = 0
  · have hret := (if_pos hne').symm.trans h
    unfold fat16FreeDirectory at hret
    simp only [if_neg hne] at hret
    cases Except.ok.inj hret
    exact .noArray hsub rfl hne hcount (Prod.ext hne' rfl)
  rcases bind_eq_ok.mp ((if_neg hne').symm.trans h) with ⟨⟨r, out⟩, hread, h⟩
  by_cases hres : r ≠ 0
  · have hret := (if_pos hres).symm.trans h
    unfold fat16FreeDirectory at hret
    simp only [if_neg hne, if_pos hne'] at hret
    cases Except.ok.inj hret
    exact .unread hsub rfl hne hcount rfl hne' hread hres
  · cases Except.ok.inj ((if_neg hres).symm.trans h)
    rw [not_not.mp hres] at hread
    exact .loaded hsub rfl hne hcount rfl hne' hread

/-- A load whose requests are granted and whose entries are read succeeds. -/
lemma fat16LoadFatDirectoryStatus_loaded {s s₁ s₂ : σ} {ptr array : Addr} {total : ℤ}
    {out : List UInt8} (hsub : IsSubdirectory item)
    (hptr : A.kmalloc sizeofFatDirectory s = (ptr, s₁)) (hne : ptr ≠ 0)
    (hcount : fat16CountEntries disk item = .ok total)
    (harray : A.kmalloc (u32 (fat16DirectorySize total)) s₁ = (array, s₂)) (hne' : array ≠ 0)
    (hread : fat16ReadEntries disk item total = .ok (0, out)) :
    fat16LoadFatDirectoryStatus A disk item s =
      .ok ((0, ptr, ⟨array, fatDirectoryItemsOf out total.toNat, total, 0, 0⟩), s₂) := by
  unfold fat16LoadFatDirectoryStatus
  rw [if_neg (show ¬ item.attribute &&& fatFileSubdirectory = 0 from hsub), hptr]
  simp only [if_neg hne]
  rw [hcount, ok_bind]
  simp only [harray, if_neg hne']
  rw [hread, ok_bind]
  exact if_neg (not_not.mpr rfl)

/-! ## The blocks of a load -/

variable {k k' : KernelHeap} {heap : Heap} {live : List Alloc} {size : ℕ}

lemma requestBlocks_directory (ptr : ℕ) :
    requestBlocks ptr sizeofFatDirectory = [⟨ptr, sizeofFatDirectory⟩] :=
  requestBlocks_of_pos (by norm_num) (by norm_num) ptr

/-- The blocks of a directory: its structure and its array. -/
def directoryBlocks (ptr : Addr) (directory : FatDirectory) : List Alloc :=
  requestBlocks directory.item (u32 (fat16DirectorySize directory.total)) ++
    [⟨ptr, sizeofFatDirectory⟩]

/-- The pointer to an array of no bytes is to a block nobody owns. -/
def EmptyArrayUnowned (heap : Heap) (live : List Alloc) (ptr : Addr) (directory : FatDirectory) :
    Prop :=
  heapTotalBlocks (u32 (fat16DirectorySize directory.total)) = 0 →
    Unowned heap (⟨ptr, sizeofFatDirectory⟩ :: live) directory.item

/-- What a load leaves taken: nothing when it fails, and the directory's blocks when it does not.
A pointer that is returned by a failed load points to a block that is free. -/
theorem LoadOutcome.owns (h : HeapOwns k.heap live)
    (hout : LoadOutcome kernelAllocator disk item k res ptr directory k') :
    SamePool k.heap k'.heap ∧
    (res ≠ 0 → HeapOwns k'.heap live ∧ (ptr ≠ 0 → Unowned k'.heap live ptr)) ∧
    (res = 0 → HeapOwns k'.heap (directoryBlocks ptr directory ++ live) ∧
      EmptyArrayUnowned k'.heap live ptr directory) := by
  cases hout with
  | notSubdirectory hsub =>
    exact ⟨SamePool.refl _, fun _ => ⟨h, fun hne => absurd rfl hne⟩,
      fun h0 => absurd h0 (by decide)⟩
  | noStructure hsub hptr =>
    have heq := h.kmalloc_refused (by decide) hptr
    rw [heq]
    exact ⟨SamePool.refl _, fun _ => ⟨h, fun hne => absurd rfl hne⟩,
      fun h0 => absurd h0 (by decide)⟩
  | noArray hsub hptr hne hcount harray =>
    have hstructure := h.kmalloc (by decide) hptr hne
    rw [requestBlocks_directory] at hstructure
    have heq := hstructure.1.kmalloc_refused (u32_lt _) harray
    have hown := hstructure.1
    rw [← heq] at hown
    have hsame := hstructure.2.1
    rw [← heq] at hsame
    have hfree := HeapOwns.heapFree_head hown
    refine ⟨hsame.trans (heapFree_samePool _ _), fun _ => ⟨hfree, fun _ => ?_⟩,
      fun h0 => absurd h0 (by decide)⟩
    exact (HeapOwns.unowned_head hown).samePool (heapFree_samePool _ _)
  | unread hsub hptr hne hcount harray hne' hread hres =>
    have hstructure := h.kmalloc (by decide) hptr hne
    rw [requestBlocks_directory] at hstructure
    have hentries := hstructure.1.kmalloc (u32_lt _) harray hne'
    have hown := HeapOwns.heapFree_request hentries.1 hentries.2.2
    have hfree := HeapOwns.heapFree_head hown
    refine ⟨(hstructure.2.1.trans hentries.2.1).trans
      ((heapFree_samePool _ _).trans (heapFree_samePool _ _)),
      fun _ => ⟨hfree, fun _ => ?_⟩, fun h0 => absurd h0 hres⟩
    exact (HeapOwns.unowned_head hown).samePool (heapFree_samePool _ _)
  | loaded hsub hptr hne hcount harray hne' hread =>
    have hstructure := h.kmalloc (by decide) hptr hne
    rw [requestBlocks_directory] at hstructure
    have hentries := hstructure.1.kmalloc (u32_lt _) harray hne'
    refine ⟨hstructure.2.1.trans hentries.2.1, fun h0 => absurd rfl h0, fun _ => ⟨?_, hentries.2.2⟩⟩
    rw [directoryBlocks, List.append_assoc]
    exact hentries.1

/-! ## Loads that fail -/

/-- The block that the pointer points to is taken. -/
def TakenAt (heap : Heap) (ptr : Addr) : Prop :=
  heapGetEntryType (heap.table.entries (heapAddressToBlock heap ptr)) = heapBlockTableEntryTaken

/-- If the item holds a directory, that is null or a block that is taken. -/
def FatItem.HoldsTaken (heap : Heap) (item : FatItem) : Prop :=
  match item.payload with
  | .item _ _ => True
  | .directory ptr _ => ptr ≠ 0 → TakenAt heap ptr

/-- A load from `k` that failed returned null and freed what it had allocated, and the item for
which it was made holds no freed memory. -/
structure CleanFailure (disk : Disk) (item : FatDirectoryItem) (k : KernelHeap) (ptr : Addr)
    (k' : KernelHeap) : Prop where
  null : ptr = 0
  freed : SameTable k.heap k'.heap
  holder : ∀ k₀ addr, kernelAllocator.kmalloc sizeofFatItem k₀ = (addr, k) →
    ∀ fatItem k'', fat16NewFatItemForDirectoryItem kernelAllocator disk item k₀ =
      .ok (some fatItem, k'') → fatItem.HoldsTaken k''.heap

lemma Unowned.not_takenAt (h : HeapOwns heap live) (hun : Unowned heap live ptr) :
    ¬ TakenAt heap ptr := by
  rcases hun with ⟨i, hi, hptr, hno⟩
  have htotal := h.pool.total_lt
  unfold TakenAt
  rw [hptr, ← h.pool.heapBlockToAddress_eq hi,
    heapAddressToBlock_heapBlockToAddress heap (by omega), h.free i hi hno]
  decide

/-- The item for a subdirectory holds what the load returned. -/
lemma fat16NewFatItem_subdirectory {s₀ s s' : σ} {addr : Addr} (hsub : IsSubdirectory item)
    (halloc : A.kmalloc sizeofFatItem s₀ = (addr, s)) (hne : addr ≠ 0)
    (hload : fat16LoadFatDirectory A disk item s = .ok ((ptr, directory), s')) :
    fat16NewFatItemForDirectoryItem A disk item s₀ =
      .ok (some ⟨addr, .directory ptr directory⟩, s') := by
  unfold fat16NewFatItemForDirectoryItem
  rw [halloc]
  simp only [if_neg hne]
  rw [if_pos (show item.attribute &&& fatFileSubdirectory ≠ 0 from hsub), hload, ok_bind]
  rfl

/-- The item for a file holds a copy of the entry. -/
lemma fat16NewFatItem_file {s : σ} (hsub : ¬ IsSubdirectory item)
    (hne : (A.kmalloc sizeofFatItem s).1 ≠ 0) :
    fat16NewFatItemForDirectoryItem A disk item s =
      .ok (some ⟨(A.kmalloc sizeofFatItem s).1,
        .item (A.kmalloc sizeofFatDirectoryItem (A.kmalloc sizeofFatItem s).2).1 item⟩,
        (A.kmalloc sizeofFatDirectoryItem (A.kmalloc sizeofFatItem s).2).2) := by
  unfold fat16NewFatItemForDirectoryItem
  simp only [if_neg hne]
  exact if_neg hsub

lemma fat16LoadFatDirectory_of_status {s s' : σ}
    (h : fat16LoadFatDirectoryStatus A disk item s = .ok ((res, ptr, directory), s')) :
    fat16LoadFatDirectory A disk item s = .ok ((ptr, directory), s') := by
  rw [← fat16LoadFatDirectoryStatus_snd, h]
  rfl

/-- Whatever fails, nothing stays taken. -/
theorem fat16LoadFatDirectory_failed (h : HeapOwns k.heap live)
    (hload : fat16LoadFatDirectoryStatus kernelAllocator disk item k =
      .ok ((res, ptr, directory), k')) (hfail : res ≠ 0) : SameTable k.heap k'.heap := by
  rcases (fat16LoadFatDirectoryStatus_outcome hload).owns h with ⟨hpool, hfailed, -⟩
  exact h.sameTable (hfailed hfail).1 hpool

/-- A pointer that a failed load returns is to a block which is free. -/
theorem fat16LoadFatDirectory_dangling (h : HeapOwns k.heap live)
    (hload : fat16LoadFatDirectoryStatus kernelAllocator disk item k =
      .ok ((res, ptr, directory), k')) (hfail : res ≠ 0) (hne : ptr ≠ 0) :
    ¬ TakenAt k'.heap ptr := by
  rcases (fat16LoadFatDirectoryStatus_outcome hload).owns h with ⟨-, hfailed, -⟩
  exact Unowned.not_takenAt (hfailed hfail).1 ((hfailed hfail).2 hne)

/-- **Failed loads.** A load that fails is clean exactly for an item that is no subdirectory, and
when the structure was not allocated. -/
theorem cleanFailure_iff (h : HeapOwns k.heap live)
    (hload : fat16LoadFatDirectoryStatus kernelAllocator disk item k =
      .ok ((res, ptr, directory), k')) (hfail : res ≠ 0) :
    CleanFailure disk item k ptr k' ↔
      ¬ IsSubdirectory item ∨ (kernelAllocator.kmalloc sizeofFatDirectory k).1 = 0 := by
  have hout := fat16LoadFatDirectoryStatus_outcome hload
  have hnull : ptr = 0 ↔
      ¬ IsSubdirectory item ∨ (kernelAllocator.kmalloc sizeofFatDirectory k).1 = 0 := by
    cases hout with
    | notSubdirectory hsub => exact iff_of_true rfl (Or.inl hsub)
    | noStructure hsub hptr => exact iff_of_true rfl (Or.inr (by rw [hptr]))
    | noArray hsub hptr hne =>
      rw [hptr]
      exact iff_of_false hne (not_or_intro (not_not.mpr hsub) hne)
    | unread hsub hptr hne =>
      rw [hptr]
      exact iff_of_false hne (not_or_intro (not_not.mpr hsub) hne)
    | loaded => exact absurd rfl hfail
  rw [← hnull]
  constructor
  · exact CleanFailure.null
  intro h0
  refine ⟨h0, fat16LoadFatDirectory_failed h hload hfail, fun k₀ addr halloc fatItem k'' hnew => ?_⟩
  by_cases hne : addr = 0
  · unfold fat16NewFatItemForDirectoryItem at hnew
    rw [halloc] at hnew
    cases Except.ok.inj ((if_pos hne).symm.trans hnew)
  by_cases hsub : IsSubdirectory item
  · have hdirectory := fat16LoadFatDirectory_of_status hload
    rw [fat16NewFatItem_subdirectory hsub halloc hne hdirectory] at hnew
    cases Except.ok.inj hnew
    exact fun hptr => absurd h0 hptr
  · unfold fat16NewFatItemForDirectoryItem at hnew
    rw [halloc] at hnew
    simp only [if_neg hne] at hnew
    cases Except.ok.inj ((if_neg hsub).symm.trans hnew)
    exact trivial

/-! ## A damaged chain -/

/-- A volume with a directory of 17 entries at cluster 2, to which the table gives one cluster of 16
entries. -/
def damagedDisk : Disk where
  device.sector lba i := if lba = 3 ∨ (lba = 4 ∧ i < 32) then 0x41 else if lba = 1 then 0xFF else 0
  fsPrivate :=
    { header := ⟨1, 1, 1, 16, 1⟩
      rootDirectory := ⟨4096, [emptyDirectoryEntry], 1, 2, 3⟩ }

/-- The read of the 17th entry goes behind the chain, and the structure that is returned has been
freed. -/
theorem not_cleanFailure_damaged :
    ¬ ∀ (disk : Disk) (item : FatDirectoryItem) (k : KernelHeap) (live : List Alloc) (res : ℤ)
      (ptr : Addr) (directory : FatDirectory) (k' : KernelHeap), HeapOwns k.heap live →
      fat16LoadFatDirectoryStatus kernelAllocator disk item k = .ok ((res, ptr, directory), k') →
      res ≠ 0 → CleanFailure disk item k ptr k' := by
  intro h
  have hres : (fat16LoadFatDirectoryStatus kernelAllocator damagedDisk emptyDirectoryEntry
      bootMachine.heap).toOption.map (·.1.1) = some (-eio) := by decide +kernel
  rcases exists_ok_of_toOption_map hres with ⟨⟨⟨res, ptr, directory⟩, k'⟩, hload, heq⟩
  have hfail : res ≠ 0 := by
    rw [show res = -eio from heq]
    decide
  have hclean := h _ _ _ _ _ _ _ _ bootMachine_owns hload hfail
  rcases (cleanFailure_iff bootMachine_owns hload hfail).mp hclean with hsub | hptr
  · exact hsub (by decide)
  · have hne : (kernelAllocator.kmalloc sizeofFatDirectory bootMachine.heap).1 ≠ 0 := by
      decide +kernel
    exact hne hptr

/-- The entry of a file `A`. -/
def plainFileEntry : FatDirectoryItem :=
  ⟨.ofFn fun i => if i.val = 0 then 0x41 else 0x20, .replicate 3 0x20, 0x20, 0, 2, 100⟩

/-- A file is not loaded as a directory. -/
theorem cleanFailure_plainFile :
    CleanFailure damagedDisk plainFileEntry bootMachine.heap 0 bootMachine.heap := by
  have hload : fat16LoadFatDirectoryStatus kernelAllocator damagedDisk plainFileEntry
      bootMachine.heap = .ok ((-einvarg, 0, clearedDirectory), bootMachine.heap) := rfl
  exact (cleanFailure_iff bootMachine_owns hload (by decide)).mpr (Or.inl (by decide))

end MarrowOS
