import MarrowOS.Fs.DirectoryLoads
import MarrowOS.Fs.DirectoryScan

/-!
# The blocks of an item

A `fat_item` is built of two requests for a file and of three for a directory, and freeing it gives
them all back (`ItemOwned.free`). The array of a directory without entries is a request for no
bytes: the pointer to it is to a block that nobody owns.
-/

namespace MarrowOS

open CInt Fallible

/-- The blocks of an item. -/
def FatItem.blocks (item : FatItem) : List Alloc :=
  (match item.payload with
  | .item ptr _ => [⟨ptr, sizeofFatDirectoryItem⟩]
  | .directory ptr directory => directoryBlocks ptr directory) ++ [⟨item.addr, sizeofFatItem⟩]

/-- The array of a directory at `ptr`: there is one, its size is an `int`, and if it has no bytes
the pointer is to a block that nobody owns. -/
structure ArrayOwned (heap : Heap) (live : List Alloc) (ptr : Addr) (directory : FatDirectory) :
    Prop where
  array : directory.item ≠ 0
  nonneg : 0 ≤ directory.total
  bound : 32 * directory.total < 2 ^ 31
  empty : directory.total = 0 → Unowned heap (⟨ptr, sizeofFatDirectory⟩ :: live) directory.item

/-- The item's blocks are owned, besides the blocks of `live`. -/
structure ItemOwned (heap : Heap) (live : List Alloc) (item : FatItem) : Prop where
  owns : HeapOwns heap (item.blocks ++ live)
  array : ∀ ptr directory, item.payload = .directory ptr directory →
    ArrayOwned heap (⟨item.addr, sizeofFatItem⟩ :: live) ptr directory

variable {disk : Disk} {children : FatDirectoryItem → List FatDirectoryItem}
  {k k' : KernelHeap} {heap heap' : Heap} {live more : List Alloc} {item : FatItem}
  {e : FatDirectoryItem} {ptr : Addr} {directory : FatDirectory}

/-- A request for an array is rounded to no block only for a directory without entries. -/
lemma heapTotalBlocks_directory (hnonneg : 0 ≤ directory.total)
    (hbound : 32 * directory.total < 2 ^ 31) :
    heapTotalBlocks (u32 (fat16DirectorySize directory.total)) = 0 ↔ directory.total = 0 := by
  rcases Int.eq_ofNat_of_zero_le hnonneg with ⟨n, hn⟩
  rw [hn, fat16DirectorySize_eq (by omega), u32_natCast_of_lt (by omega),
    heapTotalBlocks_eq (by omega), blocksFor]
  omega

/-! ## Freeing -/

/-- Freeing a directory gives its blocks back. -/
lemma HeapOwns.free_directory (h : HeapOwns k.heap (directoryBlocks ptr directory ++ live))
    (harray : ArrayOwned k.heap live ptr directory) :
    HeapOwns (fat16FreeDirectory kernelAllocator ptr directory k).heap live ∧
      SamePool k.heap (fat16FreeDirectory kernelAllocator ptr directory k).heap := by
  have hmem : (⟨ptr, sizeofFatDirectory⟩ : Alloc) ∈ directoryBlocks ptr directory ++ live :=
    List.mem_append_left _ (List.mem_append_right _ (List.mem_singleton_self _))
  have hptr : ptr ≠ 0 := (h.ptr_pos hmem).ne'
  have hrequest : HeapOwns k.heap (requestBlocks directory.item
      (u32 (fat16DirectorySize directory.total)) ++ ⟨ptr, sizeofFatDirectory⟩ :: live) := by
    rw [directoryBlocks, List.append_assoc] at h
    exact h
  have hfree := HeapOwns.heapFree_request hrequest fun hzero =>
    harray.empty ((heapTotalBlocks_directory harray.nonneg harray.bound).mp hzero)
  have hfreeAll := HeapOwns.heapFree_head hfree
  rw [fat16FreeDirectory, if_neg hptr]
  simp only [if_pos harray.array]
  exact ⟨hfreeAll, (heapFree_samePool _ _).trans (heapFree_samePool _ _)⟩

/-- Freeing an item gives its blocks back. -/
theorem ItemOwned.free (h : ItemOwned k.heap live item) :
    HeapOwns (fat16FatItemFree kernelAllocator item k).heap live ∧
      SamePool k.heap (fat16FatItemFree kernelAllocator item k).heap := by
  have hown := h.owns
  unfold FatItem.blocks at hown
  rw [List.append_assoc] at hown
  unfold fat16FatItemFree
  cases hpayload : item.payload with
  | item ptr e =>
    rw [hpayload] at hown
    have hclone := HeapOwns.heapFree_head hown
    have hitem := HeapOwns.heapFree_head hclone
    exact ⟨hitem, (heapFree_samePool _ _).trans (heapFree_samePool _ _)⟩
  | directory ptr directory =>
    rw [hpayload] at hown
    rcases HeapOwns.free_directory hown (h.array ptr directory hpayload) with ⟨hdirectory, hsame⟩
    have hitem := HeapOwns.heapFree_head hdirectory
    exact ⟨hitem, hsame.trans (heapFree_samePool _ _)⟩

/-- Freeing an item while another one is held. -/
lemma ItemOwned.free_other {held : FatItem} (hheld : ItemOwned k.heap (item.blocks ++ live) held)
    (harray : ∀ ptr directory, item.payload = .directory ptr directory →
      ArrayOwned k.heap (⟨item.addr, sizeofFatItem⟩ :: (held.blocks ++ live)) ptr directory) :
    ItemOwned (fat16FatItemFree kernelAllocator item k).heap live held ∧
      SamePool k.heap (fat16FatItemFree kernelAllocator item k).heap := by
  have hperm : (held.blocks ++ (item.blocks ++ live)).Perm
      (item.blocks ++ (held.blocks ++ live)) := by
    rw [← List.append_assoc, ← List.append_assoc]
    exact List.Perm.append_right live List.perm_append_comm
  rcases ItemOwned.free ⟨hheld.owns.perm hperm, harray⟩ with ⟨hown, hsame⟩
  refine ⟨⟨hown, fun ptr directory hpayload => ?_⟩, hsame⟩
  have hold := hheld.array ptr directory hpayload
  refine ⟨hold.array, hold.nonneg, hold.bound, fun hzero => ?_⟩
  apply ((hold.empty hzero).samePool hsame).mono
  intro a ha
  rcases List.mem_cons.mp ha with hptr | ha
  · exact List.mem_cons.mpr (Or.inl hptr)
  rcases List.mem_cons.mp ha with haddr | ha
  · exact List.mem_cons_of_mem _ (List.mem_cons.mpr (Or.inl haddr))
  · exact List.mem_cons_of_mem _ (List.mem_cons_of_mem _ (List.mem_append_right _ ha))

/-! ## Building -/

/-- `fat16_new_fat_item_for_directory_item` builds the item for the entry: no request is refused,
and the entries of a subdirectory are read. -/
structure Builds (disk : Disk) (children : FatDirectoryItem → List FatDirectoryItem)
    (e : FatDirectoryItem) (k : KernelHeap) (item : FatItem) (k' : KernelHeap) : Prop where
  run : fat16NewFatItemForDirectoryItem kernelAllocator disk e k = .ok (some item, k')
  built : BuiltFor children item e
  loaded : IsSubdirectory e → ∃ ptr directory k₁, fat16LoadFatDirectoryStatus kernelAllocator disk e
    (kernelAllocator.kmalloc sizeofFatItem k).2 = .ok ((0, ptr, directory), k₁)

/-- An item that is built owns its blocks. -/
theorem Builds.owned (h : HeapOwns k.heap live) (hbuild : Builds disk children e k item k') :
    ItemOwned k'.heap live item ∧ SamePool k.heap k'.heap := by
  have hne : (kernelAllocator.kmalloc sizeofFatItem k).1 ≠ 0 := by
    intro h0
    have hrun := hbuild.run
    unfold fat16NewFatItemForDirectoryItem at hrun
    cases Except.ok.inj ((if_pos h0).symm.trans hrun)
  rcases h.kmalloc_fixed (by decide) (by decide) hne with ⟨hitem, hsame⟩
  by_cases hsub : IsSubdirectory e
  · rcases hbuild.loaded hsub with ⟨ptr, directory, k₁, hstatus⟩
    have hrun := hbuild.run
    rw [fat16NewFatItem_subdirectory hsub (Prod.eta _).symm hne
      (fat16LoadFatDirectory_of_status hstatus)] at hrun
    rcases Prod.mk.inj (Except.ok.inj hrun) with ⟨hsome, hk⟩
    rw [← Option.some.inj hsome, ← hk]
    have hout := fat16LoadFatDirectoryStatus_outcome hstatus
    rcases hout.owns hitem with ⟨hsame', -, hloaded⟩
    rcases hloaded rfl with ⟨hown, hempty⟩
    refine ⟨⟨?_, ?_⟩, hsame.trans hsame'⟩
    · unfold FatItem.blocks
      rw [List.append_assoc]
      exact hown
    · intro ptr' directory' hpayload
      cases hpayload
      cases hout with
      | unread _ _ _ _ _ _ _ hres => exact absurd rfl hres
      | loaded _ _ _ hcount _ hne' =>
        rcases bind_eq_ok.mp hcount with ⟨sector, -, hloop⟩
        have hbounds := fat16GetTotalItemsForDirectory_bounds hloop
        refine ⟨hne', hbounds.1, hbounds.2, fun hzero => hempty ?_⟩
        exact (heapTotalBlocks_directory hbounds.1 hbounds.2).mpr hzero
  · have hrun := hbuild.run
    rw [fat16NewFatItem_file hsub hne] at hrun
    rcases Prod.mk.inj (Except.ok.inj hrun) with ⟨hsome, hk⟩
    have hbuilt := hbuild.built
    unfold BuiltFor at hbuilt
    rw [if_neg hsub, ← Option.some.inj hsome] at hbuilt
    rcases hbuilt with ⟨ptr, hpayload, hptr⟩
    rw [← (FatItemUnion.item.inj hpayload).1] at hptr
    rw [← Option.some.inj hsome, ← hk]
    rcases hitem.kmalloc_fixed (by decide) (by decide) hptr with ⟨hown, hsame'⟩
    exact ⟨⟨hown, fun ptr' directory' hpayload => by cases hpayload⟩, hsame.trans hsame'⟩

end MarrowOS
