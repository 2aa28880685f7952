import MarrowOS.Fs.FailedOpens
import MarrowOS.Fs.FileTheorems
import MarrowOS.Fs.PathParts
import MarrowOS.Memory.HeldBlocks

/-!
# What opening and closing leaves behind

`fopen` frees the parsed path when it fails, and nobody frees it when it does not: the root and the
two buffers of each part stay taken (`openClose_leaks`). The rest of a round is followed with
`Spares`, since an open can go through a directory that was freed when it could not be read, and
then frees it once more.
-/

namespace MarrowOS

open CInt Fallible Runs

variable {heap : Heap} {k k' : KernelHeap} {path path' : CString} {disk : Disk}

/-! ## The parsed path -/

/-- The buffers of a part are blocks that were free and are taken. -/
lemma PartOutcome.grows {part : Option PathPart} (h : TidyHeap k.heap)
    (hout : PartOutcome kernelAllocator path k part path' k') :
    Grows k.heap k'.heap ∧
      ∀ p, part = some p → ∀ a ∈ p.addresses, NewlyTaken k.heap k'.heap a := by
  cases hout with
  | noBuffer hbuf =>
    exact ⟨(h.spares.kmalloc (by decide) hbuf).1.toGrows, fun p hp => by cases hp⟩
  | empty hbuf hne hempty =>
    rcases h.spares.kmalloc (by decide) hbuf with ⟨hspares, htoFree⟩
    exact ⟨(hspares.kfree (htoFree hne)).toGrows, fun p hp => by cases hp⟩
  | noStructure hbuf hne hpart hptr =>
    rcases h.spares.kmalloc (by decide) hbuf with ⟨hspares, htoFree⟩
    rcases hspares.kmalloc (by decide) hptr with ⟨hspares', -⟩
    exact ⟨(hspares'.kfree (htoFree hne)).toGrows, fun p hp => by cases hp⟩
  | found hbuf hne hpart hptr hne' =>
    have hstr := h.kmalloc (by decide) (by decide) hbuf hne
    have hspares := (h.spares.kmalloc (by decide) hbuf).1
    have hlater := (hspares.tidy.spares.kmalloc (by decide) hptr).1
    refine ⟨hspares.toGrows.trans hlater.toGrows, fun p hp a ha => ?_⟩
    rw [← Option.some.inj hp] at ha
    rcases List.mem_cons.mp ha with heq | ha
    · rw [heq]
      exact hstr.later hlater.toGrows
    · rw [List.mem_singleton.mp ha]
      exact (hspares.tidy.kmalloc (by decide) (by decide) hptr hne').earlier hspares.toGrows

/-- The loop: what is parsed later leaves the parts before it alone. -/
lemma pathparserParseLoop_grows {parts : List PathPart} (h : TidyHeap k.heap)
    (hrun : pathparserParseLoop kernelAllocator path k = (parts, k')) :
    Grows k.heap k'.heap ∧
      ∀ a ∈ parts.flatMap PathPart.addresses, NewlyTaken k.heap k'.heap a := by
  induction hn : path.length using Nat.strong_induction_on generalizing path k k' parts with
  | _ n ih =>
    subst hn
    rw [pathparserParseLoop] at hrun
    split at hrun
    · rename_i path₁ k₁ hpart
      rw [← (Prod.mk.inj hrun).1, ← (Prod.mk.inj hrun).2]
      exact ⟨((pathparserParserPathPart_outcome hpart).grows h).1, fun a ha => by cases ha⟩
    · rename_i part path₁ k₁ hpart
      rcases (pathparserParserPathPart_outcome hpart).grows h with ⟨hgrows, hnew⟩
      cases hloop : pathparserParseLoop kernelAllocator path₁ k₁ with
      | mk rest k₂ =>
      simp only [hloop] at hrun
      have hshorter := pathparserParserPathPart_length kernelAllocator hpart
      rcases ih path₁.length hshorter hgrows.tidy hloop rfl with ⟨hgrows', hrest⟩
      rw [← (Prod.mk.inj hrun).1, ← (Prod.mk.inj hrun).2]
      refine ⟨hgrows.trans hgrows', fun a ha => ?_⟩
      rw [List.flatMap_cons] at ha
      rcases List.mem_append.mp ha with ha | ha
      · exact (hnew part rfl a ha).later hgrows'
      · exact (hrest a ha).earlier hgrows

/-- Every pointer of a parsed path is to a block that was free and is taken. -/
theorem pathparserParse_grows {root : PathRoot} (h : TidyHeap k.heap)
    (hrun : pathparserParse kernelAllocator path k = (some root, k')) :
    Grows k.heap k'.heap ∧ ∀ a ∈ root.addresses, NewlyTaken k.heap k'.heap a := by
  cases pathparserParse_outcome hrun with
  | parsed haccepted hroot hne hfirst hloop =>
    have hgrows := (h.spares.kmalloc (by decide) hroot).1.toGrows
    have hnew := h.kmalloc (by decide) (by decide) hroot hne
    rcases hfirst.grows hgrows.tidy with ⟨hgrows₁, hpart⟩
    rcases pathparserParseLoop_grows hgrows₁.tidy hloop with ⟨hgrows₂, hparts⟩
    refine ⟨hgrows.trans (hgrows₁.trans hgrows₂), fun a ha => ?_⟩
    -- the root, the first part and the others, in the order in which they were allocated
    rcases List.mem_cons.mp ha with ha | ha
    · rw [ha]
      exact hnew.later (hgrows₁.trans hgrows₂)
    rw [List.flatMap_cons] at ha
    rcases List.mem_append.mp ha with ha | ha
    · exact ((hpart _ rfl a ha).later hgrows₂).earlier hgrows
    · exact (hparts a ha).earlier (hgrows.trans hgrows₁)

/-! ## The walk -/

variable {e : FatDirectoryItem} {item : FatItem} {ptr : Addr} {directory : FatDirectory}

/-- The directory's pointers are null or to blocks that were free. -/
def DirectoryToFree (heap : Heap) (ptr : Addr) (directory : FatDirectory) : Prop :=
  (ptr ≠ 0 → ToFree heap ptr) ∧ (directory.item ≠ 0 → ToFree heap directory.item)

/-- The item's pointers are to blocks that were free, or null. -/
structure ItemToFree (heap : Heap) (item : FatItem) : Prop where
  addr : ToFree heap item.addr
  directory : ∀ ptr directory, item.payload = .directory ptr directory →
    DirectoryToFree heap ptr directory
  file : ∀ ptr e, item.payload = .item ptr e → ptr ≠ 0 → ToFree heap ptr

/-- Loading a directory, whatever fails. -/
lemma LoadOutcome.spares {res : ℤ} (h : Spares heap k.heap)
    (hout : LoadOutcome kernelAllocator disk e k res ptr directory k') :
    Spares heap k'.heap ∧ DirectoryToFree heap ptr directory := by
  cases hout with
  | notSubdirectory => exact ⟨h, fun hne => absurd rfl hne, fun hne => absurd rfl hne⟩
  | noStructure hsub hptr =>
    exact ⟨(h.kmalloc (by decide) hptr).1, fun hne => absurd rfl hne, fun hne => absurd rfl hne⟩
  | noArray hsub hptr hne hcount harray =>
    rcases h.kmalloc (by decide) hptr with ⟨hspares, htoFree⟩
    have hspares' := (hspares.kmalloc (u32_lt _) harray).1
    exact ⟨hspares'.kfree (htoFree hne), htoFree, fun hne => absurd rfl hne⟩
  | unread hsub hptr hne hcount harray hne' =>
    rcases h.kmalloc (by decide) hptr with ⟨hspares, htoFree⟩
    rcases hspares.kmalloc (u32_lt _) harray with ⟨hspares', htoFree'⟩
    exact ⟨(hspares'.kfree (htoFree' hne')).kfree (htoFree hne), htoFree, htoFree'⟩
  | loaded hsub hptr hne hcount harray hne' =>
    rcases h.kmalloc (by decide) hptr with ⟨hspares, htoFree⟩
    rcases hspares.kmalloc (u32_lt _) harray with ⟨hspares', htoFree'⟩
    exact ⟨hspares', htoFree, htoFree'⟩

/-- Building an item. -/
lemma fat16NewFatItem_spares {made : Option FatItem} (h : Spares heap k.heap)
    (hrun : fat16NewFatItemForDirectoryItem kernelAllocator disk e k = .ok (made, k')) :
    Spares heap k'.heap ∧ ∀ item, made = some item → ItemToFree heap item := by
  unfold fat16NewFatItemForDirectoryItem at hrun
  cases haddr : kernelAllocator.kmalloc sizeofFatItem k with
  | mk addr k₁ =>
  rw [haddr] at hrun
  rcases h.kmalloc (by decide) haddr with ⟨hspares, htoFree⟩
  by_cases hne : addr = 0
  · cases Except.ok.inj ((if_pos hne).symm.trans hrun)
    exact ⟨hspares, fun item hitem => by cases hitem⟩
  have hrun := (if_neg hne).symm.trans hrun
  by_cases hsub : IsSubdirectory e
  · rcases bind_eq_ok.mp ((if_pos hsub).symm.trans hrun) with ⟨⟨⟨ptr, directory⟩, k₂⟩, hload, hret⟩
    cases Except.ok.inj hret
    rw [← fat16LoadFatDirectoryStatus_snd] at hload
    rcases map_eq_ok.mp hload with ⟨⟨⟨res, ptr', directory'⟩, k₂⟩, hstatus, heq⟩
    cases heq
    rcases (fat16LoadFatDirectoryStatus_outcome hstatus).spares hspares with ⟨hspares', hdirectory⟩
    refine ⟨hspares', fun item hitem => ?_⟩
    rw [← Option.some.inj hitem]
    refine ⟨htoFree hne, fun ptr' directory' hpayload => ?_, fun ptr' e' hpayload => ?_⟩
    · cases hpayload
      exact hdirectory
    · cases hpayload
  · have hret := (if_neg hsub).symm.trans hrun
    cases hclone : kernelAllocator.kmalloc sizeofFatDirectoryItem k₁ with
    | mk ptr k₂ =>
    unfold fat16CloneDirectoryItem at hret
    rw [if_neg (lt_irrefl _), hclone] at hret
    cases Except.ok.inj hret
    rcases hspares.kmalloc (by decide) hclone with ⟨hspares', htoFree'⟩
    refine ⟨hspares', fun item hitem => ?_⟩
    rw [← Option.some.inj hitem]
    refine ⟨htoFree hne, fun ptr' directory' hpayload => ?_, fun ptr' e' hpayload => ?_⟩
    · cases hpayload
    · cases hpayload
      exact htoFree'

lemma DirectoryToFree.free (h : Spares heap k.heap)
    (hdirectory : DirectoryToFree heap ptr directory) :
    Spares heap (fat16FreeDirectory kernelAllocator ptr directory k).heap := by
  unfold fat16FreeDirectory
  by_cases hne : ptr = 0
  · rw [if_pos hne]
    exact h
  rw [if_neg hne]
  by_cases harray : directory.item ≠ 0
  · simp only [if_pos harray]
    exact (h.kfree (hdirectory.2 harray)).kfree (hdirectory.1 hne)
  · simp only [if_neg harray]
    exact h.kfree (hdirectory.1 hne)

/-- Freeing an item: of a file whose entry could not be copied, a null pointer is freed. -/
lemma ItemToFree.free (h : Spares heap k.heap) (hitem : ItemToFree heap item) :
    SparesOrWrites heap (fat16FatItemFree kernelAllocator item k).heap ∧
      ((∀ e, item.payload ≠ .item 0 e) →
        Spares heap (fat16FatItemFree kernelAllocator item k).heap) := by
  unfold fat16FatItemFree
  cases hpayload : item.payload with
  | directory ptr directory =>
    have hspares := DirectoryToFree.free h (hitem.directory ptr directory hpayload)
    exact ⟨Or.inl (hspares.kfree hitem.addr), fun _ => hspares.kfree hitem.addr⟩
  | item ptr e =>
    by_cases hne : ptr = 0
    · rw [hne]
      exact ⟨h.kfree_null.kfree hitem.addr, fun hcopied => absurd rfl (hcopied e)⟩
    · have hspares := h.kfree (hitem.file ptr e hpayload hne)
      exact ⟨Or.inl (hspares.kfree hitem.addr), fun _ => hspares.kfree hitem.addr⟩

lemma fat16FindItemInDirectory_spares {part : CString} {found : Option FatItem}
    (h : Spares heap k.heap)
    (hrun : fat16FindItemInDirectory kernelAllocator disk directory part k = .ok (found, k')) :
    Spares heap k'.heap ∧ ∀ item, found = some item → ItemToFree heap item := by
  unfold fat16FindItemInDirectory at hrun
  rcases bind_eq_ok.mp hrun with ⟨entry, -, hrun⟩
  cases entry with
  | none =>
    cases Except.ok.inj hrun
    exact ⟨h, fun item hitem => by cases hitem⟩
  | some entry => exact fat16NewFatItem_spares h hrun

/-- The way down. -/
lemma fat16GetDirectoryEntryLoop_spares {current found : Option FatItem} {parts : List CString}
    (h : Spares heap k.heap) (hcurrent : ∀ item, current = some item → ItemToFree heap item)
    (hrun : fat16GetDirectoryEntryLoop kernelAllocator disk current parts k = .ok (found, k')) :
    Spares heap k'.heap ∧ ∀ item, found = some item → ItemToFree heap item := by
  induction parts generalizing current k with
  | nil =>
    cases Except.ok.inj hrun
    exact ⟨h, hcurrent⟩
  | cons part parts ih =>
    cases current with
    | none => cases hrun
    | some current =>
    have hitem := hcurrent current rfl
    rw [fat16GetDirectoryEntryLoop] at hrun
    cases hpayload : current.payload with
    | item ptr e =>
      rw [hpayload] at hrun
      cases Except.ok.inj hrun
      exact ⟨h, fun item hitem => by cases hitem⟩
    | directory ptr directory =>
      rw [hpayload] at hrun
      by_cases hne : ptr = 0
      · simp only [if_pos hne] at hrun
        cases hrun
      simp only [if_neg hne] at hrun
      rcases bind_eq_ok.mp hrun with ⟨⟨next, k₁⟩, hfind, hloop⟩
      rcases fat16FindItemInDirectory_spares h hfind with ⟨hspares, hnext⟩
      apply ih _ hnext hloop
      apply (hitem.free hspares).2
      intro e he
      rw [hpayload] at he
      cases he

/-- `fat16_open` returns an error code or the descriptor of an item. -/
lemma fat16Open_spares {parts : List PathPart} {mode : FileMode} {desc : Option FatFileDescriptor}
    (h : Spares heap k.heap)
    (hrun : fat16Open kernelAllocator disk parts mode k = .ok ((ptr, desc), k')) :
    Spares heap k'.heap ∧ (desc = none → isErr ptr = true) ∧
      ∀ d, desc = some d → ToFree heap ptr ∧ ItemToFree heap d.item := by
  unfold fat16Open at hrun
  by_cases hmode : mode ≠ .read
  · cases Except.ok.inj ((if_pos hmode).symm.trans hrun)
    exact ⟨h, fun _ => by decide, fun d hd => by cases hd⟩
  have hrun := (if_neg hmode).symm.trans hrun
  cases hdesc : kernelAllocator.kmalloc sizeofFatFileDescriptor k with
  | mk addr k₁ =>
  rw [hdesc] at hrun
  rcases h.kmalloc (by decide) hdesc with ⟨hspares, htoFree⟩
  -- the descriptor, and then the item
  by_cases hne : addr = 0
  · cases Except.ok.inj ((if_pos hne).symm.trans hrun)
    exact ⟨hspares, fun _ => by decide, fun d hd => by cases hd⟩
  have hrun := (if_neg hne).symm.trans hrun
  cases parts with
  | nil => cases hrun
  | cons part parts =>
  rcases bind_eq_ok.mp hrun with ⟨⟨found, k₂⟩, hentry, hret⟩
  unfold fat16GetDirectoryEntry at hentry
  rcases bind_eq_ok.mp hentry with ⟨⟨first, k₃⟩, hfirst, hloop⟩
  rcases fat16FindItemInDirectory_spares hspares hfirst with ⟨hspares₁, hitem₁⟩
  have hfound : Spares heap k₂.heap ∧ ∀ item, found = some item → ItemToFree heap item := by
    cases first with
    | none =>
      cases Except.ok.inj hloop
      exact ⟨hspares₁, hitem₁⟩
    | some first => exact fat16GetDirectoryEntryLoop_spares hspares₁ hitem₁ hloop
  -- without an item the descriptor is freed again
  cases found with
  | none =>
    cases Except.ok.inj hret
    exact ⟨hfound.1.kfree (htoFree hne), fun _ => by decide, fun d hd => by cases hd⟩
  | some found =>
    cases Except.ok.inj hret
    refine ⟨hfound.1, fun hnone => absurd hnone (Option.some_ne_none _), fun d hd => ?_⟩
    rw [← Option.some.inj hd]
    exact ⟨htoFree hne, hfound.2 found rfl⟩

/-! ## The calls of a round -/

section Calls

variable {ω : Type} {W : FileWorld ω} {table table' : FileTable} {w w' : ω} {res : ℤ}

lemma fopenOut_of_neg {l : FopenLocals} (h : l.res < 0) : (fopenOut W l table w).1 = 0 := by
  unfold fopenOut
  rw [if_pos h]
  cases l.disk with
  | none => cases l.desc <;> rfl
  | some disk =>
    simp only
    split_ifs
    · rfl
    · cases l.desc <;> rfl

/-- What an `fopen` has done that opened a file. -/
lemma fopen_pos {filename modeStr : CString}
    (hopen : fopen W filename modeStr table w = .ok (res, table', w')) (hres : 0 < res) :
    ∃ root w₁ disk ptr w₂ i addr, W.pathparserParse filename w = (some root, w₁) ∧
      W.fsOpen (DiskPtr.filesystem disk) disk.addr root.first (fileGetModeByString modeStr) w₁ =
        (ptr, w₂) ∧ isErr ptr = false ∧
      W.kzalloc sizeofFileDescriptor w₂ = (addr, w') ∧ addr ≠ 0 ∧ FirstFree table i ∧
      res = i + 1 ∧
      table' = Function.update table i (some ⟨addr, i + 1, disk.filesystem, ptr, disk.addr⟩) := by
  unfold fopen at hopen
  rcases bind_eq_ok.mp hopen with ⟨⟨l, table₁, w₃⟩, hbody, hout⟩
  have hout : fopenOut W l table₁ w₃ = (res, table', w') := Except.ok.inj hout
  have hnonneg : ¬ l.res < 0 := by
    intro hneg
    have hzero := @fopenOut_of_neg _ W table₁ w₃ l hneg
    rw [hout] at hzero
    omega
  -- every way to `out` but the last one has an error in `res`
  unfold fopenBody at hbody
  cases hparse : W.pathparserParse filename w with
  | mk rootPath w₁ =>
  rw [hparse] at hbody
  cases rootPath with
  | none =>
    cases Except.ok.inj hbody
    exact absurd (show -einvarg < 0 by decide) hnonneg
  | some root =>
  by_cases hfirst : root.first = []
  · cases Except.ok.inj ((if_pos hfirst).symm.trans hbody)
    exact absurd (show -einvarg < 0 by decide) hnonneg
  have hbody := (if_neg hfirst).symm.trans hbody
  cases hdisk : W.diskGet root.driveNo w₁ with
  | none =>
    rw [hdisk] at hbody
    cases Except.ok.inj hbody
    exact absurd (show -eio < 0 by decide) hnonneg
  | some disk =>
  rw [hdisk] at hbody
  by_cases hfs : disk.filesystem = 0
  · cases Except.ok.inj ((if_pos hfs).symm.trans hbody)
    exact absurd (show -eio < 0 by decide) hnonneg
  have hbody := (if_neg hfs).symm.trans hbody
  by_cases hmode : fileGetModeByString modeStr = .invalid
  · cases Except.ok.inj ((if_pos hmode).symm.trans hbody)
    exact absurd (show -einvarg < 0 by decide) hnonneg
  have hbody := (if_neg hmode).symm.trans hbody
  cases hfsOpen : W.fsOpen disk.filesystem disk.addr root.first (fileGetModeByString modeStr)
    w₁ with
  | mk ptr w₂ =>
  simp only [hfsOpen] at hbody
  by_cases herr : isErr ptr = true
  · rw [if_pos herr] at hbody
    rw [← (Prod.mk.inj (Except.ok.inj hbody)).1] at hnonneg
    dsimp only at hnonneg
    exact absurd (isErr_neg herr) hnonneg
  rw [if_neg herr] at hbody
  unfold fopenAttach fileNewDescriptor at hbody
  cases hslot : fileFreeSlotLoop table marrowosMaxFileDescriptors 0 with
  | none =>
    simp only [hslot, ok_bind, pure_eq_ok] at hbody
    cases Except.ok.inj hbody
    exact absurd (show -enomem < 0 by decide) hnonneg
  | some i =>
  cases halloc : W.kzalloc sizeofFileDescriptor w₂ with
  | mk addr w₄ =>
  simp only [hslot, halloc] at hbody
  by_cases hnull : addr = 0
  · rw [if_pos hnull] at hbody
    cases hbody
  rw [if_neg hnull] at hbody
  simp only [ok_bind, pure_eq_ok, add_sub_cancel_right, Function.update_idem] at hbody
  cases Except.ok.inj hbody
  -- only here is `res` not negative
  have hret := (if_neg hnonneg).symm.trans hout
  have hres' : i + 1 = res := (Prod.mk.inj hret).1
  have hrest := (Prod.mk.inj hret).2
  exact ⟨root, w₁, disk, ptr, w₂, i, addr, rfl, hfsOpen, eq_false_of_ne_true herr,
    by rw [halloc, (Prod.mk.inj hrest).2], hnull, fileFreeSlotLoop_some hslot, hres'.symm,
    (Prod.mk.inj hrest).1.symm⟩

end Calls

/-! ## Rounds -/

variable {σ : Type} {A : Allocator σ} {dp : DiskPtr}

/-- A call on a file that is open. -/
def FileOp.Uses : FileOp → Prop
  | .fread .. | .fseek .. | .fstat .. => True
  | .fopen .. | .fclose .. => False

/-- A file is opened, used and closed, from `r` to `r'`; behind the `fopen` the run is at `r₁`. -/
structure OpenCloseRound {ω : Type} (W : FileWorld ω) (filename modeStr : CString)
    (ops : List FileOp) (r r₁ r' : FileRun ω) : Prop where
  opened : fileStep W r (.fopen filename modeStr) = some r₁
  res : 0 < r₁.res
  uses : ∀ op ∈ ops, op.Uses
  closed : run (fileStep W) r₁ (ops ++ [.fclose r₁.res]) = some r'

/-- The item that a file descriptor is opened on. -/
def FileRun.openItem (r : FileRun (Except Fault (FatWorld σ))) (fd : ℤ) : Option FatItem :=
  match r.world, fileGetDescriptor fd r.table with
  | .ok w, some desc => (w.descriptors desc.private).map FatFileDescriptor.item
  | _, _ => none

/-- The heap, and the items that the descriptors hold, are the same. -/
structure SameItems (w w' : FatWorld σ) : Prop where
  heap : w'.heap = w.heap
  items : ∀ ptr, (w'.descriptors ptr).map FatFileDescriptor.item =
    (w.descriptors ptr).map FatFileDescriptor.item

/-- A world without a fault comes from one that has the same items. -/
def KeepsItems (x x' : Except Fault (FatWorld σ)) : Prop :=
  ∀ w', x' = .ok w' → ∃ w, x = .ok w ∧ SameItems w w'

lemma SameItems.refl (w : FatWorld σ) : SameItems w w := ⟨rfl, fun _ => rfl⟩

lemma KeepsItems.refl (x : Except Fault (FatWorld σ)) : KeepsItems x x :=
  fun w' hw' => ⟨w', hw', SameItems.refl w'⟩

lemma KeepsItems.trans {x y z : Except Fault (FatWorld σ)} (h : KeepsItems x y)
    (h' : KeepsItems y z) : KeepsItems x z := by
  intro w'' hw''
  rcases h' w'' hw'' with ⟨w', hw', hsame'⟩
  rcases h w' hw' with ⟨w, hw, hsame⟩
  exact ⟨w, hw, hsame'.heap.trans hsame.heap,
    fun ptr => (hsame'.items ptr).trans (hsame.items ptr)⟩

lemma faulting_ok {ω α : Type} {default : α} {f : ω → Except Fault (α × ω)} {x : Except Fault ω}
    {w' : ω} (h : (faulting default f x).2 = .ok w') :
    ∃ w, x = .ok w ∧ f w = .ok ((faulting default f x).1, w') := by
  unfold faulting at h ⊢
  cases x with
  | error fault => cases h
  | ok w =>
    simp only at h ⊢
    cases hf : f w with
    | error fault =>
      rw [hf] at h
      cases h
    | ok r =>
      rw [hf] at h
      refine ⟨w, rfl, ?_⟩
      rw [hf, ← Except.ok.inj h]

lemma keepsItems_faulting {α : Type} {default : α}
    {f : FatWorld σ → Except Fault (α × FatWorld σ)}
    (hf : ∀ w a w', f w = .ok (a, w') → SameItems w w') (x : Except Fault (FatWorld σ)) :
    KeepsItems x (faulting default f x).2 := by
  intro w' hw'
  rcases faulting_ok hw' with ⟨w, hw, hrun⟩
  exact ⟨w, hw, hf _ _ _ hrun⟩

/-- A descriptor is replaced by one for the same item. -/
lemma sameItems_update {w : FatWorld σ} {ptr : Addr} {d d' : FatFileDescriptor}
    (hd : w.deref ptr = .ok d) (hitem : d'.item = d.item) (mem : ByteMem.Mem) :
    SameItems w { w with descriptors := Function.update w.descriptors ptr (some d'), mem } := by
  unfold FatWorld.deref at hd
  cases hptr : w.descriptors ptr with
  | none =>
    rw [hptr] at hd
    cases hd
  | some d₀ =>
    rw [hptr] at hd
    refine ⟨rfl, fun p => ?_⟩
    by_cases hp : p = ptr
    · rw [hp, hptr]
      simp only [Function.update_self, Option.map_some]
      rw [hitem, Except.ok.inj hd]
    · simp only [Function.update_of_ne hp]

lemma fat16Seek_item {d d' : FatFileDescriptor} {offset seekMode : ℕ} {res : ℤ}
    (h : fat16Seek d offset seekMode = .ok (res, d')) : d'.item = d.item := by
  unfold fat16Seek at h
  cases hpayload : d.item.payload with
  | directory ptr directory =>
    simp only [hpayload] at h
    cases Except.ok.inj h
    rfl
  | item ptr e =>
    simp only [hpayload] at h
    split_ifs at h <;> cases h <;> rfl

/-- A call that uses a file leaves the table and the items alone. -/
lemma fileStep_uses {r r' : FileRun (Except Fault (FatWorld σ))} {op : FileOp} (hop : op.Uses)
    (hstep : fileStep (fat16World A disk dp) r op = some r') :
    r'.table = r.table ∧ KeepsItems r.world r'.world := by
  cases op with
  | fopen filename modeStr => exact hop.elim
  | fclose fd => exact hop.elim
  -- a read moves the position of its descriptor
  | fread ptr size nmemb fd =>
    rw [← Option.some.inj hstep]
    refine ⟨rfl, ?_⟩
    show KeepsItems r.world
      (fread (fat16World A disk dp).recorded ptr size nmemb fd r.table (r.world, [])).2.1
    unfold fread
    by_cases hzero : size = 0 ∨ nmemb = 0 ∨ fd < 1
    · rw [if_pos hzero]
      exact KeepsItems.refl _
    · rw [if_neg hzero]
      cases fileGetDescriptor fd r.table with
      | none => exact KeepsItems.refl _
      | some desc =>
        apply keepsItems_faulting
        intro w a w' hrun
        rcases bind_eq_ok.mp hrun with ⟨d, hd, hrun⟩
        rcases bind_eq_ok.mp hrun with ⟨read, -, hret⟩
        cases Except.ok.inj hret
        have hitem : FatFileDescriptor.item { d with pos := read.pos } = d.item := rfl
        exact sameItems_update hd hitem _
  -- a seek as well
  | fseek fd offset whence =>
    rw [← Option.some.inj hstep]
    refine ⟨rfl, ?_⟩
    show KeepsItems r.world
      (fseek (fat16World A disk dp).recorded fd offset whence r.table (r.world, [])).2.1
    unfold fseek
    cases fileGetDescriptor fd r.table with
    | none => exact KeepsItems.refl _
    | some desc =>
      apply keepsItems_faulting
      intro w a w' hrun
      rcases bind_eq_ok.mp hrun with ⟨d, hd, hrun⟩
      rcases bind_eq_ok.mp hrun with ⟨⟨res, d'⟩, hseek, hret⟩
      cases Except.ok.inj hret
      exact sameItems_update hd (fat16Seek_item hseek) _
  | fstat fd =>
    rw [← Option.some.inj hstep]
    refine ⟨rfl, ?_⟩
    show KeepsItems r.world
      (fstat (fat16World A disk dp).recorded fd r.table (r.world, [])).2.1
    unfold fstat
    cases fileGetDescriptor fd r.table with
    | none => exact KeepsItems.refl _
    | some desc =>
      apply keepsItems_faulting
      intro w a w' hrun
      rcases bind_eq_ok.mp hrun with ⟨d, -, hrun⟩
      rcases bind_eq_ok.mp hrun with ⟨stat, -, hret⟩
      cases Except.ok.inj hret
      exact SameItems.refl _

/-- So does a run of such calls. -/
lemma run_uses {r r' : FileRun (Except Fault (FatWorld σ))} {ops : List FileOp}
    (hops : ∀ op ∈ ops, op.Uses) (hrun : run (fileStep (fat16World A disk dp)) r ops = some r') :
    r'.table = r.table ∧ KeepsItems r.world r'.world := by
  induction ops generalizing r with
  | nil =>
    rw [← Option.some.inj hrun]
    exact ⟨rfl, KeepsItems.refl _⟩
  | cons op ops ih =>
    rcases run_cons.mp hrun with ⟨r₁, hstep, hrest⟩
    rcases List.forall_mem_cons.mp hops with ⟨hop, hops⟩
    rcases fileStep_uses hop hstep with ⟨htable, hkeeps⟩
    rcases ih hops hrest with ⟨htable', hkeeps'⟩
    exact ⟨htable'.trans htable, hkeeps.trans hkeeps'⟩

/-- What an `fopen` has done on FAT16 that opened a file: the path is parsed, the file opened, and
the descriptor allocated. -/
structure OpenedFat (disk : Disk) (filename modeStr : CString) (w : FatWorld KernelHeap)
    (r₁ : FileRun (Except Fault (FatWorld KernelHeap))) (root : PathRoot) (k₁ : KernelHeap)
    (ptr : Addr) (desc : FatFileDescriptor) (k₂ : KernelHeap) (addr : Addr) (k₃ : KernelHeap) :
    Prop where
  parsed : pathparserParse kernelAllocator filename w.heap = (some root, k₁)
  opened : fat16Open kernelAllocator disk root.first (fileGetModeByString modeStr) k₁ =
    .ok ((ptr, some desc), k₂)
  allocated : kernelAllocator.kmalloc sizeofFileDescriptor k₂ = (addr, k₃)
  addr_ne : addr ≠ 0
  world : r₁.world = .ok ⟨k₃, Function.update w.descriptors ptr (some desc), w.mem⟩
  slot : ∃ filesystem fsDisk,
    fileGetDescriptor r₁.res r₁.table = some ⟨addr, r₁.res, filesystem, ptr, fsDisk⟩

lemma fileStep_fopen_fat {filename modeStr : CString} {w : FatWorld KernelHeap}
    {r r₁ : FileRun (Except Fault (FatWorld KernelHeap))} (h : TidyHeap w.heap.heap)
    (hworld : r.world = .ok w)
    (hstep : fileStep (fat16World kernelAllocator disk dp) r (.fopen filename modeStr) = some r₁)
    (hres : 0 < r₁.res) :
    ∃ root k₁ ptr desc k₂ addr k₃,
      OpenedFat disk filename modeStr w r₁ root k₁ ptr desc k₂ addr k₃ := by
  unfold fileStep at hstep
  rw [hworld] at hstep
  cases hopen : fopen (fat16World kernelAllocator disk dp).recorded filename modeStr r.table
    (.ok w, []) with
  | error fault =>
    simp only [hopen] at hstep
    cases hstep
  | ok out =>
  rcases out with ⟨res, table, world, calls⟩
  simp only [hopen] at hstep
  cases Option.some.inj hstep
  rcases fopen_pos hopen hres with
    ⟨root, w₁, fsDisk, ptr, w₂, i, addr, hparse, hfsOpen, hok, halloc, haddr, hfree, hi, htable⟩
  -- what the recorded calls were answered with, without the record
  have hroot : (pathparserParse kernelAllocator filename w.heap).1 = some root :=
    congrArg Prod.fst hparse
  have hparsed : pathparserParse kernelAllocator filename w.heap =
      (some root, (pathparserParse kernelAllocator filename w.heap).2) := Prod.ext hroot rfl
  have hw₁ : (.ok { w with heap := (pathparserParse kernelAllocator filename w.heap).2 }, []) =
      w₁ := congrArg Prod.snd hparse
  rw [← hw₁] at hfsOpen
  have haddr' := congrArg Prod.fst halloc
  cases hw₂ : w₂.1 with
  | error fault =>
    -- behind a fault the descriptor would not be allocated
    have hnull : ((fat16World kernelAllocator disk dp).recorded.kzalloc sizeofFileDescriptor
        w₂).1 = 0 := by
      show ((fat16World kernelAllocator disk dp).kzalloc sizeofFileDescriptor w₂.1).1 = 0
      rw [hw₂]
      rfl
    rw [hnull] at haddr'
    exact absurd haddr'.symm haddr
  | ok w₃ =>
  have hworld₂ : (faulting 0 (fun w => w.open kernelAllocator disk root.first
      (fileGetModeByString modeStr)) (.ok { w with heap :=
        (pathparserParse kernelAllocator filename w.heap).2 })).2 = .ok w₃ :=
    (congrArg (fun p => p.2.1) hfsOpen).trans hw₂
  rcases faulting_ok hworld₂ with ⟨w', hw', hfat⟩
  rw [← Except.ok.inj hw'] at hfat
  have hptr : (faulting 0 (fun w => w.open kernelAllocator disk root.first
      (fileGetModeByString modeStr)) (.ok { w with heap :=
        (pathparserParse kernelAllocator filename w.heap).2 })).1 = ptr :=
    congrArg Prod.fst hfsOpen
  rw [hptr] at hfat
  rcases bind_eq_ok.mp hfat with ⟨⟨⟨fatPtr, desc⟩, k₂⟩, hfat16, hret⟩
  -- a descriptor that is none comes with an error
  rcases pathparserParse_grows h hparsed with ⟨hgrows, -⟩
  rcases fat16Open_spares hgrows.tidy.spares hfat16 with ⟨-, hnone, -⟩
  cases desc with
  | none =>
    cases Except.ok.inj hret
    rw [hnone rfl] at hok
    cases hok
  | some desc =>
    cases Except.ok.inj hret
    have hkmalloc : kernelAllocator.kmalloc sizeofFileDescriptor k₂ =
        (addr, (kernelAllocator.kmalloc sizeofFileDescriptor k₂).2) := by
      apply Prod.ext
      · rw [← haddr']
        show _ = ((fat16World kernelAllocator disk dp).kzalloc sizeofFileDescriptor w₂.1).1
        rw [hw₂]
        rfl
      · rfl
    refine ⟨root, _, ptr, desc, k₂, addr, _, hparsed, hfat16, hkmalloc, haddr, ?_, ?_⟩
    · show world = _
      have hworld₃ := congrArg (fun p => p.2.1) halloc
      rw [← show _ = world from hworld₃]
      show ((fat16World kernelAllocator disk dp).kzalloc sizeofFileDescriptor w₂.1).2 = _
      rw [hw₂]
      rfl
    · refine ⟨fsDisk.filesystem, fsDisk.addr, ?_⟩
      show fileGetDescriptor res table = _
      rw [htable, hi, fileGetDescriptor_update r.table hfree.nonneg hfree.lt, if_pos rfl]

/-- Closing a file frees its item and the two descriptors. -/
lemma fileStep_fclose_fat {w : FatWorld σ} {r r' : FileRun (Except Fault (FatWorld σ))} {fd : ℤ}
    {desc : FileDescriptor} {d : FatFileDescriptor} (hworld : r.world = .ok w)
    (hslot : fileGetDescriptor fd r.table = some desc) (hd : w.descriptors desc.private = some d)
    (hstep : fileStep (fat16World A disk dp) r (.fclose fd) = some r') :
    r'.world = .ok { w with
      heap := A.kfree desc.addr (fat16FreeFileDescriptor A desc.private d w.heap) } := by
  have hclose : (fat16World A disk dp).fsClose desc.filesystem desc.private (.ok w) =
      (0, .ok { w with heap := fat16FreeFileDescriptor A desc.private d w.heap }) := by
    show faulting 0 (fun w => w.close A desc.private) (.ok w) = _
    have hrun : w.close A desc.private =
        .ok (0, { w with heap := fat16FreeFileDescriptor A desc.private d w.heap }) := by
      unfold FatWorld.close FatWorld.deref
      rw [hd]
      rfl
    simp only [faulting, hrun]
  rw [← Option.some.inj hstep]
  show (fclose (fat16World A disk dp).recorded fd r.table (r.world, [])).2.2.1 = _
  unfold fclose
  rw [hslot, hworld]
  simp only [FileWorld.recorded, hclose]
  rfl

variable {filename modeStr : CString} {ops : List FileOp} {w w' : FatWorld KernelHeap}
  {r r₁ r' : FileRun (Except Fault (FatWorld KernelHeap))}

/-- The file that was opened is no file whose entry could not be copied. -/
def HoldsCopy (r₁ : FileRun (Except Fault (FatWorld KernelHeap))) : Prop :=
  ∀ addr e, r₁.openItem r₁.res ≠ some ⟨addr, .item 0 e⟩

/-- A round frees the item and the descriptors, and not the path. -/
lemma OpenedFat.closes {root : PathRoot} {k₁ k₂ k₃ : KernelHeap} {addr : Addr}
    {desc : FatFileDescriptor}
    (hopened : OpenedFat disk filename modeStr w r₁ root k₁ ptr desc k₂ addr k₃)
    (hround : OpenCloseRound (fat16World kernelAllocator disk dp) filename modeStr ops r r₁ r')
    (hworld' : r'.world = .ok w') :
    w'.heap = kernelAllocator.kfree addr (kernelAllocator.kfree ptr
      (fat16FatItemFree kernelAllocator desc.item k₃)) := by
  rcases run_append.mp hround.closed with ⟨r₂, huses, hclosed⟩
  rcases run_uses hround.uses huses with ⟨htable, hkeeps⟩
  rcases run_cons.mp hclosed with ⟨r₃, hstep, hlast⟩
  rw [← Option.some.inj hlast] at hworld'
  rcases hopened.slot with ⟨filesystem, fsDisk, hslot⟩
  rw [← htable] at hslot
  cases hw₂ : r₂.world with
  | error fault =>
    rw [← Option.some.inj hstep] at hworld'
    have hfault : (fclose (fat16World kernelAllocator disk dp).recorded r₁.res r₂.table
        (r₂.world, [])).2.2.1 = .error fault := by
      unfold fclose
      rw [hslot, hw₂]
      rfl
    cases hfault.symm.trans hworld'
  | ok w₂ =>
    rcases hkeeps w₂ hw₂ with ⟨w₁, hw₁, hsame⟩
    rw [hopened.world] at hw₁
    have hw₁ := Except.ok.inj hw₁
    have hitem := hsame.items ptr
    rw [← hw₁] at hitem
    simp only [Function.update_self, Option.map_some] at hitem
    rcases Option.map_eq_some_iff.mp hitem with ⟨d, hd, hditem⟩
    have hclose := fileStep_fclose_fat hw₂ hslot hd hstep
    rw [hclose] at hworld'
    rw [← Except.ok.inj hworld', ← hditem, ← show w₂.heap = k₃ from ?_]
    · rfl
    · rw [hsame.heap, ← hw₁]

/-- What a round does to the heap: the path stays taken, unless the null pointer of an item without
a copy is freed, which writes in front of the table. -/
theorem OpenCloseRound.grows (h : TidyHeap w.heap.heap) (hworld : r.world = .ok w)
    (hround : OpenCloseRound (fat16World kernelAllocator disk dp) filename modeStr ops r r₁ r')
    (hworld' : r'.world = .ok w') :
    ∃ root k₁, pathparserParse kernelAllocator filename w.heap = (some root, k₁) ∧
      w'.heap.heap ≠ w.heap.heap ∧ (HoldsCopy r₁ → Grows w.heap.heap w'.heap.heap ∧
        ∀ a ∈ root.addresses, NewlyTaken w.heap.heap w'.heap.heap a) := by
  rcases fileStep_fopen_fat h hworld hround.opened hround.res with
    ⟨root, k₁, ptr, desc, k₂, addr, k₃, hopened⟩
  have hheap := hopened.closes hround hworld'
  rcases pathparserParse_grows h hopened.parsed with ⟨hgrows, hnew⟩
  rcases fat16Open_spares hgrows.tidy.spares hopened.opened with ⟨hspares, -, hdesc⟩
  rcases hdesc desc rfl with ⟨hptr, hitem⟩
  rcases hspares.kmalloc (by decide) hopened.allocated with ⟨hspares', haddr⟩
  have haddr := haddr hopened.addr_ne
  have hfree := hitem.free hspares'
  have hroot := hnew root.addr List.mem_cons_self
  refine ⟨root, k₁, hopened.parsed, ?_, fun hcopy => ?_⟩
  · intro heq
    have hclosed := (hfree.1.kfree hptr).kfree haddr
    rw [← hheap, heq] at hclosed
    rcases hclosed with hclosed | ⟨-, -, hwritten⟩
    · have hmore := hroot.ssubset hgrows
      exact hmore.2 hclosed.taken
    · exact hwritten hgrows.front.symm
  · have hcopied : ∀ e, desc.item.payload ≠ .item 0 e := by
      intro e he
      apply hcopy desc.item.addr e
      rcases hopened.slot with ⟨filesystem, fsDisk, hslot⟩
      unfold FileRun.openItem
      rw [hopened.world, hslot]
      simp only [Function.update_self, Option.map_some]
      rw [← he]
    have hclosed := ((hfree.2 hcopied).kfree hptr).kfree haddr
    rw [← hheap] at hclosed
    exact ⟨hgrows.trans hclosed.toGrows, fun a ha => (hnew a ha).later hclosed.toGrows⟩

/-- Rounds one after the other, each on a file whose entry could be copied. -/
inductive Rounds (disk : Disk) (dp : DiskPtr) : ℕ →
    FileRun (Except Fault (FatWorld KernelHeap)) → FileRun (Except Fault (FatWorld KernelHeap)) →
    Prop
  | none (r : FileRun (Except Fault (FatWorld KernelHeap))) : Rounds disk dp 0 r r
  | next {n : ℕ} {r r₁ r' r'' : FileRun (Except Fault (FatWorld KernelHeap))}
    {filename modeStr : CString} {ops : List FileOp}
    (hround : OpenCloseRound (fat16World kernelAllocator disk dp) filename modeStr ops r r₁ r')
    (hcopy : HoldsCopy r₁) (hrest : Rounds disk dp n r' r'') : Rounds disk dp (n + 1) r r''

/-- Nothing is opened behind a fault. -/
lemma OpenCloseRound.world_ok
    (hround : OpenCloseRound (fat16World kernelAllocator disk dp) filename modeStr ops r r₁ r') :
    ∃ w, r.world = .ok w := by
  have hstep := hround.opened
  unfold fileStep at hstep
  cases hopen : fopen (fat16World kernelAllocator disk dp).recorded filename modeStr r.table
    (r.world, []) with
  | error fault =>
    simp only [hopen] at hstep
    cases hstep
  | ok out =>
    rcases out with ⟨res, table, world, calls⟩
    simp only [hopen] at hstep
    have hres := hround.res
    rw [← Option.some.inj hstep] at hres
    rcases fopen_pos hopen hres with ⟨root, w₁, -, -, -, -, -, hparse, -⟩
    cases hworld : r.world with
    | error fault =>
      rw [hworld] at hparse
      cases congrArg Prod.fst hparse
    | ok w => exact ⟨w, rfl⟩

lemma Rounds.world_ok {n : ℕ} (h : Rounds disk dp n r r') (hworld' : r'.world = .ok w') :
    ∃ w, r.world = .ok w := by
  cases h with
  | none => exact ⟨w', hworld'⟩
  | next hround => exact hround.world_ok

/-- Every round takes a block for good. -/
theorem Rounds.card_le {n : ℕ} (hrounds : Rounds disk dp n r r') (h : TidyHeap w.heap.heap)
    (hworld : r.world = .ok w) (hworld' : r'.world = .ok w') :
    (takenBlocks w.heap.heap).card + n ≤ (takenBlocks w'.heap.heap).card := by
  induction hrounds generalizing w with
  | none r =>
    rw [Except.ok.inj (hworld.symm.trans hworld'), Nat.add_zero]
  | next hround hcopy hrest ih =>
    rcases hrest.world_ok hworld' with ⟨w₁, hw₁⟩
    rcases hround.grows h hworld hw₁ with ⟨root, k₁, -, -, hcopied⟩
    rcases hcopied hcopy with ⟨hgrows, hnew⟩
    have hrest := ih hgrows.tidy hw₁ hworld'
    have hmore := Finset.card_lt_card ((hnew root.addr List.mem_cons_self).ssubset hgrows)
    omega

/-- **Opening and closing leaks**, every time: no round leaves the heap as it was, the blocks of the
parsed path stay taken, and so many rounds take at least so many blocks. -/
theorem openClose_leaks (disk : Disk) (dp : DiskPtr) (h : TidyHeap w.heap.heap)
    (hworld : r.world = .ok w) :
    (∀ filename modeStr ops r₁ r' w',
      OpenCloseRound (fat16World kernelAllocator disk dp) filename modeStr ops r r₁ r' →
      r'.world = .ok w' → w'.heap.heap ≠ w.heap.heap ∧
        (HoldsCopy r₁ → takenBlocks w.heap.heap ⊂ takenBlocks w'.heap.heap)) ∧
    (∀ n r' w', Rounds disk dp n r r' → r'.world = .ok w' →
      (takenBlocks w.heap.heap).card + n ≤ (takenBlocks w'.heap.heap).card) := by
  constructor
  · intro filename modeStr ops r₁ r' w' hround hworld'
    rcases hround.grows h hworld hworld' with ⟨root, k₁, -, hne, hcopied⟩
    refine ⟨hne, fun hcopy => ?_⟩
    rcases hcopied hcopy with ⟨hgrows, hnew⟩
    exact (hnew root.addr List.mem_cons_self).ssubset hgrows
  · intro n r' w' hrounds hworld'
    exact hrounds.card_le h hworld hworld'

/-! ## One round -/

/-- No file is open yet. -/
def bootFiles : FileRun (Except Fault (FatWorld KernelHeap)) :=
  initialFileRun (.ok ⟨bootMachine.heap, fun _ => none, fun _ => 0⟩)

/-- Reading in the file `0:/A` between its `fopen` and its `fclose`. -/
def plainFileOps : List FileOp := [.fseek 1 5 0, .fread 16384 1 2 1, .fstat 1]

/-- The file is opened on a copy of its entry. -/
lemma exists_plainFile_opened : ∃ r₁,
    fileStep (fat16World kernelAllocator plainFileDisk ⟨4096, 8192⟩) bootFiles
      (.fopen [0x30, 0x3A, 0x2F, 0x41] [0x72]) = some r₁ ∧ r₁.res = 1 ∧
    ∃ addr ptr e, ptr ≠ 0 ∧ r₁.openItem r₁.res = some ⟨addr, .item ptr e⟩ := by
  have hval : (fileStep (fat16World kernelAllocator plainFileDisk ⟨4096, 8192⟩) bootFiles
      (.fopen [0x30, 0x3A, 0x2F, 0x41] [0x72])).any (fun r₁ => r₁.res = 1 ∧
        (r₁.openItem r₁.res).any fun item =>
          item.payload.casesOn (fun ptr _ => decide (ptr ≠ 0)) fun _ _ => false) = true := by
    decide +kernel
  rcases Option.any_eq_true _ _ |>.mp hval with ⟨r₁, hstep, hr₁⟩
  rcases of_decide_eq_true hr₁ with ⟨hres, hitem⟩
  rcases Option.any_eq_true _ _ |>.mp hitem with ⟨⟨addr, payload⟩, hopened, hptr⟩
  refine ⟨r₁, hstep, hres, ?_⟩
  cases payload with
  | item ptr e => exact ⟨addr, ptr, e, of_decide_eq_true hptr, hopened⟩
  | directory ptr directory => cases hptr

/-- It is read and closed without a fault. -/
lemma exists_plainFile_closed :
    ∃ r' w', (fileStep (fat16World kernelAllocator plainFileDisk ⟨4096, 8192⟩) bootFiles
        (.fopen [0x30, 0x3A, 0x2F, 0x41] [0x72])).bind (fun r₁ =>
          run (fileStep (fat16World kernelAllocator plainFileDisk ⟨4096, 8192⟩)) r₁
            (plainFileOps ++ [.fclose 1])) = some r' ∧ r'.world = .ok w' := by
  have hval : ((fileStep (fat16World kernelAllocator plainFileDisk ⟨4096, 8192⟩) bootFiles
        (.fopen [0x30, 0x3A, 0x2F, 0x41] [0x72])).bind (fun r₁ =>
          run (fileStep (fat16World kernelAllocator plainFileDisk ⟨4096, 8192⟩)) r₁
            (plainFileOps ++ [.fclose 1]))).any (fun r' => r'.world.toOption.isSome) = true := by
    decide +kernel
  rcases Option.any_eq_true _ _ |>.mp hval with ⟨r', hrun, hr'⟩
  rcases Option.isSome_iff_exists.mp hr' with ⟨w', hw'⟩
  exact ⟨r', w', hrun, eq_ok_of_toOption hw'⟩

lemma exists_plainFile_round : ∃ r₁ r' w',
    OpenCloseRound (fat16World kernelAllocator plainFileDisk ⟨4096, 8192⟩)
      [0x30, 0x3A, 0x2F, 0x41] [0x72] plainFileOps bootFiles r₁ r' ∧ r'.world = .ok w' ∧
      ∃ addr ptr e, ptr ≠ 0 ∧ r₁.openItem r₁.res = some ⟨addr, .item ptr e⟩ := by
  rcases exists_plainFile_opened with ⟨r₁, hstep, hres, hitem⟩
  rcases exists_plainFile_closed with ⟨r', w', hrun, hworld'⟩
  rw [hstep, Option.bind_some, ← hres] at hrun
  refine ⟨r₁, r', w', ⟨hstep, by omega, ?_, hrun⟩, hworld', hitem⟩
  intro op hop
  unfold plainFileOps at hop
  simp only [List.mem_cons, List.not_mem_nil, or_false] at hop
  rcases hop with rfl | rfl | rfl <;> trivial

/-- The blocks of the path of `0:/A` stay taken. -/
theorem openClose_leaks_plainFile :
    ∃ (r' : FileRun (Except Fault (FatWorld KernelHeap))) (w' : FatWorld KernelHeap),
      r'.world = .ok w' ∧ takenBlocks bootMachine.heap.heap ⊂ takenBlocks w'.heap.heap := by
  rcases exists_plainFile_round with ⟨r₁, r', w', hround, hworld', addr, ptr, e, hptr, hitem⟩
  have hleaks := (openClose_leaks plainFileDisk ⟨4096, 8192⟩ bootMachine_owns.tidy
    (show bootFiles.world = .ok _ from rfl)).1 _ _ _ _ _ _ hround hworld'
  refine ⟨r', w', hworld', hleaks.2 fun addr' e' hnull => ?_⟩
  cases hitem.symm.trans hnull
  exact hptr rfl

/-- Not every open of a file followed by its close leaves the block table as it was. -/
theorem not_openClose_restores :
    ¬ ∀ (disk : Disk) (dp : DiskPtr) (filename modeStr : CString) (ops : List FileOp)
      (r r₁ r' : FileRun (Except Fault (FatWorld KernelHeap))) (w w' : FatWorld KernelHeap),
      TidyHeap w.heap.heap → r.world = .ok w →
      OpenCloseRound (fat16World kernelAllocator disk dp) filename modeStr ops r r₁ r' →
      (∃ addr ptr e, ptr ≠ 0 ∧ r₁.openItem r₁.res = some ⟨addr, .item ptr e⟩) →
      r'.world = .ok w' → SameTable w.heap.heap w'.heap.heap := by
  intro h
  rcases exists_plainFile_round with ⟨r₁, r', w', hround, hworld', hitem⟩
  have hsame := h plainFileDisk ⟨4096, 8192⟩ _ _ _ bootFiles r₁ r' _ w' bootMachine_owns.tidy rfl
    hround hitem hworld'
  rcases hround.grows bootMachine_owns.tidy rfl hworld' with ⟨root, k₁, -, -, hcopied⟩
  rcases hitem with ⟨addr, ptr, e, hptr, hitem⟩
  have hcopy : HoldsCopy r₁ := by
    intro addr' e' hnull
    cases hitem.symm.trans hnull
    exact hptr rfl
  rcases (hcopied hcopy).2 root.addr List.mem_cons_self with ⟨i, hi, hno, -⟩
  apply hno
  rw [mem_takenBlocks] at hi ⊢
  rw [hsame.1.2] at hi
  rw [← hsame.2 i hi.1]
  exact hi

end MarrowOS
