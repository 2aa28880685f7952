import MarrowOS.Fs.FatFiles
import MarrowOS.Fs.ItemBlocks

/-!
# Opens that fail

On the way down a path `fat16_get_directory_entry` holds one item, and frees it when it goes on to
the next. It does not free it when it stops at a file with parts still to come: an open that fails
leaks nothing exactly when it fails at the first part, or at the last one below subdirectories
(`failsClean_iff`).
-/

namespace MarrowOS

open CInt Extents Fallible

/-! ## Ways to fail -/

section Tree

variable (children : FatDirectoryItem → List FatDirectoryItem)

/-- On the way down from the entry there is a file with parts still to come. -/
def StopsAtFile : FatDirectoryItem → List CString → Prop
  | _, [] => False
  | e, part :: parts =>
    if IsSubdirectory e then ∃ e', lookup (children e) part = some e' ∧ StopsAtFile e' parts
    else True

/-- A part of the path that is not the last one names a file. -/
def PathStopsAtFile (root : List FatDirectoryItem) (part : CString) (nextParts : List CString) :
    Prop :=
  ∃ e, lookup root part = some e ∧ StopsAtFile children e nextParts

end Tree

/-! ## The requests on the way -/

/-- With the item for the entry at hand, the items on the way down are all built. -/
def WayGranted (disk : Disk) (children : FatDirectoryItem → List FatDirectoryItem) :
    FatDirectoryItem → FatItem → List CString → KernelHeap → Prop
  | _, _, [], _ => True
  | e, item, part :: parts, k => IsSubdirectory e → ∀ e', lookup (children e) part = some e' →
    ∃ item' k', Builds disk children e' k item' k' ∧
      WayGranted disk children e' item' parts (fat16FatItemFree kernelAllocator item k')

/-- Every request of an open is granted, and every subdirectory on the way is read. -/
structure PathGranted (disk : Disk) (children : FatDirectoryItem → List FatDirectoryItem)
    (root : List FatDirectoryItem) (part : CString) (nextParts : List CString) (k : KernelHeap) :
    Prop where
  descriptor : (kernelAllocator.kmalloc sizeofFatFileDescriptor k).1 ≠ 0
  way : ∀ e, lookup root part = some e → ∃ item k',
    Builds disk children e (kernelAllocator.kmalloc sizeofFatFileDescriptor k).2 item k' ∧
      WayGranted disk children e item nextParts k'

/-! ## One step down -/

variable {disk : Disk} {children : FatDirectoryItem → List FatDirectoryItem}
  {root : List FatDirectoryItem} {live rest : List Alloc} {e e' : FatDirectoryItem}
  {item : FatItem} {part : CString} {parts : List CString} {k : KernelHeap}

/-- The walk stands at the item for the entry, and holds nothing else. -/
structure StandsAt (disk : Disk) (children : FatDirectoryItem → List FatDirectoryItem)
    (rest : List Alloc) (e : FatDirectoryItem) (item : FatItem) (parts : List CString)
    (k : KernelHeap) : Prop where
  names : ∀ part ∈ parts, 0 ∉ part
  built : BuiltFor children item e
  owned : ItemOwned k.heap rest item
  granted : WayGranted disk children e item parts k

/-- At a file with parts still to come the walk returns null and frees nothing. -/
lemma StandsAt.file (h : StandsAt disk children rest e item (part :: parts) k)
    (hsub : ¬ IsSubdirectory e) :
    fat16GetDirectoryEntryLoop kernelAllocator disk (some item) (part :: parts) k =
      .ok (none, k) := by
  have hbuilt := h.built
  unfold BuiltFor at hbuilt
  rw [if_neg hsub] at hbuilt
  rcases hbuilt with ⟨ptr, hpayload, -⟩
  rw [fat16GetDirectoryEntryLoop, hpayload]
  rfl

/-- In a subdirectory the walk searches the children and frees the item. -/
lemma StandsAt.search (h : StandsAt disk children rest e item (part :: parts) k)
    (hsub : IsSubdirectory e) :
    ∃ ptr directory, item.payload = .directory ptr directory ∧ Holds directory (children e) ∧
      fat16GetDirectoryEntryLoop kernelAllocator disk (some item) (part :: parts) k = (do
        let (tmpItem, k') ← fat16FindItemInDirectory kernelAllocator disk directory part k
        fat16GetDirectoryEntryLoop kernelAllocator disk tmpItem parts
          (fat16FatItemFree kernelAllocator item k')) := by
  have hbuilt := h.built
  unfold BuiltFor at hbuilt
  rw [if_pos hsub] at hbuilt
  rcases hbuilt with ⟨ptr, directory, hpayload, hptr, hholds⟩
  refine ⟨ptr, directory, hpayload, hholds, ?_⟩
  rw [fat16GetDirectoryEntryLoop, hpayload]
  simp only [if_neg hptr]

/-- The search of one directory. -/
lemma fat16FindItemInDirectory_eq {σ : Type} {A : Allocator σ} {directory : FatDirectory}
    {entries : List FatDirectoryItem} (hholds : Holds directory entries) (hpart : 0 ∉ part)
    (s : σ) :
    fat16FindItemInDirectory A disk directory part s =
      match lookup entries part with
      | none => .ok (none, s)
      | some e => fat16NewFatItemForDirectoryItem A disk e s := by
  rcases fat16FindEntry_lookup hholds hpart with ⟨r, hr, hlookup⟩
  unfold fat16FindItemInDirectory
  rw [hr, ok_bind, ← hlookup]
  cases r <;> rfl

/-- A part that is missing: the item is freed, and the walk goes on with null. -/
lemma StandsAt.missing (h : StandsAt disk children rest e item (part :: parts) k)
    (hsub : IsSubdirectory e) (hlookup : lookup (children e) part = none) :
    ∃ k', fat16GetDirectoryEntryLoop kernelAllocator disk (some item) (part :: parts) k =
        fat16GetDirectoryEntryLoop kernelAllocator disk none parts k' ∧
      HeapOwns k'.heap rest ∧ SamePool k.heap k'.heap := by
  rcases h.search hsub with ⟨ptr, directory, -, hholds, hloop⟩
  refine ⟨fat16FatItemFree kernelAllocator item k, ?_, h.owned.free⟩
  rw [hloop, fat16FindItemInDirectory_eq hholds (h.names part List.mem_cons_self), hlookup]
  rfl

/-- A part that is there: the walk stands at the item for it. -/
lemma StandsAt.step (h : StandsAt disk children rest e item (part :: parts) k)
    (hsub : IsSubdirectory e) (hlookup : lookup (children e) part = some e') :
    ∃ item' k', fat16GetDirectoryEntryLoop kernelAllocator disk (some item) (part :: parts) k =
        fat16GetDirectoryEntryLoop kernelAllocator disk (some item') parts k' ∧
      StandsAt disk children rest e' item' parts k' ∧ SamePool k.heap k'.heap := by
  rcases h.search hsub with ⟨ptr, directory, hpayload, hholds, hloop⟩
  rcases h.granted hsub e' hlookup with ⟨item', k', hbuilds, hgranted⟩
  have hold := h.owned.array ptr directory hpayload
  -- a directory in which something is found has an array of its own
  have htotal : directory.total ≠ 0 := by
    intro hzero
    have hlength : children e = [] := by
      have htotal := hholds.total
      rw [hzero] at htotal
      exact List.length_eq_zero_iff.mp (by omega)
    rw [hlength] at hlookup
    cases hlookup
  rcases hbuilds.owned h.owned.owns with ⟨hnew, hsame⟩
  have hfree := ItemOwned.free_other hnew fun ptr' directory' hpayload' => by
    rw [hpayload] at hpayload'
    cases hpayload'
    exact ⟨hold.array, hold.nonneg, hold.bound, fun hzero => absurd hzero htotal⟩
  refine ⟨item', _, ?_, ⟨?_, hbuilds.built, hfree.1, hgranted⟩, hsame.trans hfree.2⟩
  · rw [hloop, fat16FindItemInDirectory_eq hholds (h.names part List.mem_cons_self), hlookup]
    simp only [hbuilds.run, ok_bind]
  · exact fun p hp => h.names p (List.mem_cons_of_mem _ hp)

/-! ## The walk -/

/-- A walk that stops at a file returns null and leaves an item behind. -/
lemma StandsAt.run_file : ∀ (parts : List CString) (e : FatDirectoryItem) (item : FatItem)
    (k : KernelHeap), StandsAt disk children rest e item parts k → StopsAtFile children e parts →
    ∃ k' left, fat16GetDirectoryEntryLoop kernelAllocator disk (some item) parts k =
        .ok (none, k') ∧ left ≠ [] ∧ HeapOwns k'.heap (left ++ rest) ∧ SamePool k.heap k'.heap := by
  intro parts
  induction parts with
  | nil => exact fun _ _ _ _ hstops => absurd hstops id
  | cons part parts ih =>
    intro e item k h hstops
    by_cases hsub : IsSubdirectory e
    · unfold StopsAtFile at hstops
      rw [if_pos hsub] at hstops
      rcases hstops with ⟨e', hlookup, hstops⟩
      rcases h.step hsub hlookup with ⟨item', k₁, hloop, hnext, hsame⟩
      rcases ih e' item' k₁ hnext hstops with ⟨k', left, hrun, hleft, hown, hsame'⟩
      exact ⟨k', left, hloop.trans hrun, hleft, hown, hsame.trans hsame'⟩
    · refine ⟨k, item.blocks, h.file hsub, ?_, h.owned.owns, SamePool.refl _⟩
      exact List.append_ne_nil_of_right_ne_nil _ (List.cons_ne_nil _ _)

/-- A walk that misses a part in the middle ends in a fault. -/
lemma StandsAt.run_midway : ∀ (parts : List CString) (e : FatDirectoryItem) (item : FatItem)
    (k : KernelHeap), StandsAt disk children rest e item parts k → MissesMidway children e parts →
    fat16GetDirectoryEntryLoop kernelAllocator disk (some item) parts k =
      .error .nullPointer := by
  intro parts
  induction parts with
  | nil => exact fun _ _ _ _ hmiss => absurd hmiss id
  | cons part parts ih =>
    intro e item k h hmiss
    rcases hmiss with ⟨hsub, hmiss⟩
    cases hlookup : lookup (children e) part with
    | none =>
      rw [hlookup] at hmiss
      rcases h.missing hsub hlookup with ⟨k', hloop, -⟩
      rcases List.exists_cons_of_ne_nil hmiss with ⟨next, rest', hparts⟩
      rw [hloop, hparts]
      rfl
    | some e' =>
      rw [hlookup] at hmiss
      rcases h.step hsub hlookup with ⟨item', k₁, hloop, hnext, -⟩
      rw [hloop]
      exact ih e' item' k₁ hnext hmiss

/-- Any other walk to nothing returns null and leaves nothing behind. -/
lemma StandsAt.run_last : ∀ (parts : List CString) (e : FatDirectoryItem) (item : FatItem)
    (k : KernelHeap), StandsAt disk children rest e item parts k →
    resolveFrom children e parts = none → ¬ MissesMidway children e parts →
    ¬ StopsAtFile children e parts →
    ∃ k', fat16GetDirectoryEntryLoop kernelAllocator disk (some item) parts k = .ok (none, k') ∧
      HeapOwns k'.heap rest ∧ SamePool k.heap k'.heap := by
  intro parts
  induction parts with
  | nil =>
    intro e item k _ hnone
    cases hnone
  | cons part parts ih =>
    intro e item k h hnone hmiss hstops
    unfold StopsAtFile at hstops
    by_cases hsub : IsSubdirectory e
    swap
    · rw [if_neg hsub] at hstops
      exact absurd trivial hstops
    rw [if_pos hsub] at hstops
    unfold resolveFrom at hnone
    rw [if_pos hsub] at hnone
    cases hlookup : lookup (children e) part with
    | none =>
      have hlast : parts = [] := by
        by_contra hne
        apply hmiss
        refine ⟨hsub, ?_⟩
        rw [hlookup]
        exact hne
      rcases h.missing hsub hlookup with ⟨k', hloop, hown, hsame⟩
      rw [hlast] at hloop
      rw [hlast]
      exact ⟨k', hloop, hown, hsame⟩
    | some e' =>
      rw [hlookup] at hnone
      rcases h.step hsub hlookup with ⟨item', k₁, hloop, hnext, hsame⟩
      have hrest := ih e' item' k₁ hnext hnone
        (fun h' => hmiss ⟨hsub, by rw [hlookup]; exact h'⟩)
        (fun h' => hstops ⟨e', hlookup, h'⟩)
      rcases hrest with ⟨k', hrun, hown, hsame'⟩
      exact ⟨k', hloop.trans hrun, hown, hsame.trans hsame'⟩

/-! ## The open -/

/-- The open fails with the heap's block table as it was. -/
def FailsClean (disk : Disk) (path : List PathPart) (k : KernelHeap) : Prop :=
  ∃ ptr k', fat16Open kernelAllocator disk path .read k = .ok ((ptr, none), k') ∧
    SameTable k.heap k'.heap

variable {nextParts : List PathPart} {first : PathPart}

/-- An open whose walk returns null. -/
lemma fat16Open_of_none {k₁ : KernelHeap}
    (hdescriptor : (kernelAllocator.kmalloc sizeofFatFileDescriptor k).1 ≠ 0)
    (hentry : fat16GetDirectoryEntry kernelAllocator disk first.part (nextParts.map PathPart.part)
      (kernelAllocator.kmalloc sizeofFatFileDescriptor k).2 = .ok (none, k₁)) :
    fat16Open kernelAllocator disk (first :: nextParts) .read k =
      .ok ((u32 (-eio), none),
        kernelAllocator.kfree (kernelAllocator.kmalloc sizeofFatFileDescriptor k).1 k₁) := by
  unfold fat16Open
  rw [if_neg (not_not.mpr rfl)]
  simp only [if_neg hdescriptor]
  rw [hentry]
  rfl

/-- The walk of a path whose first part is there. -/
lemma fat16GetDirectoryEntry_of_some {σ : Type} {A : Allocator σ} {s s' : σ}
    {names : List CString} (hroot : Holds disk.fsPrivate.rootDirectory root) (hpart : 0 ∉ part)
    (hlookup : lookup root part = some e)
    (hnew : fat16NewFatItemForDirectoryItem A disk e s = .ok (some item, s')) :
    fat16GetDirectoryEntry A disk part names s =
      fat16GetDirectoryEntryLoop A disk (some item) names s' := by
  unfold fat16GetDirectoryEntry
  rw [fat16FindItemInDirectory_eq hroot hpart, hlookup]
  simp only [hnew, ok_bind]

/-- **Failed opens.** When the path names nothing and every request on the way is granted, the open
fails with the block table as it was exactly when no part of the path is missing in the middle of
it, and no part but the last names a file. -/
theorem failsClean_iff (h : HeapOwns k.heap live)
    (hroot : Holds disk.fsPrivate.rootDirectory root)
    (hparts : ∀ p ∈ first :: nextParts, 0 ∉ p.part)
    (hnone : resolvePath children root first.part (nextParts.map PathPart.part) = none)
    (hgranted : PathGranted disk children root first.part (nextParts.map PathPart.part) k) :
    FailsClean disk (first :: nextParts) k ↔
      ¬ PathMissesMidway children root first.part (nextParts.map PathPart.part) ∧
        ¬ PathStopsAtFile children root first.part (nextParts.map PathPart.part) := by
  have hfirst := hparts first List.mem_cons_self
  rcases h.kmalloc_fixed (by decide) (by decide) hgranted.descriptor with ⟨hdescriptor, hsame⟩
  -- an open whose walk returns null with the blocks `left` still taken
  have hopen : ∀ {k₁ : KernelHeap} {left : List Alloc},
      fat16GetDirectoryEntry kernelAllocator disk first.part (nextParts.map PathPart.part)
        (kernelAllocator.kmalloc sizeofFatFileDescriptor k).2 = .ok (none, k₁) →
      HeapOwns k₁.heap (left ++
        ⟨(kernelAllocator.kmalloc sizeofFatFileDescriptor k).1, sizeofFatFileDescriptor⟩ :: live) →
      SamePool k.heap k₁.heap → (FailsClean disk (first :: nextParts) k ↔ left = []) := by
    intro k₁ left hentry hown hpool
    have hrun := fat16Open_of_none hgranted.descriptor hentry
    have hfree := HeapOwns.heapFree_head (hown.perm List.perm_middle)
    constructor
    · rintro ⟨ptr, k', hrun', htable⟩
      rw [hrun] at hrun'
      rw [← (Prod.mk.inj (Except.ok.inj hrun')).2] at htable
      by_contra hleft
      exact h.not_sameTable hfree hleft htable
    · intro hleft
      rw [hleft] at hfree
      exact ⟨_, _, hrun, h.sameTable hfree (hpool.trans (heapFree_samePool _ _))⟩
  unfold PathMissesMidway PathStopsAtFile
  unfold resolvePath at hnone
  cases hlookup : lookup root first.part with
  | none =>
    have hentry : fat16GetDirectoryEntry kernelAllocator disk first.part
        (nextParts.map PathPart.part) (kernelAllocator.kmalloc sizeofFatFileDescriptor k).2 =
        .ok (none, (kernelAllocator.kmalloc sizeofFatFileDescriptor k).2) := by
      unfold fat16GetDirectoryEntry
      rw [fat16FindItemInDirectory_eq hroot hfirst, hlookup]
      rfl
    refine iff_of_true ((@hopen _ [] hentry hdescriptor hsame).mpr rfl) ⟨?_, ?_⟩
    · rintro ⟨e, he, -⟩
      cases he
    · rintro ⟨e, he, -⟩
      cases he
  | some e =>
    rw [hlookup] at hnone
    rcases hgranted.way e hlookup with ⟨item, k₂, hbuilds, hway⟩
    rcases hbuilds.owned hdescriptor with ⟨howned, hsame'⟩
    have hwalk := @fat16GetDirectoryEntry_of_some disk root e item first.part _ _ _ _
      (nextParts.map PathPart.part) hroot hfirst hlookup hbuilds.run
    have hnames : ∀ part ∈ nextParts.map PathPart.part, 0 ∉ part := by
      intro part hpart
      rcases List.mem_map.mp hpart with ⟨p, hp, hpart⟩
      rw [← hpart]
      exact hparts p (List.mem_cons_of_mem _ hp)
    have hstands : StandsAt disk children _ e item (nextParts.map PathPart.part) k₂ :=
      ⟨hnames, hbuilds.built, howned, hway⟩
    simp only [Option.some.injEq, exists_eq_left']
    by_cases hmiss : MissesMidway children e (nextParts.map PathPart.part)
    · refine iff_of_false ?_ fun hno => hno.1 hmiss
      rintro ⟨ptr, k', hrun, -⟩
      have hfault := hwalk.trans (hstands.run_midway _ _ _ _ hmiss)
      unfold fat16Open at hrun
      rw [if_neg (not_not.mpr rfl)] at hrun
      simp only [if_neg hgranted.descriptor] at hrun
      rw [hfault] at hrun
      cases hrun
    by_cases hstops : StopsAtFile children e (nextParts.map PathPart.part)
    · rcases hstands.run_file _ _ _ _ hstops with ⟨k', left, hrun, hleft, hown, hpool⟩
      refine iff_of_false ?_ fun hno => hno.2 hstops
      intro hclean
      exact hleft ((hopen (hwalk.trans hrun) hown (hsame.trans (hsame'.trans hpool))).mp hclean)
    · rcases hstands.run_last _ _ _ _ hnone hmiss hstops with ⟨k', hrun, hown, hpool⟩
      refine iff_of_true ?_ ⟨hmiss, hstops⟩
      exact (@hopen _ [] (hwalk.trans hrun) hown (hsame.trans (hsame'.trans hpool))).mpr rfl

/-! ## A volume with one file -/

/-- A volume with the file `A` in its root. -/
def plainFileDisk : Disk where
  device.sector _ _ := 0
  fsPrivate :=
    { header := ⟨1, 1, 1, 16, 1⟩
      rootDirectory := ⟨4096, [plainFileEntry], 1, 2, 3⟩ }

lemma plainFileDisk_holds : Holds plainFileDisk.fsPrivate.rootDirectory [plainFileEntry] :=
  ⟨rfl, rfl⟩

lemma bootMachine_kmalloc_descriptor :
    (kernelAllocator.kmalloc sizeofFatFileDescriptor bootMachine.heap).1 ≠ 0 := by
  decide +kernel

/-- `0:/B` is not there. -/
theorem failsClean_missing :
    FailsClean plainFileDisk [⟨8192, 12288, [0x42]⟩] bootMachine.heap := by
  have hgranted : PathGranted plainFileDisk (fun _ => []) [plainFileEntry] [0x42] []
      bootMachine.heap := ⟨bootMachine_kmalloc_descriptor, fun e he => by cases he⟩
  apply (failsClean_iff bootMachine_owns plainFileDisk_holds (by decide) rfl hgranted).mpr
  constructor
  · rintro ⟨e, he, -⟩
    cases he
  · rintro ⟨e, he, -⟩
    cases he

/-- `0:/A/B` leaves the item for `A` behind. -/
theorem not_failsClean_file :
    ¬ ∀ (disk : Disk) (children : FatDirectoryItem → List FatDirectoryItem)
      (root : List FatDirectoryItem) (first : PathPart) (nextParts : List PathPart)
      (k : KernelHeap) (live : List Alloc), HeapOwns k.heap live →
      Holds disk.fsPrivate.rootDirectory root → (∀ p ∈ first :: nextParts, 0 ∉ p.part) →
      resolvePath children root first.part (nextParts.map PathPart.part) = none →
      PathGranted disk children root first.part (nextParts.map PathPart.part) k →
      FailsClean disk (first :: nextParts) k := by
  intro h
  have hgranted : PathGranted plainFileDisk (fun _ => []) [plainFileEntry] [0x41] [[0x42]]
      bootMachine.heap := by
    refine ⟨bootMachine_kmalloc_descriptor, fun e he => ?_⟩
    rw [← Option.some.inj (show some plainFileEntry = some e from he)]
    have hsub : ¬ IsSubdirectory plainFileEntry := by decide
    refine ⟨_, _, ⟨fat16NewFatItem_file hsub (by decide +kernel), ?_,
      fun hsub' => absurd hsub' hsub⟩, fun hsub' => absurd hsub' hsub⟩
    unfold BuiltFor
    rw [if_neg hsub]
    exact ⟨_, rfl, by decide +kernel⟩
  have hclean := h plainFileDisk (fun _ => []) [plainFileEntry] ⟨8192, 12288, [0x41]⟩
    [⟨16384, 20480, [0x42]⟩] bootMachine.heap [] bootMachine_owns plainFileDisk_holds (by decide)
    rfl hgranted
  have hno := (failsClean_iff bootMachine_owns plainFileDisk_holds (by decide) rfl
    hgranted).mp hclean
  exact hno.2 ⟨plainFileEntry, rfl, trivial⟩

end MarrowOS
