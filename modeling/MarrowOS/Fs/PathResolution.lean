import MarrowOS.Fs.FatDirectoryTheorems

/-!
# Path resolution

`resolvePath` is what a path names in a directory tree. `fat16_get_directory_entry` follows
it, except that it does not check the item it found before it looks at its type for the next
part: a part that is missing in the middle of the path is a read through a null pointer
(`fat16GetDirectoryEntry_iff`).
-/

namespace MarrowOS

open Fallible FirstSlot

/-! ## Directory trees -/

/-- The entry is that of a subdirectory. -/
def IsSubdirectory (item : FatDirectoryItem) : Prop := item.attribute &&& fatFileSubdirectory ≠ 0

instance (item : FatDirectoryItem) : Decidable (IsSubdirectory item) :=
  inferInstanceAs (Decidable (_ ≠ _))

/-- The first entry of the name. -/
def lookup (entries : List FatDirectoryItem) (name : CString) : Option FatDirectoryItem :=
  entries.find? fun e => Named name e

section Tree

variable (children : FatDirectoryItem → List FatDirectoryItem)

/-- What the parts name from the entry on: all entries but the last are subdirectories. -/
def resolveFrom : FatDirectoryItem → List CString → Option FatDirectoryItem
  | e, [] => some e
  | e, part :: parts =>
    if IsSubdirectory e then
      match lookup (children e) part with
      | none => none
      | some e' => resolveFrom e' parts
    else none

/-- What the path `part / nextParts` names in the tree below `root`. -/
def resolvePath (root : List FatDirectoryItem) (part : CString) (nextParts : List CString) :
    Option FatDirectoryItem :=
  match lookup root part with
  | none => none
  | some e => resolveFrom children e nextParts

/-- On the way down from the entry through subdirectories a part is missing, and more parts
follow it. -/
def MissesMidway : FatDirectoryItem → List CString → Prop
  | _, [] => False
  | e, part :: parts =>
    IsSubdirectory e ∧
      match lookup (children e) part with
      | none => parts ≠ []
      | some e' => MissesMidway e' parts

/-- A part of the path that is neither the first nor the last is missing below subdirectories. -/
def PathMissesMidway (root : List FatDirectoryItem) (part : CString)
    (nextParts : List CString) : Prop :=
  ∃ e, lookup root part = some e ∧ MissesMidway children e nextParts

end Tree

/-! ## The tree on the disk -/

/-- The directory was loaded with the given entries. -/
structure Holds (directory : FatDirectory) (entries : List FatDirectoryItem) : Prop where
  total : directory.total = entries.length
  items : directory.entries.take entries.length = entries

variable {σ : Type} {A : Allocator σ} {disk : Disk}
variable {children : FatDirectoryItem → List FatDirectoryItem}

/-- The subdirectory loads, with the given entries. -/
def LoadsAs (A : Allocator σ) (disk : Disk) (item : FatDirectoryItem)
    (entries : List FatDirectoryItem) : Prop :=
  ∀ s, ∃ ptr directory s', fat16LoadFatDirectory A disk item s = .ok ((ptr, directory), s') ∧
    ptr ≠ 0 ∧ Holds directory entries

/-- The subdirectories on the way from the entry on load, with their children as entries. -/
def DirectoriesLoad (A : Allocator σ) (disk : Disk)
    (children : FatDirectoryItem → List FatDirectoryItem) :
    FatDirectoryItem → List CString → Prop
  | e, [] => IsSubdirectory e → LoadsAs A disk e (children e)
  | e, part :: parts => IsSubdirectory e → LoadsAs A disk e (children e) ∧
      ∀ e', lookup (children e) part = some e' → DirectoriesLoad A disk children e' parts

lemma DirectoriesLoad.loadsAs {e : FatDirectoryItem} {parts : List CString}
    (h : DirectoriesLoad A disk children e parts) (hsub : IsSubdirectory e) :
    LoadsAs A disk e (children e) := by
  cases parts with
  | nil => exact h hsub
  | cons part parts => exact (h hsub).1

/-- The item was built for the entry. -/
def BuiltFor (children : FatDirectoryItem → List FatDirectoryItem) (item : FatItem)
    (e : FatDirectoryItem) : Prop :=
  if IsSubdirectory e then
    ∃ ptr directory, item.payload = .directory ptr directory ∧ ptr ≠ 0 ∧
      Holds directory (children e)
  else ∃ ptr, item.payload = .item ptr e ∧ ptr ≠ 0

/-- The pointer is to an item built for the entry that was found, null if none was. -/
def Returns (children : FatDirectoryItem → List FatDirectoryItem)
    (found : Option FatDirectoryItem) (result : Option FatItem) : Prop :=
  match found with
  | none => result = none
  | some e => ∃ item, result = some item ∧ BuiltFor children item e

/-! ## One directory -/

lemma fat16FindEntry_lookup {directory : FatDirectory} {entries : List FatDirectoryItem}
    (h : Holds directory entries) {name : CString} (hname : 0 ∉ name) :
    ∃ r, fat16FindEntry directory name = .ok r ∧ r.map Prod.snd = lookup entries name := by
  have hlen : entries.length ≤ directory.entries.length := by
    have hmin := congrArg List.length h.items
    rw [List.length_take] at hmin
    omega
  refine ⟨_, fat16FindEntry_eq h.total hlen name, ?_⟩
  rw [firstSlot_snd, h.items, lookup]
  congr 1
  funext e
  rw [Bool.eq_iff_iff, fat16ItemMatches_iff hname, decide_eq_true_iff]

/-- An item is built for every entry when allocation succeeds and subdirectories load. -/
lemma fat16NewFatItem_ok (halloc : ∀ n s, (A.kmalloc n s).1 ≠ 0) {e : FatDirectoryItem}
    (hload : IsSubdirectory e → LoadsAs A disk e (children e)) (s : σ) :
    ∃ item s', fat16NewFatItemForDirectoryItem A disk e s = .ok (some item, s') ∧
      BuiltFor children item e := by
  unfold fat16NewFatItemForDirectoryItem BuiltFor
  simp only [if_neg (halloc sizeofFatItem s)]
  by_cases hsub : IsSubdirectory e
  · obtain ⟨ptr, directory, s', hl, hptr, hholds⟩ :=
      hload hsub (A.kmalloc sizeofFatItem s).2
    simp only [if_pos hsub]
    rw [if_pos (show e.attribute &&& fatFileSubdirectory ≠ 0 from hsub), hl, ok_bind]
    exact ⟨_, s', rfl, ptr, directory, rfl, hptr, hholds⟩
  · simp only [if_neg hsub]
    rw [if_neg (show ¬ e.attribute &&& fatFileSubdirectory ≠ 0 from hsub)]
    exact ⟨_, _, rfl, _, rfl, halloc sizeofFatDirectoryItem _⟩

/-- One directory is searched for one part. -/
lemma fat16FindItemInDirectory_ok (halloc : ∀ n s, (A.kmalloc n s).1 ≠ 0)
    {directory : FatDirectory} {entries : List FatDirectoryItem} (h : Holds directory entries)
    {name : CString} (hname : 0 ∉ name)
    (hload : ∀ e, lookup entries name = some e → IsSubdirectory e →
      LoadsAs A disk e (children e)) (s : σ) :
    ∃ result s', fat16FindItemInDirectory A disk directory name s = .ok (result, s') ∧
      Returns children (lookup entries name) result := by
  obtain ⟨r, hr, hlookup⟩ := fat16FindEntry_lookup h hname
  unfold fat16FindItemInDirectory
  rw [hr, ok_bind, ← hlookup]
  cases r with
  | none => exact ⟨none, s, rfl, rfl⟩
  | some r =>
    obtain ⟨item, s', hnew, hbuilt⟩ :=
      fat16NewFatItem_ok halloc (hload r.2 hlookup.symm) s
    exact ⟨some item, s', hnew, item, rfl, hbuilt⟩

/-! ## The path -/

/-- In a subdirectory the loop goes on with what the search of its children returned. -/
lemma fat16GetDirectoryEntryLoop_step (halloc : ∀ n s, (A.kmalloc n s).1 ≠ 0)
    {e : FatDirectoryItem} {item : FatItem} (hbuilt : BuiltFor children item e)
    (hsub : IsSubdirectory e) {part : CString} {parts : List CString} (hpart : 0 ∉ part)
    (hload : DirectoriesLoad A disk children e (part :: parts)) (s : σ) :
    ∃ result s', Returns children (lookup (children e) part) result ∧
      fat16GetDirectoryEntryLoop A disk (some item) (part :: parts) s =
        fat16GetDirectoryEntryLoop A disk result parts s' := by
  unfold BuiltFor at hbuilt
  rw [if_pos hsub] at hbuilt
  obtain ⟨ptr, directory, hpayload, hptr, hholds⟩ := hbuilt
  obtain ⟨result, s', hfind, hreturns⟩ := fat16FindItemInDirectory_ok halloc hholds hpart
    (fun e' he' => ((hload hsub).2 e' he').loadsAs) s
  refine ⟨result, fat16FatItemFree A item s', hreturns, ?_⟩
  rw [fat16GetDirectoryEntryLoop, hpayload]
  simp only [if_neg hptr, hfind, ok_bind]

/-- Unless a part is missing midway, the loop returns what the parts name. -/
lemma fat16GetDirectoryEntryLoop_ok (halloc : ∀ n s, (A.kmalloc n s).1 ≠ 0) :
    ∀ (parts : List CString) (e : FatDirectoryItem) (item : FatItem) (s : σ),
      (∀ part ∈ parts, 0 ∉ part) → BuiltFor children item e →
      DirectoriesLoad A disk children e parts → ¬ MissesMidway children e parts →
      ∃ result s', fat16GetDirectoryEntryLoop A disk (some item) parts s = .ok (result, s') ∧
        Returns children (resolveFrom children e parts) result := by
  intro parts
  -- on the names that are left; the item is built for the entry the path has come to
  induction parts with
  | nil => exact fun e item s _ hbuilt _ _ => ⟨some item, s, rfl, item, rfl, hbuilt⟩
  | cons part parts ih =>
    intro e item s hparts hbuilt hload hmiss
    rw [resolveFrom]
    by_cases hsub : IsSubdirectory e
    · obtain ⟨result, s', hreturns, hstep⟩ := fat16GetDirectoryEntryLoop_step halloc hbuilt hsub
        (hparts part List.mem_cons_self) hload s
      rw [hstep, if_pos hsub]
      cases hfound : lookup (children e) part with
      | none =>
        -- the search returned null, and the loop must not look at it
        rw [hfound] at hreturns
        obtain rfl : result = none := hreturns
        have hlast : parts = [] := by
          by_contra hmore
          exact hmiss ⟨hsub, by rw [hfound]; exact hmore⟩
        rw [hlast]
        exact ⟨none, s', rfl, rfl⟩
      | some e' =>
        rw [hfound] at hreturns
        obtain ⟨item', rfl, hbuilt'⟩ := hreturns
        exact ih e' item' s' (fun p hp => hparts p (List.mem_cons_of_mem _ hp)) hbuilt'
          ((hload hsub).2 e' hfound) fun h => hmiss ⟨hsub, by rw [hfound]; exact h⟩
    · -- a plain file with parts behind it
      unfold BuiltFor at hbuilt
      rw [if_neg hsub] at hbuilt
      obtain ⟨ptr, hpayload, -⟩ := hbuilt
      rw [if_neg hsub, fat16GetDirectoryEntryLoop, hpayload]
      exact ⟨none, s, rfl, rfl⟩

/-- Where a part is missing midway, the loop reads the type of a null item. -/
lemma fat16GetDirectoryEntryLoop_null (halloc : ∀ n s, (A.kmalloc n s).1 ≠ 0) :
    ∀ (parts : List CString) (e : FatDirectoryItem) (item : FatItem) (s : σ),
      (∀ part ∈ parts, 0 ∉ part) → BuiltFor children item e →
      DirectoriesLoad A disk children e parts → MissesMidway children e parts →
      fat16GetDirectoryEntryLoop A disk (some item) parts s = .error .nullPointer := by
  intro parts
  induction parts with
  | nil => exact fun _ _ _ _ _ _ hmiss => absurd hmiss id
  | cons part parts ih =>
    intro e item s hparts hbuilt hload hmiss
    obtain ⟨hsub, hmiss⟩ := hmiss
    obtain ⟨result, s', hreturns, hstep⟩ := fat16GetDirectoryEntryLoop_step halloc hbuilt hsub
      (hparts part List.mem_cons_self) hload s
    rw [hstep]
    cases hfound : lookup (children e) part with
    | none =>
      rw [hfound] at hreturns hmiss
      obtain rfl : result = none := hreturns
      obtain ⟨next, rest, rfl⟩ := List.exists_cons_of_ne_nil hmiss
      rfl
    | some e' =>
      rw [hfound] at hreturns hmiss
      obtain ⟨item', rfl, hbuilt'⟩ := hreturns
      exact ih e' item' s' (fun p hp => hparts p (List.mem_cons_of_mem _ hp)) hbuilt'
        ((hload hsub).2 e' hfound) hmiss

/-- **Path resolution.** The item the path names is returned, and null if it names none,
exactly when no part in the middle of the path is missing below subdirectories. -/
theorem fat16GetDirectoryEntry_iff (halloc : ∀ n s, (A.kmalloc n s).1 ≠ 0)
    {root : List FatDirectoryItem} (hroot : Holds disk.fsPrivate.rootDirectory root)
    {part : CString} {nextParts : List CString} (hparts : ∀ p ∈ part :: nextParts, 0 ∉ p)
    (hload : ∀ e, lookup root part = some e → DirectoriesLoad A disk children e nextParts)
    (s : σ) :
    (∃ result s', fat16GetDirectoryEntry A disk part nextParts s = .ok (result, s') ∧
      Returns children (resolvePath children root part nextParts) result) ↔
        ¬ PathMissesMidway children root part nextParts := by
  obtain ⟨result, s', hfind, hreturns⟩ := fat16FindItemInDirectory_ok halloc hroot
    (hparts part List.mem_cons_self) (fun e he => (hload e he).loadsAs) s
  have hnext : ∀ p ∈ nextParts, 0 ∉ p := fun p hp => hparts p (List.mem_cons_of_mem _ hp)
  unfold fat16GetDirectoryEntry PathMissesMidway resolvePath
  rw [hfind, ok_bind]
  -- the first name is looked up in the root directory
  cases hfound : lookup root part with
  | none =>
    rw [hfound] at hreturns
    obtain rfl : result = none := hreturns
    exact iff_of_true ⟨none, s', rfl, rfl⟩ fun ⟨e, he, _⟩ => by cases he
  | some e =>
    rw [hfound] at hreturns
    obtain ⟨item, rfl, hbuilt⟩ := hreturns
    by_cases hmiss : MissesMidway children e nextParts
    · refine iff_of_false ?_ fun h => h ⟨e, rfl, hmiss⟩
      rintro ⟨result, s'', hrun, -⟩
      have hnull := fat16GetDirectoryEntryLoop_null halloc nextParts e item s' hnext hbuilt
        (hload e hfound) hmiss
      cases hnull.symm.trans hrun
    · refine iff_of_true ?_ ?_
      · exact fat16GetDirectoryEntryLoop_ok halloc nextParts e item s' hnext hbuilt
          (hload e hfound) hmiss
      · rintro ⟨e', he', hmiss'⟩
        obtain rfl := Option.some.inj he'
        exact hmiss hmiss'

/-! ## A small tree -/

/-- The entry of the subdirectory `A`, whose table is in sector 3. -/
def emptyDirectoryEntry : FatDirectoryItem :=
  ⟨.ofFn fun i => if i = 0 then 0x41 else 0x20, .replicate 3 0x20, 0x10, 0, 2, 0⟩

/-- A volume with the empty subdirectory `A` in its root. -/
def emptyDirectoryDisk : Disk where
  device.sector _ _ := 0
  fsPrivate :=
    { header := ⟨1, 1, 1, 16, 1⟩
      rootDirectory := ⟨4096, [emptyDirectoryEntry], 1, 2, 3⟩ }

lemma emptyDirectoryDisk_holds :
    Holds emptyDirectoryDisk.fsPrivate.rootDirectory [emptyDirectoryEntry] := ⟨rfl, rfl⟩

lemma constAllocator_kmalloc_ne (n : ℕ) (s : Unit) : (constAllocator.kmalloc n s).1 ≠ 0 :=
  (by decide : (4096 : ℕ) ≠ 0)

lemma emptyDirectoryEntry_loadsAs :
    LoadsAs constAllocator emptyDirectoryDisk emptyDirectoryEntry [] := by
  intro s
  have hval : (fat16LoadFatDirectory constAllocator emptyDirectoryDisk emptyDirectoryEntry
      ()).toOption.map (·.1) = some (4096, ⟨4096, [], 0, 0, 0⟩) := by decide +kernel
  rcases exists_ok_of_toOption_map hval with ⟨⟨⟨ptr, directory⟩, s'⟩, hrun, heq⟩
  rcases Prod.mk.inj heq with ⟨hptr, hdirectory⟩
  refine ⟨ptr, directory, s', hrun, ?_, ?_⟩
  · rw [hptr]
    decide
  · rw [hdirectory]
    exact ⟨rfl, rfl⟩

/-- `0:/A/B` names nothing, and null is returned. -/
theorem fat16GetDirectoryEntry_missing_last :
    ∃ result s', fat16GetDirectoryEntry constAllocator emptyDirectoryDisk [0x41] [[0x42]] () =
        .ok (result, s') ∧
      Returns (fun _ => [])
        (resolvePath (fun _ => []) [emptyDirectoryEntry] [0x41] [[0x42]]) result := by
  refine (fat16GetDirectoryEntry_iff constAllocator_kmalloc_ne emptyDirectoryDisk_holds (by decide)
    ?_ ()).mpr ?_
  · intro e he
    obtain rfl : emptyDirectoryEntry = e := Option.some.inj he
    exact fun _ => ⟨emptyDirectoryEntry_loadsAs, fun e' he' => by cases he'⟩
  · rintro ⟨e, he, -, hmiss⟩
    exact hmiss rfl

/-- `0:/A/B/C` makes the driver read the type of a null item. -/
theorem fat16GetDirectoryEntry_missing_middle :
    ¬ ∀ (σ : Type) (A : Allocator σ) (disk : Disk)
      (children : FatDirectoryItem → List FatDirectoryItem) (root : List FatDirectoryItem)
      (part : CString) (nextParts : List CString) (s : σ),
      (∀ n s, (A.kmalloc n s).1 ≠ 0) → Holds disk.fsPrivate.rootDirectory root →
      (∀ p ∈ part :: nextParts, 0 ∉ p) →
      (∀ e, lookup root part = some e → DirectoriesLoad A disk children e nextParts) →
      ∃ result s', fat16GetDirectoryEntry A disk part nextParts s = .ok (result, s') ∧
        Returns children (resolvePath children root part nextParts) result := by
  intro h
  obtain ⟨result, s', hrun, -⟩ := h Unit constAllocator emptyDirectoryDisk (fun _ => [])
    [emptyDirectoryEntry] [0x41] [[0x42], [0x43]] () constAllocator_kmalloc_ne
    emptyDirectoryDisk_holds (by decide) fun e he => by
      obtain rfl : emptyDirectoryEntry = e := Option.some.inj he
      exact fun _ => ⟨emptyDirectoryEntry_loadsAs, fun e' he' => by cases he'⟩
  have hfault : (fat16GetDirectoryEntry constAllocator emptyDirectoryDisk [0x41]
      [[0x42], [0x43]] ()).toOption = none := by decide +kernel
  rw [hrun] at hfault
  cases hfault

end MarrowOS
