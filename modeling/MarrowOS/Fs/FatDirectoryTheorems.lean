import MarrowOS.Fs.FatDirectory
import MarrowOS.Lib.Fallible
import MarrowOS.Lib.FirstSlot
import MarrowOS.Lib.Slice
import Mathlib.Data.List.Range
import Mathlib.Tactic.Ring

/-!
# What directory lookup finds

Counting skips deleted slots, but the array keeps every slot and the search visits the first
slots up to the count. `fat16GetRootDirectory_ok` says what is counted and loaded,
`fat16FindEntry_eq` what is found, and `fat16FindEntry_exact_iff` when that is the first live
entry of the name.
-/

namespace MarrowOS

open CInt Fallible FirstSlot Slice

/-! ## Names -/

/-- The rendered name of the entry is `name`, up to case. -/
def Named (name : CString) (item : FatDirectoryItem) : Prop :=
  (fat16GetFullRelativeFilename item).map tolower = name.map tolower

instance (name : CString) (item : FatDirectoryItem) : Decidable (Named name item) :=
  inferInstanceAs (Decidable (_ = _))

lemma not_mem_fat16ToProperString (bytes : List UInt8) : 0 ∉ fat16ToProperString bytes := by
  induction bytes with
  | nil => exact List.not_mem_nil
  | cons b bytes ih =>
    rw [fat16ToProperString]
    split
    · rename_i hb
      exact List.not_mem_cons_of_ne_of_not_mem hb.1.symm ih
    · exact List.not_mem_nil

lemma length_fat16ToProperString_le (bytes : List UInt8) :
    (fat16ToProperString bytes).length ≤ bytes.length := by
  induction bytes with
  | nil => exact le_rfl
  | cons b bytes ih =>
    rw [fat16ToProperString]
    split
    · exact Nat.succ_le_succ ih
    · exact Nat.zero_le _

lemma not_mem_fat16GetFullRelativeFilename (item : FatDirectoryItem) :
    0 ∉ fat16GetFullRelativeFilename item := by
  unfold fat16GetFullRelativeFilename
  simp only
  split
  · rw [List.mem_append, List.mem_cons]
    rintro (h | h | h)
    · exact not_mem_fat16ToProperString _ h
    · exact absurd h (by decide)
    · exact not_mem_fat16ToProperString _ h
  · exact not_mem_fat16ToProperString _

/-- A rendered name has at most 12 characters. -/
lemma length_fat16GetFullRelativeFilename_le (item : FatDirectoryItem) :
    (fat16GetFullRelativeFilename item).length ≤ 12 := by
  have hname := length_fat16ToProperString_le item.filename.toList
  have hext := length_fat16ToProperString_le item.ext.toList
  rw [Vector.length_toList] at hname hext
  unfold fat16GetFullRelativeFilename
  simp only
  split
  · rw [List.length_append, List.length_cons]
    omega
  · omega

/-- The test of the search is the comparison of the whole names up to case. -/
lemma fat16ItemMatches_iff {name : CString} (hname : 0 ∉ name) (item : FatDirectoryItem) :
    fat16ItemMatches name item = true ↔ Named name item := by
  have hlen := length_fat16GetFullRelativeFilename_le item
  unfold fat16ItemMatches Named
  rw [decide_eq_true_iff]
  exact istrncmp_eq_zero_iff (not_mem_fat16GetFullRelativeFilename item) hname
    (by simp only [marrowosMaxPath]; omega)

/-! ## The search -/

lemma fat16FindEntryLoop_eq {entries : List FatDirectoryItem} (name : CString) :
    ∀ n i : ℕ, i + n ≤ entries.length →
      fat16FindEntryLoop entries name n i =
        .ok ((firstSlot (fat16ItemMatches name) ((entries.drop i).take n)).map fun r =>
          (i + r.1, r.2)) := by
  intro n
  induction n with
  | zero => exact fun _ _ => rfl
  | succ n ih =>
    intro i hi
    have hlt : i < entries.length := by omega
    rw [fat16FindEntryLoop, List.getElem?_eq_getElem hlt, List.drop_eq_getElem_cons hlt,
      List.take_succ_cons, firstSlot]
    simp only
    split
    · rfl
    · rw [ih (i + 1) (by omega), Option.map_map]
      congr 2
      funext r
      simp only [Function.comp_apply, Nat.add_right_comm, Nat.add_assoc]

/-- The search of the first `total` slots. -/
theorem fat16FindEntry_eq {directory : FatDirectory} {n : ℕ} (htotal : directory.total = n)
    (hn : n ≤ directory.entries.length) (name : CString) :
    fat16FindEntry directory name =
      .ok (firstSlot (fat16ItemMatches name) (directory.entries.take n)) := by
  unfold fat16FindEntry
  rw [htotal, Int.toNat_natCast, fat16FindEntryLoop_eq name n 0 (by omega), List.drop_zero]
  congr 1
  cases firstSlot (fat16ItemMatches name) (directory.entries.take n) with
  | none => rfl
  | some r => simp

/-! ## The root directory -/

/-- A file or a subdirectory: not deleted, and no volume label. -/
def IsLive (item : FatDirectoryItem) : Prop :=
  ¬ IsDeleted item ∧ item.attribute &&& fatFileVolumeLabel = 0

instance (item : FatDirectoryItem) : Decidable (IsLive item) :=
  inferInstanceAs (Decidable (_ ∧ _))

/-- Position on the disk of the root directory. -/
def Disk.rootPos (disk : Disk) : ℕ :=
  (disk.fsPrivate.header.fatCopies.toNat * disk.fsPrivate.header.sectorsPerFat.toNat +
    disk.fsPrivate.header.reservedSectors.toNat) * 512

/-- One slot of the count. -/
lemma fat16GetTotalItemsLoop_step {device : Device} {pos i : ℕ}
    (hpos : pos + 32 * i + 32 < 2 ^ 31) (acc : ℤ) :
    fat16GetTotalItemsLoop device (pos + 32 * i : ℕ) acc =
      if (slotEntry device pos i).filename[0] = 0x00 then .ok acc
      else if IsDeleted (slotEntry device pos i) then
        fat16GetTotalItemsLoop device (pos + 32 * (i + 1) : ℕ) acc
      else (do
        let acc ← checkedInt (acc + 1)
        fat16GetTotalItemsLoop device (pos + 32 * (i + 1) : ℕ) acc) := by
  have hread := diskStreamerRead_eq device (pos + 32 * i) sizeofFatDirectoryItem hpos
  rw [fat16GetTotalItemsLoop]
  split
  · rename_i fault hfault
    rw [hread] at hfault
    cases hfault
  · rename_i read hread'
    obtain rfl := Except.ok.inj (hread.symm.trans hread')
    rfl

/-- The count over the slots from `i` on. -/
lemma fat16GetTotalItemsLoop_eq {device : Device} {pos t : ℕ} (hterm : Terminated device pos t)
    (hpos : pos + 32 * (t + 1) < 2 ^ 31) :
    ∀ n i acc : ℕ, i + n = t → acc ≤ i →
      fat16GetTotalItemsLoop device (pos + 32 * i : ℕ) acc =
        .ok ((acc + (slice (slotEntry device pos) i n).countP fun e => ¬ IsDeleted e : ℕ) : ℤ) := by
  intro n
  induction n with
  | zero =>
    intro i acc hi _
    obtain rfl : i = t := by omega
    rw [fat16GetTotalItemsLoop_step (by omega), if_pos hterm.ends]
    rfl
  | succ n ih =>
    intro i acc hi hacc
    rw [fat16GetTotalItemsLoop_step (by omega), if_neg (hterm.before i (by omega)), slice_succ]
    by_cases hdeleted : IsDeleted (slotEntry device pos i)
    · rw [if_pos hdeleted, ih (i + 1) acc (by omega) (by omega),
        List.countP_cons_of_neg (by simpa using hdeleted)]
    · rw [if_neg hdeleted, ← Nat.cast_succ, checkedInt_of_range (by omega) (by omega), ok_bind,
        ih (i + 1) (acc + 1) (by omega) (by omega),
        List.countP_cons_of_pos (by simpa using hdeleted), Nat.add_right_comm, Nat.add_assoc]

/-- The count of a directory: its slots up to the terminator, less the deleted ones. -/
theorem fat16GetTotalItemsForDirectory_eq {disk : Disk} {sector t : ℕ}
    (hterm : Terminated disk.device (sector * 512) t)
    (hpos : sector * 512 + 32 * (t + 1) < 2 ^ 31) :
    fat16GetTotalItemsForDirectory disk sector =
      .ok ((slice (slotEntry disk.device (sector * 512)) 0 t).countP
        fun e => ¬ IsDeleted e : ℕ) := by
  have hcount := fat16GetTotalItemsLoop_eq hterm hpos t 0 0 (by omega) le_rfl
  have hstart : i32 (u32 ((sector : ℤ) * marrowosSectorSize)) =
      ((sector * 512 + 32 * 0 : ℕ) : ℤ) := by
    simp only [marrowosSectorSize]
    rw [u32_of_lt (by omega) (by omega), i32_of_lt (by omega) (by omega)]
    omega
  rw [Nat.cast_zero, Nat.zero_add] at hcount
  exact (congrArg (fat16GetTotalItemsLoop disk.device · 0) hstart).trans hcount

/-- The entries in the bytes of any source. -/
lemma fatDirectoryItemsOf_eq (f : ℕ → UInt8) (pos n : ℕ) :
    fatDirectoryItemsOf (slice f pos (n * sizeofFatDirectoryItem)) n =
      slice (fun i => fatDirectoryItemOf (slice f (pos + 32 * i) 32)) 0 n := by
  unfold fatDirectoryItemsOf slice
  refine List.map_congr_left fun i hi => congrArg fatDirectoryItemOf ?_
  have hin := List.mem_range.mp hi
  obtain ⟨m, hm⟩ : ∃ m, n * sizeofFatDirectoryItem = sizeofFatDirectoryItem * i + (32 + m) :=
    ⟨n * 32 - 32 * i - 32, by simp only [sizeofFatDirectoryItem]; omega⟩
  change ((slice f pos (n * sizeofFatDirectoryItem)).drop _).take _ =
    slice f (pos + 32 * (0 + i)) 32
  rw [hm, slice_add, List.drop_left' length_slice, take_slice _ _ (by simp), Nat.zero_add]

/-- The array holds the slots of the table. -/
lemma fatDirectoryItemsOf_slice (device : Device) (pos n : ℕ) :
    fatDirectoryItemsOf (slice device.byte pos (n * sizeofFatDirectoryItem)) n =
      slice (slotEntry device pos) 0 n :=
  fatDirectoryItemsOf_eq device.byte pos n

/-- What `fat16_get_root_directory` counts and loads when it succeeds. -/
theorem fat16GetRootDirectory_ok {σ : Type} {A : Allocator σ} {disk : Disk} {s s' : σ}
    {directory : FatDirectory} (h : fat16GetRootDirectory A disk s = .ok ((0, directory), s'))
    {t : ℕ} (ht : t < disk.fsPrivate.header.rootDirEntries.toNat)
    (hterm : Terminated disk.device disk.rootPos t) :
    directory.total =
        ((slice (slotEntry disk.device disk.rootPos) 0 t).countP fun e => ¬ IsDeleted e : ℕ) ∧
      directory.entries = slice (slotEntry disk.device disk.rootPos) 0
        disk.fsPrivate.header.rootDirEntries.toNat := by
  unfold fat16GetRootDirectory at h
  simp only [bind_eq_ok] at h
  obtain ⟨total, htotal, h⟩ := h
  split at h
  · have hres : -enomem = 0 := congrArg (fun r => r.1.1) (Except.ok.inj h)
    exact absurd hres (by decide)
  simp only [bind_eq_ok] at h
  obtain ⟨p, hp, read, hread, h⟩ := h
  obtain rfl : _ = directory := congrArg (fun r => r.1.2) (Except.ok.inj h)
  have hpos : p = (disk.rootPos : ℕ) := (checkedInt_ok hp).1
  rw [hpos] at hread
  have hfit := diskStreamerRead_ok _ hread
  rw [diskStreamerRead_eq _ _ _ hfit] at hread
  rw [← Except.ok.inj hread]
  refine ⟨?_, fatDirectoryItemsOf_slice disk.device disk.rootPos _⟩
  have hcount := fat16GetTotalItemsForDirectory_eq hterm
    (by simp only [sizeofFatDirectoryItem] at hfit; unfold Disk.rootPos at hfit; omega)
  exact Except.ok.inj (htotal.symm.trans hcount)

/-! ## Lookup in the root directory -/

/-- The slot of the first live entry of the name before the terminator. -/
def firstLive (device : Device) (pos t : ℕ) (name : CString) : Option (ℕ × FatDirectoryItem) :=
  firstSlot (fun e => IsLive e ∧ Named name e) (slice (slotEntry device pos) 0 t)

/-- Where the searched slots, the first `total` of the table, show the first live entry of the
name: what has the name there stands at or behind a live entry of the name, and such an entry
is not first found at slot `total` or later. -/
structure SlotsShowName (device : Device) (pos t total : ℕ) (name : CString) : Prop where
  behind : ∀ i < total, Named name (slotEntry device pos i) →
    ∃ j ≤ i, IsLive (slotEntry device pos j) ∧ Named name (slotEntry device pos j)
  early : ∀ i < t, IsLive (slotEntry device pos i) → Named name (slotEntry device pos i) →
    ∃ j < total, IsLive (slotEntry device pos j) ∧ Named name (slotEntry device pos j)

/-- The slots before the terminator that are not deleted. -/
def liveCount (device : Device) (pos t : ℕ) : ℕ :=
  (slice (slotEntry device pos) 0 t).countP fun e => ¬ IsDeleted e

lemma liveCount_le (device : Device) (pos t : ℕ) : liveCount device pos t ≤ t := by
  have hle := List.countP_le_length (p := fun e => decide ¬ IsDeleted e)
    (l := slice (slotEntry device pos) 0 t)
  rwa [length_slice] at hle

/-- After `fat16_get_root_directory`, the search stops at the first live entry of the name
exactly when the searched slots show it. -/
lemma fat16FindEntry_eq_firstLive_iff {σ : Type} {A : Allocator σ} {disk : Disk} {s s' : σ}
    {directory : FatDirectory} (h : fat16GetRootDirectory A disk s = .ok ((0, directory), s'))
    {t : ℕ} (ht : t < disk.fsPrivate.header.rootDirEntries.toNat)
    (hterm : Terminated disk.device disk.rootPos t) {name : CString} (hname : 0 ∉ name) :
    fat16FindEntry directory name = .ok (firstLive disk.device disk.rootPos t name) ↔
      SlotsShowName disk.device disk.rootPos t (liveCount disk.device disk.rootPos t) name := by
  obtain ⟨htotal, hentries⟩ := fat16GetRootDirectory_ok h ht hterm
  have hle := liveCount_le disk.device disk.rootPos t
  have htake : directory.entries.take (liveCount disk.device disk.rootPos t) =
      (slice (slotEntry disk.device disk.rootPos) 0 t).take
        (liveCount disk.device disk.rootPos t) := by
    rw [hentries, take_slice _ _ (by omega), take_slice _ _ hle]
  have hslot : ∀ (i : ℕ) e, (slice (slotEntry disk.device disk.rootPos) 0 t)[i]? = some e ↔
      i < t ∧ slotEntry disk.device disk.rootPos i = e := by
    intro i e
    rw [getElem?_slice_eq_some, Nat.zero_add]
  have hlive : ∀ e, decide (IsLive e ∧ Named name e) = true ↔ IsLive e ∧ Named name e :=
    fun e => decide_eq_true_iff
  have hfind := fat16FindEntry_eq (n := liveCount disk.device disk.rootPos t) htotal
    (by rw [hentries, length_slice]; omega) name
  rw [hfind, htake, Except.ok.injEq, firstLive, firstSlot_take_eq_iff]
  · simp only [hslot, hlive, fat16ItemMatches_iff hname]
    constructor
    · rintro ⟨hbehind, hearly⟩
      refine ⟨fun i hi hnamed => ?_, fun i hi hl hnamed => ?_⟩
      · obtain ⟨j, hj, b, ⟨-, rfl⟩, hb⟩ := hbehind i hi _ ⟨by omega, rfl⟩ hnamed
        exact ⟨j, hj, hb⟩
      · obtain ⟨j, hj, b, ⟨-, rfl⟩, hb⟩ := hearly i _ ⟨hi, rfl⟩ ⟨hl, hnamed⟩
        exact ⟨j, hj, hb⟩
    · rintro ⟨hbehind, hearly⟩
      refine ⟨fun i hi e he hnamed => ?_, fun i e he hboth => ?_⟩
      · obtain ⟨hit, rfl⟩ := he
        obtain ⟨j, hj, hb⟩ := hbehind i hi hnamed
        exact ⟨j, hj, _, ⟨by omega, rfl⟩, hb⟩
      · obtain ⟨hit, rfl⟩ := he
        obtain ⟨j, hj, hb⟩ := hearly i hit hboth.1 hboth.2
        exact ⟨j, hj, _, ⟨by omega, rfl⟩, hb⟩
  · intro e he
    exact (fat16ItemMatches_iff hname e).mpr ((hlive e).mp he).2

/-- **Directory lookup.** After `fat16_get_root_directory`, the entry that
`fat16_find_item_in_directory` stops at is the first live entry of the name exactly when the
searched slots show it; it then builds its item for that entry, or finds none if there is
none. -/
theorem fat16FindItemInDirectory_exact_iff {σ : Type} {A : Allocator σ} {disk : Disk} {s s' : σ}
    {directory : FatDirectory} (h : fat16GetRootDirectory A disk s = .ok ((0, directory), s'))
    {t : ℕ} (ht : t < disk.fsPrivate.header.rootDirEntries.toNat)
    (hterm : Terminated disk.device disk.rootPos t) {name : CString} (hname : 0 ∉ name) :
    (fat16FindEntry directory name = .ok (firstLive disk.device disk.rootPos t name) ↔
      SlotsShowName disk.device disk.rootPos t (liveCount disk.device disk.rootPos t) name) ∧
    (SlotsShowName disk.device disk.rootPos t (liveCount disk.device disk.rootPos t) name →
      ∀ s, fat16FindItemInDirectory A disk directory name s =
        match firstLive disk.device disk.rootPos t name with
        | none => .ok (none, s)
        | some (_, item) => fat16NewFatItemForDirectoryItem A disk item s) := by
  have hiff := fat16FindEntry_eq_firstLive_iff h ht hterm hname
  refine ⟨hiff, fun hslots s => ?_⟩
  unfold fat16FindItemInDirectory
  rw [hiff.mpr hslots, ok_bind]
  cases firstLive disk.device disk.rootPos t name <;> rfl

/-! ## A small root directory -/

/-- A volume whose root directory, in sector 2, has entries of one-letter names. -/
def lettersDisk (letters : List UInt8) : Disk where
  device.sector lba i :=
    if lba = 2 then
      if i % 32 = 0 then letters[i / 32]?.getD 0 else if i % 32 < 11 then 0x20 else 0
    else 0
  fsPrivate :=
    { header := ⟨1, 1, 1, 16, 1⟩
      rootDirectory := ⟨0, [], 0, 0, 0⟩ }

/-- An allocator with one answer. -/
def constAllocator : Allocator Unit := ⟨fun _ s => (4096, s), fun _ s => s⟩

lemma fat16GetRootDirectory_lettersDisk (letters : List UInt8)
    (h : (fat16GetRootDirectory constAllocator (lettersDisk letters) ()).toOption.map (·.1.1) =
      some 0) :
    ∃ directory,
      fat16GetRootDirectory constAllocator (lettersDisk letters) () = .ok ((0, directory), ()) := by
  rcases exists_ok_of_toOption_map h with ⟨⟨⟨res, directory⟩, s⟩, hroot, hres⟩
  have hzero : res = 0 := hres
  rw [hzero] at hroot
  exact ⟨directory, hroot⟩

/-- The file `A` in front of a deleted entry is found. -/
theorem fat16FindItemInDirectory_exact_found :
    ∃ directory, fat16GetRootDirectory constAllocator (lettersDisk [0x41, 0xE5]) () =
        .ok ((0, directory), ()) ∧
      fat16FindEntry directory [0x61] = .ok (firstLive (lettersDisk [0x41, 0xE5]).device
        (lettersDisk [0x41, 0xE5]).rootPos 2 [0x61]) := by
  obtain ⟨directory, hroot⟩ :=
    fat16GetRootDirectory_lettersDisk [0x41, 0xE5] (by decide +kernel)
  refine ⟨directory, hroot, (fat16FindItemInDirectory_exact_iff hroot (t := 2) (by decide)
    ⟨by decide, by decide⟩ (by decide)).1.mpr ⟨?_, ?_⟩⟩
  · exact fun i _ _ => ⟨0, Nat.zero_le i, by decide, by decide⟩
  · exact fun _ _ _ _ => ⟨0, by decide, by decide, by decide⟩

/-- The file `A` behind a deleted entry is not. -/
theorem fat16FindEntry_behind_deleted :
    ¬ ∀ (σ : Type) (A : Allocator σ) (disk : Disk) (s s' : σ) (directory : FatDirectory) (t : ℕ)
      (name : CString), fat16GetRootDirectory A disk s = .ok ((0, directory), s') →
      t < disk.fsPrivate.header.rootDirEntries.toNat → Terminated disk.device disk.rootPos t →
      0 ∉ name →
      fat16FindEntry directory name = .ok (firstLive disk.device disk.rootPos t name) := by
  intro h
  obtain ⟨directory, hroot⟩ :=
    fat16GetRootDirectory_lettersDisk [0xE5, 0x41] (by decide +kernel)
  have hfind := h _ _ _ _ _ directory 2 [0x41] hroot (by decide) ⟨by decide, by decide⟩
    (by decide)
  have hnone : ((fat16GetRootDirectory constAllocator (lettersDisk [0xE5, 0x41]) ()).toOption.bind
      fun r => (fat16FindEntry r.1.2 [0x41]).toOption) = some none := by decide +kernel
  rw [hroot] at hnone
  change (fat16FindEntry directory [0x41]).toOption = some none at hnone
  rw [hfind] at hnone
  have hsome : firstLive (lettersDisk [0xE5, 0x41]).device (lettersDisk [0xE5, 0x41]).rootPos 2
      [0x41] ≠ none := by decide
  exact hsome (Option.some.inj hnone)

end MarrowOS
