import MarrowOS.Fs.FatDirectoryTheorems

/-!
# Counting the entries of a directory

`fat16_get_total_items_for_directory` reads entries until one starts with the byte `0`; neither the
number of entries of the root directory nor the end of a cluster stops it. With the entries it reads
(`fat16GetTotalItemsExamined`), a count ends exactly at the first such entry
(`fat16GetTotalItemsExaminedLoop_iff`), which for the root has to be one of its own
(`rootScanBounded_iff`).
-/

namespace MarrowOS

open CInt Fallible Slice

/-! ## The count and its reads -/

/-- The loop of `fat16_get_total_items_for_directory`, with the number of entries it reads. -/
def fat16GetTotalItemsExaminedLoop (device : Device) (pos i : ℤ) : Except Fault (ℤ × ℕ) :=
  match hread : diskStreamerRead device pos (sizeofFatDirectoryItem : ℕ) with
  | .error fault => .error fault
  | .ok read =>
    let item := fatDirectoryItemOf read.out
    if item.filename[0] = 0x00 then .ok (i, 1)
    else if item.filename[0] = 0xE5 then do
      let (total, examined) ← fat16GetTotalItemsExaminedLoop device read.pos i
      return (total, examined + 1)
    else do
      let i ← checkedInt (i + 1)
      let (total, examined) ← fat16GetTotalItemsExaminedLoop device read.pos i
      return (total, examined + 1)
termination_by (2 ^ 31 - pos).toNat
decreasing_by
  all_goals
    have hpos := diskStreamerRead_pos device hread
    simp only [sizeofFatDirectoryItem] at hpos
    omega

def fat16GetTotalItemsExamined (disk : Disk) (directoryStartSector : ℕ) : Except Fault (ℤ × ℕ) :=
  let directoryStartPos := i32 (u32 (directoryStartSector * marrowosSectorSize))
  fat16GetTotalItemsExaminedLoop disk.device directoryStartPos 0

variable {device : Device} {disk : Disk}

lemma fat16GetTotalItemsExaminedLoop_fst (pos i : ℤ) :
    (fat16GetTotalItemsExaminedLoop device pos i).map Prod.fst =
      fat16GetTotalItemsLoop device pos i := by
  induction hn : (2 ^ 31 - pos).toNat using Nat.strong_induction_on generalizing pos i with
  | _ n ih =>
    subst hn
    rw [fat16GetTotalItemsExaminedLoop, fat16GetTotalItemsLoop]
    cases hread : diskStreamerRead device pos (sizeofFatDirectoryItem : ℕ) with
    | error fault => rfl
    | ok read =>
      have hpos := diskStreamerRead_pos device hread
      simp only [sizeofFatDirectoryItem] at hpos
      simp only
      by_cases hend : (fatDirectoryItemOf read.out).filename[0] = 0x00
      · rw [if_pos hend, if_pos hend]
        rfl
      rw [if_neg hend, if_neg hend]
      by_cases hdeleted : (fatDirectoryItemOf read.out).filename[0] = 0xE5
      · rw [if_pos hdeleted, if_pos hdeleted, ← ih _ (by omega) read.pos i rfl]
        cases fat16GetTotalItemsExaminedLoop device read.pos i <;> rfl
      · rw [if_neg hdeleted, if_neg hdeleted]
        cases checkedInt (i + 1) with
        | error fault => rfl
        | ok i =>
          rw [ok_bind, ok_bind, ← ih _ (by omega) read.pos i rfl]
          cases fat16GetTotalItemsExaminedLoop device read.pos i <;> rfl

/-- Forgetting the reads gives the function. -/
theorem fat16GetTotalItemsExamined_fst (sector : ℕ) :
    (fat16GetTotalItemsExamined disk sector).map Prod.fst =
      fat16GetTotalItemsForDirectory disk sector :=
  fat16GetTotalItemsExaminedLoop_fst _ _

/-! ## Where the count ends -/

/-- One slot of the count, read or not. -/
lemma fat16GetTotalItemsExaminedLoop_step {pos i : ℕ} (hpos : pos + 32 * i + 32 < 2 ^ 31)
    (acc : ℤ) :
    fat16GetTotalItemsExaminedLoop device (pos + 32 * i : ℕ) acc =
      if IsTerminator (slotEntry device pos i) then .ok (acc, 1)
      else if IsDeleted (slotEntry device pos i) then (do
        let (total, examined) ←
          fat16GetTotalItemsExaminedLoop device (pos + 32 * (i + 1) : ℕ) acc
        return (total, examined + 1))
      else (do
        let acc ← checkedInt (acc + 1)
        let (total, examined) ←
          fat16GetTotalItemsExaminedLoop device (pos + 32 * (i + 1) : ℕ) acc
        return (total, examined + 1)) := by
  have hread := diskStreamerRead_eq device (pos + 32 * i) sizeofFatDirectoryItem hpos
  rw [fat16GetTotalItemsExaminedLoop]
  split
  · rename_i fault hfault
    rw [hread] at hfault
    cases hfault
  · rename_i read hread'
    rw [← Except.ok.inj (hread.symm.trans hread')]
    rfl

/-- A count that ends has read everything up to the first slot that starts with `0`. -/
lemma fat16GetTotalItemsExaminedLoop_ends {pos : ℕ} {total : ℤ} {examined : ℕ} :
    ∀ (i : ℕ) (acc : ℤ),
      fat16GetTotalItemsExaminedLoop device (pos + 32 * i : ℕ) acc = .ok (total, examined) →
      ∃ t, t + 1 = i + examined ∧ pos + 32 * (t + 1) < 2 ^ 31 ∧ i ≤ t ∧
        (∀ j, i ≤ j → j < t → ¬ IsTerminator (slotEntry device pos j)) ∧
        IsTerminator (slotEntry device pos t) := by
  intro i
  induction hn : 2 ^ 31 - (pos + 32 * i) using Nat.strong_induction_on generalizing i examined with
  | _ n ih =>
    subst hn
    intro acc h
    have hfit : pos + 32 * i + 32 < 2 ^ 31 := by
      by_contra hfar
      rw [fat16GetTotalItemsExaminedLoop] at h
      split at h
      · cases h
      · rename_i read hread
        have hlt := diskStreamerRead_ok device hread
        simp only [sizeofFatDirectoryItem] at hlt
        omega
    rw [fat16GetTotalItemsExaminedLoop_step hfit] at h
    by_cases hend : IsTerminator (slotEntry device pos i)
    · rw [if_pos hend] at h
      have hone : 1 = examined := (Prod.mk.inj (Except.ok.inj h)).2
      exact ⟨i, by omega, by omega, le_rfl, fun j h₀ h₁ => by omega, hend⟩
    rw [if_neg hend] at h
    -- both other branches go on with the next slot
    have hnext : ∃ acc' examined', fat16GetTotalItemsExaminedLoop device
        (pos + 32 * (i + 1) : ℕ) acc' = .ok (total, examined') ∧ examined' + 1 = examined := by
      by_cases hdeleted : IsDeleted (slotEntry device pos i)
      · rw [if_pos hdeleted] at h
        rcases bind_eq_ok.mp h with ⟨⟨total', examined'⟩, hloop, hret⟩
        rcases Prod.mk.inj (Except.ok.inj hret) with ⟨htotal, hexamined⟩
        have hsame : total' = total := htotal
        rw [hsame] at hloop
        exact ⟨acc, examined', hloop, hexamined⟩
      · rw [if_neg hdeleted] at h
        rcases bind_eq_ok.mp h with ⟨acc', -, h⟩
        rcases bind_eq_ok.mp h with ⟨⟨total', examined'⟩, hloop, hret⟩
        rcases Prod.mk.inj (Except.ok.inj hret) with ⟨htotal, hexamined⟩
        have hsame : total' = total := htotal
        rw [hsame] at hloop
        exact ⟨acc', examined', hloop, hexamined⟩
    rcases hnext with ⟨acc', examined', hloop, hexamined⟩
    rcases ih _ (by omega) (i + 1) rfl acc' hloop with ⟨t, ht, hpos, hle, hbefore, hzero⟩
    refine ⟨t, by omega, hpos, by omega, ?_, hzero⟩
    intro j h₀ h₁
    by_cases hj : j = i
    · rw [hj]
      exact hend
    · exact hbefore j (by omega) h₁

/-- What a count from a slot on has read. -/
lemma fat16GetTotalItemsExaminedLoop_of_terminated {pos t : ℕ} (hterm : Terminated device pos t)
    (hpos : pos + 32 * (t + 1) < 2 ^ 31) :
    ∀ n i acc : ℕ, i + n = t → acc ≤ i → ∃ total,
      fat16GetTotalItemsExaminedLoop device (pos + 32 * i : ℕ) acc = .ok (total, n + 1) := by
  intro n
  induction n with
  | zero =>
    intro i acc hi _
    have hzero : IsTerminator (slotEntry device pos t) := hterm.ends
    rw [← hi, Nat.add_zero] at hzero
    rw [fat16GetTotalItemsExaminedLoop_step (by omega), if_pos hzero]
    exact ⟨_, rfl⟩
  | succ n ih =>
    intro i acc hi hacc
    have hbefore : ¬ IsTerminator (slotEntry device pos i) := hterm.before i (by omega)
    rw [fat16GetTotalItemsExaminedLoop_step (by omega), if_neg hbefore]
    by_cases hdeleted : IsDeleted (slotEntry device pos i)
    · rcases ih (i + 1) acc (by omega) (by omega) with ⟨total, hloop⟩
      rw [if_pos hdeleted, hloop]
      exact ⟨total, rfl⟩
    · rcases ih (i + 1) (acc + 1) (by omega) (by omega) with ⟨total, hloop⟩
      rw [if_neg hdeleted, ← Nat.cast_succ, checkedInt_of_range (by omega) (by omega), ok_bind,
        hloop]
      exact ⟨total, rfl⟩

/-- **Counting.** The count of a directory ends exactly when one of the slots from its position on
starts with `0`; it is the number of slots before the first one that are not deleted, and as many
slots are read as there are up to that one. -/
theorem fat16GetTotalItemsExaminedLoop_iff {pos : ℕ} {total : ℤ} {examined : ℕ} :
    fat16GetTotalItemsExaminedLoop device pos 0 = .ok (total, examined) ↔
      ∃ t, Terminated device pos t ∧ pos + 32 * (t + 1) < 2 ^ 31 ∧
        total = liveCount device pos t ∧ examined = t + 1 := by
  constructor
  · intro h
    have hcount := @fat16GetTotalItemsExaminedLoop_fst device pos 0
    rw [h] at hcount
    have hstart := @fat16GetTotalItemsExaminedLoop_ends _ pos _ _ 0 0
      (by rwa [Nat.mul_zero, Nat.add_zero])
    rcases hstart with ⟨t, ht, hpos, -, hbefore, hzero⟩
    have hterm : Terminated device pos t := ⟨fun i hi => hbefore i (Nat.zero_le i) hi, hzero⟩
    have hloop := fat16GetTotalItemsLoop_eq hterm hpos t 0 0 (by omega) le_rfl
    rw [Nat.mul_zero, Nat.add_zero, Nat.zero_add, Nat.cast_zero] at hloop
    refine ⟨t, hterm, hpos, ?_, by omega⟩
    exact Except.ok.inj (hcount.trans hloop)
  · rintro ⟨t, hterm, hpos, htotal, hexamined⟩
    rcases fat16GetTotalItemsExaminedLoop_of_terminated hterm hpos t 0 0 (by omega) le_rfl with
      ⟨total', hloop⟩
    have hcount := @fat16GetTotalItemsExaminedLoop_fst device (pos + 32 * 0 : ℕ) (0 : ℕ)
    have hlive := fat16GetTotalItemsLoop_eq hterm hpos t 0 0 (by omega) le_rfl
    rw [hloop, hlive] at hcount
    have hsame : total' = liveCount device pos t := by
      rw [liveCount, ← Nat.zero_add (List.countP _ _)]
      exact Except.ok.inj hcount
    rw [Nat.mul_zero, Nat.add_zero, Nat.cast_zero, hsame] at hloop
    rw [htotal, hexamined, hloop]

/-- The same for a sector of the disk. -/
lemma fat16GetTotalItemsExamined_eq {sector : ℕ} (h : sector * 512 < 2 ^ 31) :
    fat16GetTotalItemsExamined disk sector =
      fat16GetTotalItemsExaminedLoop disk.device (sector * 512 : ℕ) 0 := by
  have hstart : i32 (u32 ((sector : ℤ) * marrowosSectorSize)) = ((sector * 512 : ℕ) : ℤ) := by
    simp only [marrowosSectorSize]
    rw [u32_of_lt (by omega) (by omega), i32_of_lt (by omega) (by omega)]
    omega
  exact congrArg (fat16GetTotalItemsExaminedLoop disk.device · 0) hstart

/-! ## How large a count is -/

/-- An entry in front of the disk is not read, unless it is the first of its sector. -/
lemma diskStreamerRead_entry_of_neg {pos : ℤ} (hneg : pos < 0) (hmod : pos % 512 ≠ 0) :
    diskStreamerRead device pos (sizeofFatDirectoryItem : ℕ) = .error .outOfBounds := by
  rcases Int.exists_eq_neg_ofNat hneg.le with ⟨n, hn⟩
  have hoffset : pos.tmod (marrowosSectorSize : ℕ) = -((n % 512 : ℕ) : ℤ) := by
    rw [hn, Int.neg_tmod, natCast_tmod_sector]
  rw [diskStreamerRead]
  simp only [hoffset, marrowosSectorSize, sizeofFatDirectoryItem]
  rw [checkedInt_of_range (by omega) (by omega), ok_bind, dif_neg (by omega), copySector,
    if_pos ⟨by omega, by omega⟩]
  rfl

/-- A directory that starts in front of the disk has no entries. -/
lemma fat16GetTotalItemsLoop_of_neg {pos total : ℤ} (hneg : pos < 0) (hmod : pos % 512 = 0)
    (h : fat16GetTotalItemsLoop device pos 0 = .ok total) : total = 0 := by
  rw [fat16GetTotalItemsLoop] at h
  split at h
  · cases h
  · rename_i read hread
    have hpos := (diskStreamerRead_pos device hread).1
    simp only [sizeofFatDirectoryItem] at hpos
    have hfault : ∀ i, fat16GetTotalItemsLoop device read.pos i = .error .outOfBounds := by
      intro i
      have hnext := @diskStreamerRead_entry_of_neg device read.pos (by omega) (by omega)
      rw [fat16GetTotalItemsLoop]
      split
      · rename_i hfault
        rw [hnext] at hfault
        cases hfault
        rfl
      · rename_i hok
        rw [hnext] at hok
        cases hok
    simp only at h
    split_ifs at h
    · exact (Except.ok.inj h).symm
    · rw [hfault] at h
      cases h
    · rcases bind_eq_ok.mp h with ⟨j, -, h⟩
      rw [hfault] at h
      cases h

/-- Every entry that is counted takes 32 bytes of the disk. -/
lemma fat16GetTotalItemsLoop_bounds {pos i total : ℤ}
    (h : fat16GetTotalItemsLoop device pos i = .ok total) :
    i ≤ total ∧ (i < total → pos + 32 * (total - i) < 2 ^ 31) := by
  induction hn : (2 ^ 31 - pos).toNat using Nat.strong_induction_on generalizing pos i with
  | _ n ih =>
    subst hn
    rw [fat16GetTotalItemsLoop] at h
    split at h
    · cases h
    · rename_i read hread
      have hpos := diskStreamerRead_pos device hread
      simp only [sizeofFatDirectoryItem] at hpos
      simp only at h
      split_ifs at h
      · have heq : i = total := Except.ok.inj h
        omega
      · have hrest := ih _ (by omega) h rfl
        omega
      · rcases bind_eq_ok.mp h with ⟨j, hj, h⟩
        have hnext := (checkedInt_ok hj).1
        have hrest := ih _ (by omega) h rfl
        omega

/-- The entries of a directory fill less than `2 ^ 31` bytes. -/
theorem fat16GetTotalItemsForDirectory_bounds {sector : ℕ} {total : ℤ}
    (h : fat16GetTotalItemsForDirectory disk sector = .ok total) :
    0 ≤ total ∧ 32 * total < 2 ^ 31 := by
  have hstart : ∃ n : ℕ, n < 2 ^ 32 ∧ n % 512 = 0 ∧
      fat16GetTotalItemsLoop disk.device (i32 n) 0 = .ok total := by
    refine ⟨_, u32_lt ((sector : ℤ) * marrowosSectorSize), ?_, h⟩
    simp only [marrowosSectorSize, ← Nat.cast_mul, u32_natCast]
    omega
  rcases hstart with ⟨n, hn, hmod, hloop⟩
  have hbounds := fat16GetTotalItemsLoop_bounds hloop
  rcases Nat.lt_or_ge n (2 ^ 31) with hlt | hge
  · rw [i32_of_lt (by omega) (by omega)] at hbounds
    omega
  · rw [i32_of_large (by omega) (by omega)] at hloop
    have hzero := fat16GetTotalItemsLoop_of_neg (by omega) (by omega) hloop
    omega

/-! ## The root directory -/

/-- First sector of the root directory. -/
def Disk.rootSector (disk : Disk) : ℕ :=
  disk.fsPrivate.header.fatCopies.toNat * disk.fsPrivate.header.sectorsPerFat.toNat +
    disk.fsPrivate.header.reservedSectors.toNat

/-- Number of its entries. -/
def Disk.rootEntries (disk : Disk) : ℕ := disk.fsPrivate.header.rootDirEntries.toNat

variable {σ : Type} {A : Allocator σ} {s s' : σ} {directory : FatDirectory}

/-- The count of the root directory reads no more entries than it has, and the search only uses
indices inside the array that was loaded. -/
def RootScanBounded (A : Allocator σ) (disk : Disk) (s : σ) : Prop :=
  ∃ total examined directory s', fat16GetTotalItemsExamined disk disk.rootSector =
      .ok (total, examined) ∧ examined ≤ disk.rootEntries ∧
    fat16GetRootDirectory A disk s = .ok ((0, directory), s') ∧ directory.total = total ∧
    directory.total ≤ disk.rootEntries ∧ directory.entries.length = disk.rootEntries ∧
    ∀ name, fat16FindEntry directory name ≠ .error .outOfBounds

/-- What `fat16_get_root_directory` does when the array is allocated. -/
lemma fat16GetRootDirectory_eq
    (halloc : (A.kmalloc (disk.rootEntries * sizeofFatDirectoryItem) s).1 ≠ 0) :
    fat16GetRootDirectory A disk s = (do
      let total ← fat16GetTotalItemsForDirectory disk disk.rootSector
      let rootDirPos ← checkedInt (disk.rootSector * marrowosSectorSize)
      let read ← diskStreamerRead disk.device rootDirPos
        (disk.rootEntries * sizeofFatDirectoryItem : ℕ)
      return ((0,
        { item := (A.kmalloc (disk.rootEntries * sizeofFatDirectoryItem) s).1
          entries := fatDirectoryItemsOf read.out disk.rootEntries
          total
          sectorPos := disk.rootSector
          endingSectorPos := (disk.rootSector : ℤ) +
            (if disk.rootEntries * sizeofFatDirectoryItem % marrowosSectorSize ≠ 0 then
              disk.rootEntries * sizeofFatDirectoryItem / marrowosSectorSize + 1
            else disk.rootEntries * sizeofFatDirectoryItem / marrowosSectorSize : ℕ) }),
        (A.kmalloc (disk.rootEntries * sizeofFatDirectoryItem) s).2)) := by
  unfold fat16GetRootDirectory
  apply bind_congr
  intro total
  exact if_neg halloc

/-- The count of the root directory starts at its position. -/
lemma fat16GetTotalItemsExamined_root (h : disk.rootPos < 2 ^ 31) :
    fat16GetTotalItemsExamined disk disk.rootSector =
      fat16GetTotalItemsExaminedLoop disk.device (disk.rootPos : ℕ) 0 :=
  fat16GetTotalItemsExamined_eq h

lemma length_fatDirectoryItemsOf (bytes : List UInt8) (n : ℕ) :
    (fatDirectoryItemsOf bytes n).length = n := by
  rw [fatDirectoryItemsOf, List.length_map, List.length_range]

/-- A root directory that is loaded lies in the `int` range of the disk. -/
lemma rootPos_lt_of_loaded
    (halloc : (A.kmalloc (disk.rootEntries * sizeofFatDirectoryItem) s).1 ≠ 0)
    (h : fat16GetRootDirectory A disk s = .ok ((0, directory), s')) :
    disk.rootPos + disk.rootEntries * 32 < 2 ^ 31 := by
  rw [fat16GetRootDirectory_eq halloc] at h
  rcases bind_eq_ok.mp h with ⟨total, -, h⟩
  rcases bind_eq_ok.mp h with ⟨pos, hpos, h⟩
  rcases bind_eq_ok.mp h with ⟨read, hread, -⟩
  have heq : pos = (disk.rootPos : ℕ) := (checkedInt_ok hpos).1
  rw [heq] at hread
  exact diskStreamerRead_ok disk.device hread

/-- **The root scan.** When the array is allocated, the scan of the root directory is bounded
exactly when the directory lies in the `int` range of the disk and one of its own entries starts
with `0`. -/
theorem rootScanBounded_iff
    (halloc : (A.kmalloc (disk.rootEntries * sizeofFatDirectoryItem) s).1 ≠ 0) :
    RootScanBounded A disk s ↔
      disk.rootPos + disk.rootEntries * 32 < 2 ^ 31 ∧
        ∃ t < disk.rootEntries, Terminated disk.device disk.rootPos t := by
  constructor
  · rintro ⟨total, examined, directory, s', hscan, hexamined, hroot, -⟩
    have hfit := rootPos_lt_of_loaded halloc hroot
    rw [fat16GetTotalItemsExamined_root (by omega)] at hscan
    rcases fat16GetTotalItemsExaminedLoop_iff.mp hscan with ⟨t, hterm, -, -, ht⟩
    exact ⟨hfit, t, by omega, hterm⟩
  · rintro ⟨hfit, t, ht, hterm⟩
    have hcount : fat16GetTotalItemsExamined disk disk.rootSector =
        .ok ((liveCount disk.device disk.rootPos t : ℕ), t + 1) := by
      rw [fat16GetTotalItemsExamined_root (by omega)]
      exact fat16GetTotalItemsExaminedLoop_iff.mpr ⟨t, hterm, by omega, rfl, rfl⟩
    have htotal : fat16GetTotalItemsForDirectory disk disk.rootSector =
        .ok ((liveCount disk.device disk.rootPos t : ℕ) : ℤ) := by
      rw [← fat16GetTotalItemsExamined_fst, hcount]
      rfl
    have hpos : checkedInt (disk.rootSector * marrowosSectorSize) = .ok (disk.rootPos : ℕ) :=
      checkedInt_of_range (x := (disk.rootPos : ℕ)) (by omega) (by omega)
    have hlive := liveCount_le disk.device disk.rootPos t
    have hload := @fat16GetRootDirectory_eq disk _ _ _ halloc
    rw [htotal, ok_bind, hpos, ok_bind, diskStreamerRead_eq disk.device _ _ hfit, ok_bind] at hload
    refine ⟨_, _, _, _, hcount, by omega, hload, rfl, ?_, length_fatDirectoryItemsOf _ _, ?_⟩
    · show ((liveCount disk.device disk.rootPos t : ℕ) : ℤ) ≤ disk.rootEntries
      omega
    · intro name hbounds
      rw [fat16FindEntry_eq (n := liveCount disk.device disk.rootPos t) rfl
        (by rw [length_fatDirectoryItemsOf]; omega) name] at hbounds
      cases hbounds

/-- A root directory of two files, with fourteen entries to spare. -/
theorem rootScanBounded_two : RootScanBounded constAllocator (lettersDisk [0x41, 0x42]) () := by
  apply (rootScanBounded_iff (by decide)).mpr
  exact ⟨by decide, 2, by decide, ⟨by decide, by decide⟩⟩

/-- In a full root directory of sixteen files a seventeenth entry is read. -/
theorem not_rootScanBounded_full :
    ¬ ∀ (σ : Type) (A : Allocator σ) (disk : Disk) (s : σ),
      (A.kmalloc (disk.rootEntries * sizeofFatDirectoryItem) s).1 ≠ 0 →
      RootScanBounded A disk s := by
  intro h
  rcases h Unit constAllocator (lettersDisk (List.replicate 16 0x41)) () (by decide) with
    ⟨total, examined, directory, s', hscan, hexamined, -⟩
  have hval : (fat16GetTotalItemsExamined (lettersDisk (List.replicate 16 0x41))
      (lettersDisk (List.replicate 16 0x41)).rootSector).toOption = some (16, 17) := by
    decide +kernel
  rw [hscan] at hval
  have h17 : examined = 17 := congrArg Prod.snd (Option.some.inj hval)
  rw [h17] at hexamined
  exact absurd hexamined (by decide)

end MarrowOS
