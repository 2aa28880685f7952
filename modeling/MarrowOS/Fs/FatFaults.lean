import MarrowOS.Fs.DirectoryLoads
import MarrowOS.Fs.Fat16ReadTheorems
import MarrowOS.Fs.FatFiles

/-!
# What can go wrong on the disk

The faults of the functions that read a volume: a position that leaves the `int` range, a negative
offset into a sector, and a division by the size of a cluster that is zero (`ReadFault`); an open
can also meet a null pointer (`OpenFault`).
-/

namespace MarrowOS

open CInt Fallible

/-- The faults of a position on the disk. -/
def PositionFault (fault : Fault) : Prop := fault = .signedOverflow ∨ fault = .outOfBounds

/-- The faults of a read. -/
def ReadFault (disk : Disk) (fault : Fault) : Prop :=
  fault = .signedOverflow ∨ fault = .outOfBounds ∨
    fault = .divisionByZero ∧ sizeOfClusterBytes disk = 0

/-- The faults of an open. -/
def OpenFault (disk : Disk) (fault : Fault) : Prop :=
  ReadFault disk fault ∨ fault = .nullPointer

variable {disk : Disk}

lemma PositionFault.readFault {fault : Fault} (h : PositionFault fault) : ReadFault disk fault :=
  h.elim Or.inl fun h => Or.inr (Or.inl h)

lemma ReadFault.divisionByZero (h : sizeOfClusterBytes disk = 0) :
    ReadFault disk .divisionByZero := Or.inr (Or.inr ⟨rfl, h⟩)

/-! ## Streams -/

lemma faultsIn_checkedInt (x : ℤ) : FaultsIn PositionFault (checkedInt x) := by
  unfold checkedInt
  split
  · exact faultsIn_ok x
  · exact faultsIn_error (Or.inl rfl)

lemma faultsIn_copySector (device : Device) (sector offset n : ℤ) :
    FaultsIn PositionFault (copySector device sector offset n) := by
  unfold copySector
  split
  · exact faultsIn_error (Or.inr rfl)
  · exact faultsIn_ok _

lemma faultsIn_diskStreamerRead (device : Device) (pos total : ℤ) :
    FaultsIn PositionFault (diskStreamerRead device pos total) := by
  induction hn : total.toNat using Nat.strong_induction_on generalizing pos total with
  | _ n ih =>
    subst hn
    have hoffset : pos.tmod marrowosSectorSize < 512 := Int.tmod_lt_of_pos pos (by decide)
    rw [diskStreamerRead]
    apply (faultsIn_checkedInt _).bind
    intro _ _
    simp only [marrowosSectorSize] at hoffset ⊢
    split
    · apply (faultsIn_copySector _ _ _ _).bind
      intro out _
      apply (faultsIn_checkedInt _).bind
      intro posNext _
      apply (ih _ (by omega) _ _ rfl).bind
      exact fun rest _ => faultsIn_ok _
    · apply (faultsIn_copySector _ _ _ _).bind
      intro out _
      apply (faultsIn_checkedInt _).bind
      exact fun pos' _ => faultsIn_ok _

/-! ## Files -/

lemma faultsIn_fat16GetFatEntry (cluster : ℤ) :
    FaultsIn PositionFault (fat16GetFatEntry disk cluster) := by
  unfold fat16GetFatEntry
  apply (faultsIn_checkedInt _).bind
  intro entryOffset _
  apply (faultsIn_diskStreamerRead _ _ _).bind
  exact fun read _ => faultsIn_ok _

lemma faultsIn_fat16GetClusterForOffset (cluster offset : ℤ) :
    FaultsIn (ReadFault disk) (fat16GetClusterForOffset disk cluster offset) := by
  have hloop : ∀ (n : ℕ) (cluster : ℤ),
      FaultsIn PositionFault (fat16GetClusterForOffsetLoop disk n cluster) := by
    intro n
    induction n with
    | zero => exact fun cluster => faultsIn_ok cluster
    | succ n ih =>
      intro cluster
      rw [fat16GetClusterForOffsetLoop]
      apply (faultsIn_fat16GetFatEntry cluster).bind
      intro entry _
      split_ifs
      · exact faultsIn_ok _
      · exact faultsIn_ok _
      · exact faultsIn_ok _
      · exact faultsIn_ok _
      · exact ih entry
  unfold fat16GetClusterForOffset
  split
  · exact faultsIn_error (ReadFault.divisionByZero ‹_›)
  · exact (hloop _ _).mono fun _ => PositionFault.readFault

lemma faultsIn_fat16ClusterToSector (cluster : ℤ) :
    FaultsIn PositionFault (fat16ClusterToSector disk.fsPrivate cluster) := by
  unfold fat16ClusterToSector
  apply (faultsIn_checkedInt _).bind
  intro ahead _
  apply (faultsIn_checkedInt _).bind
  exact fun sectors _ => faultsIn_checkedInt _

lemma faultsIn_clusterRead (cluster r n : ℤ) :
    FaultsIn PositionFault (clusterRead disk cluster r n) := by
  unfold clusterRead
  apply (faultsIn_fat16ClusterToSector cluster).bind
  intro startingSector _
  apply (faultsIn_checkedInt _).bind
  intro startingByte _
  apply (faultsIn_checkedInt _).bind
  exact fun startingPos _ => faultsIn_diskStreamerRead _ _ _

/-- What is left after a step of a read. -/
def restToRead (disk : Disk) (total : ℤ) : ℤ := total - min total (sizeOfClusterBytes disk)

/-- **The step of a read.** What is left after it is less than before. -/
theorem restToRead_lt (hsize : sizeOfClusterBytes disk ≠ 0) {total : ℤ}
    (hrest : 0 < restToRead disk total) : restToRead disk total < total := by
  unfold restToRead at hrest ⊢
  omega

/-- The read, with the part that goes to the disk under its own name. -/
lemma fat16ReadInternalFromStream_eq (hsize : sizeOfClusterBytes disk ≠ 0)
    (cluster offset total : ℤ) :
    fat16ReadInternalFromStream disk cluster offset total = (do
      let clusterToUse ← fat16GetClusterForOffset disk cluster offset
      if clusterToUse < 0 then return (clusterToUse, [])
      else
        let read ← clusterRead disk clusterToUse (offset.tmod (sizeOfClusterBytes disk))
          (min total (sizeOfClusterBytes disk))
        if 0 < restToRead disk total then
          let offsetNext ← checkedInt (offset + min total (sizeOfClusterBytes disk))
          let (res, out) ← fat16ReadInternalFromStream disk cluster offsetNext
            (restToRead disk total)
          return (res, read.out ++ out)
        else return (0, read.out)) := by
  have hmin : (if total > (sizeOfClusterBytes disk : ℤ) then (sizeOfClusterBytes disk : ℤ)
      else total) = min total (sizeOfClusterBytes disk) := by
    by_cases hlt : total > (sizeOfClusterBytes disk : ℤ)
    · rw [if_pos hlt, min_eq_right hlt.le]
    · rw [if_neg hlt, min_eq_left (not_lt.mp hlt)]
  rw [fat16ReadInternalFromStream]
  apply bind_congr
  intro clusterToUse
  by_cases hneg : clusterToUse < 0
  · rw [if_pos hneg, if_pos hneg]
  rw [if_neg hneg, if_neg hneg, dif_neg (by omega)]
  unfold clusterRead restToRead
  simp only [hmin, bind_assoc]
  rfl

/-- The read of one file, or of the entries of one subdirectory. -/
theorem faultsIn_fat16ReadInternal (cluster offset total : ℤ) :
    FaultsIn (ReadFault disk) (fat16ReadInternal disk cluster offset total) := by
  unfold fat16ReadInternal
  by_cases hsize : sizeOfClusterBytes disk = 0
  · -- the walk to the cluster divides first
    have hzero : fat16GetClusterForOffset disk cluster offset = .error .divisionByZero :=
      if_pos hsize
    rw [fat16ReadInternalFromStream, hzero]
    exact faultsIn_error (ReadFault.divisionByZero hsize)
  induction hn : total.toNat using Nat.strong_induction_on generalizing offset total with
  | _ n ih =>
    subst hn
    rw [fat16ReadInternalFromStream_eq hsize]
    apply (faultsIn_fat16GetClusterForOffset cluster offset).bind
    intro clusterToUse _
    by_cases hneg : clusterToUse < 0
    · rw [if_pos hneg]
      exact faultsIn_ok _
    rw [if_neg hneg]
    apply ((faultsIn_clusterRead _ _ _).mono fun _ => PositionFault.readFault).bind
    intro read _
    by_cases hrest : 0 < restToRead disk total
    · rw [if_pos hrest]
      apply ((faultsIn_checkedInt _).mono fun _ => PositionFault.readFault).bind
      intro offsetNext _
      have hless := restToRead_lt hsize hrest
      apply (ih _ (by omega) offsetNext _ rfl).bind
      exact fun rest _ => faultsIn_ok _
    · rw [if_neg hrest]
      exact faultsIn_ok _

/-- Reads of a file have the faults of a read, or meet the null pointer of an item that was not
allocated. -/
theorem faultsIn_fat16Read {descriptor : FatFileDescriptor} {ptr : Addr} {item : FatDirectoryItem}
    (hitem : descriptor.item.payload = .item ptr item) (size nmemb : ℕ) :
    FaultsIn (OpenFault disk) (fat16Read disk descriptor size nmemb) := by
  have hloop : ∀ (n : ℕ) (offset : ℤ),
      FaultsIn (ReadFault disk) (fat16ReadLoop disk item size n offset) := by
    intro n
    induction n with
    | zero => exact fun offset => faultsIn_ok _
    | succ n ih =>
      intro offset
      rw [fat16ReadLoop]
      apply (faultsIn_fat16ReadInternal _ _ _).bind
      intro r _
      by_cases hneg : r.1 < 0
      · simp only [if_pos hneg]
        exact faultsIn_ok _
      · simp only [if_neg hneg]
        apply (ih _).bind
        exact fun rest _ => faultsIn_ok _
  unfold fat16Read
  rw [hitem]
  simp only
  split
  · exact faultsIn_error (Or.inr rfl)
  · apply ((hloop nmemb _).mono fun _ h => Or.inl h).bind
    intro r _
    by_cases hneg : r.1 < 0
    · simp only [if_pos hneg]
      exact faultsIn_ok _
    · simp only [if_neg hneg]
      exact faultsIn_ok _

/-! ## Directories -/

lemma faultsIn_fat16GetTotalItemsLoop (device : Device) (pos i : ℤ) :
    FaultsIn PositionFault (fat16GetTotalItemsLoop device pos i) := by
  induction hn : (2 ^ 31 - pos).toNat using Nat.strong_induction_on generalizing pos i with
  | _ n ih =>
    subst hn
    rw [fat16GetTotalItemsLoop]
    split
    · rename_i fault hread
      exact faultsIn_error (faultsIn_diskStreamerRead device pos _ fault hread)
    · rename_i read hread
      have hpos := diskStreamerRead_pos device hread
      simp only [sizeofFatDirectoryItem] at hpos
      simp only
      split_ifs
      · exact faultsIn_ok i
      · exact ih _ (by omega) read.pos i rfl
      · apply (faultsIn_checkedInt _).bind
        exact fun j _ => ih _ (by omega) read.pos j rfl

lemma faultsIn_fat16CountEntries (item : FatDirectoryItem) :
    FaultsIn PositionFault (fat16CountEntries disk item) := by
  unfold fat16CountEntries
  apply (faultsIn_fat16ClusterToSector _).bind
  exact fun sector _ => faultsIn_fat16GetTotalItemsLoop _ _ _

variable {σ : Type} {A : Allocator σ}

lemma faultsIn_fat16LoadFatDirectory (item : FatDirectoryItem) (s : σ) :
    FaultsIn (ReadFault disk) (fat16LoadFatDirectory A disk item s) := by
  rw [← fat16LoadFatDirectoryStatus_snd]
  apply FaultsIn.map
  unfold fat16LoadFatDirectoryStatus
  split
  · exact faultsIn_ok _
  simp only
  split
  · exact faultsIn_ok _
  apply ((faultsIn_fat16CountEntries item).mono fun _ => PositionFault.readFault).bind
  intro total _
  split
  · exact faultsIn_ok _
  apply (faultsIn_fat16ReadInternal _ _ _).bind
  intro r _
  split
  · exact faultsIn_ok _
  · exact faultsIn_ok _

lemma faultsIn_fat16NewFatItemForDirectoryItem (item : FatDirectoryItem) (s : σ) :
    FaultsIn (ReadFault disk) (fat16NewFatItemForDirectoryItem A disk item s) := by
  unfold fat16NewFatItemForDirectoryItem
  simp only
  split
  · exact faultsIn_ok _
  split
  · apply (faultsIn_fat16LoadFatDirectory item _).bind
    exact fun r _ => faultsIn_ok _
  · exact faultsIn_ok _

lemma faultsIn_fat16FindEntry (directory : FatDirectory) (name : CString) :
    FaultsIn PositionFault (fat16FindEntry directory name) := by
  have hloop : ∀ n i : ℕ, FaultsIn PositionFault
      (fat16FindEntryLoop directory.entries name n i) := by
    intro n
    induction n with
    | zero => exact fun i => faultsIn_ok _
    | succ n ih =>
      intro i
      rw [fat16FindEntryLoop]
      split
      · exact faultsIn_error (Or.inr rfl)
      · split
        · exact faultsIn_ok _
        · exact ih (i + 1)
  exact hloop _ 0

lemma faultsIn_fat16FindItemInDirectory (directory : FatDirectory) (name : CString) (s : σ) :
    FaultsIn (ReadFault disk) (fat16FindItemInDirectory A disk directory name s) := by
  unfold fat16FindItemInDirectory
  apply ((faultsIn_fat16FindEntry directory name).mono fun _ => PositionFault.readFault).bind
  intro found _
  cases found with
  | none => exact faultsIn_ok _
  | some found => exact faultsIn_fat16NewFatItemForDirectoryItem found.2 s

lemma faultsIn_fat16GetDirectoryEntryLoop (currentItem : Option FatItem) (nextParts : List CString)
    (s : σ) :
    FaultsIn (OpenFault disk) (fat16GetDirectoryEntryLoop A disk currentItem nextParts s) := by
  induction nextParts generalizing currentItem s with
  | nil => cases currentItem <;> exact faultsIn_ok _
  | cons part parts ih =>
    cases currentItem with
    | none => exact faultsIn_error (Or.inr rfl)
    | some item =>
      rw [fat16GetDirectoryEntryLoop]
      split
      · exact faultsIn_ok _
      · split
        · exact faultsIn_error (Or.inr rfl)
        · apply ((faultsIn_fat16FindItemInDirectory _ part s).mono fun _ => Or.inl).bind
          exact fun r _ => ih r.1 _

/-- The faults of an open. -/
theorem faultsIn_fat16Open (path : List PathPart) (mode : FileMode) (s : σ) :
    FaultsIn (OpenFault disk) (fat16Open A disk path mode s) := by
  unfold fat16Open
  split
  · exact faultsIn_ok _
  simp only
  split
  · exact faultsIn_ok _
  cases path with
  | nil => exact faultsIn_error (Or.inr rfl)
  | cons first nextParts =>
    have hentry : FaultsIn (OpenFault disk) (fat16GetDirectoryEntry A disk first.part
        (nextParts.map PathPart.part) (A.kmalloc sizeofFatFileDescriptor s).2) := by
      unfold fat16GetDirectoryEntry
      apply ((faultsIn_fat16FindItemInDirectory _ _ _).mono fun _ => Or.inl).bind
      rintro ⟨rootItem, s₁⟩ _
      cases rootItem with
      | none => exact faultsIn_ok _
      | some rootItem => exact faultsIn_fat16GetDirectoryEntryLoop _ _ _
    apply hentry.bind
    rintro ⟨item, s₁⟩ _
    cases item <;> exact faultsIn_ok _

end MarrowOS
