import MarrowOS.Fs.DirectoryScan
import MarrowOS.Fs.FatFaults

/-!
# Positions of clusters

The position of a cluster on the disk is computed in values of type `int`, in bytes. The header
counts sectors in 32 bits, so a volume it declares can have clusters from byte `2 ^ 31` on, and
there the multiplication overflows (`seeksCluster_iff`).
-/

namespace MarrowOS

open CInt Fallible Slice

variable {disk : Disk} {c offset : ℕ}

/-- The first part of `fat16_read_internal_from_stream`: the position that is passed to
`disk_streamer_seek`, or the status to return. -/
def fat16ReadInternalSeek (disk : Disk) (cluster offset : ℤ) : Except Fault (Except ℤ ℤ) := do
  let clusterToUse ← fat16GetClusterForOffset disk cluster offset
  if clusterToUse < 0 then
    return .error clusterToUse
  else
    let offsetFromCluster := offset.tmod (sizeOfClusterBytes disk)
    let startingSector ← fat16ClusterToSector disk.fsPrivate clusterToUse
    let startingByte ← checkedInt (startingSector * marrowosSectorSize)
    let startingPos ← checkedInt (startingByte + offsetFromCluster)
    return .ok startingPos

/-- The read starts at this position. -/
lemma fat16ReadInternalFromStream_seek (hsize : sizeOfClusterBytes disk ≠ 0)
    (cluster offset total : ℤ) :
    fat16ReadInternalFromStream disk cluster offset total = (do
      match ← fat16ReadInternalSeek disk cluster offset with
      | .error status => return (status, [])
      | .ok pos =>
        let read ← diskStreamerRead disk.device pos (min total (sizeOfClusterBytes disk))
        if 0 < restToRead disk total then
          let offsetNext ← checkedInt (offset + min total (sizeOfClusterBytes disk))
          let (res, out) ← fat16ReadInternalFromStream disk cluster offsetNext
            (restToRead disk total)
          return (res, read.out ++ out)
        else return (0, read.out)) := by
  rw [fat16ReadInternalFromStream_eq hsize, fat16ReadInternalSeek, bind_assoc]
  apply bind_congr
  intro clusterToUse
  by_cases hneg : clusterToUse < 0
  · rw [if_pos hneg, if_pos hneg]
    rfl
  · rw [if_neg hneg, if_neg hneg]
    simp only [clusterRead, bind_assoc]
    rfl

/-- A stream asks first for the sector of its position. -/
lemma diskStreamerRead_requested {device : Device} {pos total : ℤ} {read : StreamRead}
    (h : diskStreamerRead device pos total = .ok read) :
    read.requested.head? = some (pos.tdiv marrowosSectorSize) := by
  rw [diskStreamerRead] at h
  rcases bind_eq_ok.mp h with ⟨_, -, h⟩
  by_cases hover : pos.tmod marrowosSectorSize + total ≥ marrowosSectorSize
  · rw [dif_pos hover] at h
    rcases bind_eq_ok.mp h with ⟨out, -, h⟩
    rcases bind_eq_ok.mp h with ⟨posNext, -, h⟩
    rcases bind_eq_ok.mp h with ⟨rest, -, hret⟩
    rw [← Except.ok.inj hret]
    rfl
  · rw [dif_neg hover] at h
    rcases bind_eq_ok.mp h with ⟨out, -, h⟩
    rcases bind_eq_ok.mp h with ⟨posNext, -, hret⟩
    rw [← Except.ok.inj hret]
    rfl

/-! ## The data area -/

/-- Number of sectors of the root directory. -/
def Disk.rootSectors (disk : Disk) : ℕ :=
  (disk.rootEntries * sizeofFatDirectoryItem + (marrowosSectorSize - 1)) / marrowosSectorSize

/-- The data starts behind the root directory, which `fat16_get_root_directory` has loaded. -/
def Disk.RootLoaded (disk : Disk) : Prop :=
  disk.fsPrivate.rootDirectory.endingSectorPos = (disk.rootSector + disk.rootSectors : ℕ)

/-- The position of a byte of a cluster, computed exactly. -/
def Disk.bytePos (disk : Disk) (c offset : ℕ) : ℕ :=
  (disk.rootSector + disk.rootSectors +
    (c - 2) * disk.fsPrivate.header.sectorsPerCluster.toNat) * 512 + offset

lemma Disk.RootLoaded.bytePos_eq (h : disk.RootLoaded) (c offset : ℕ) :
    disk.bytePos c offset = disk.clusterPos c + offset := by
  unfold Disk.RootLoaded at h
  unfold Disk.bytePos Disk.clusterPos
  rw [h, Int.toNat_natCast]

/-- What `fat16_get_root_directory` loads ends where the data starts. -/
lemma fat16GetRootDirectory_rootLoaded {σ : Type} {A : Allocator σ} {s s' : σ}
    {directory : FatDirectory}
    (h : fat16GetRootDirectory A disk s = .ok ((0, directory), s')) :
    directory.endingSectorPos = (disk.rootSector + disk.rootSectors : ℕ) := by
  have halloc : (A.kmalloc (disk.rootEntries * sizeofFatDirectoryItem) s).1 ≠ 0 := by
    intro h0
    unfold fat16GetRootDirectory at h
    rcases bind_eq_ok.mp h with ⟨total, -, h⟩
    have hret := (if_pos h0).symm.trans h
    have hres : -enomem = 0 := congrArg (fun r => r.1.1) (Except.ok.inj hret)
    exact absurd hres (by decide)
  rw [fat16GetRootDirectory_eq halloc] at h
  rcases bind_eq_ok.mp h with ⟨total, -, h⟩
  rcases bind_eq_ok.mp h with ⟨pos, -, h⟩
  rcases bind_eq_ok.mp h with ⟨read, -, hret⟩
  have hend : ((disk.rootSector : ℕ) : ℤ) + (if disk.rootEntries * sizeofFatDirectoryItem %
      marrowosSectorSize ≠ 0 then disk.rootEntries * sizeofFatDirectoryItem / marrowosSectorSize + 1
      else disk.rootEntries * sizeofFatDirectoryItem / marrowosSectorSize : ℕ) =
      directory.endingSectorPos :=
    congrArg (fun r => r.1.2.endingSectorPos) (Except.ok.inj hret)
  rw [← hend]
  unfold Disk.rootSectors
  generalize disk.rootEntries * sizeofFatDirectoryItem = size
  simp only [marrowosSectorSize]
  split <;> omega

/-! ## Positions -/

/-- The read of a byte of the cluster seeks to its position and asks for its sector. -/
def SeeksCluster (disk : Disk) (c offset : ℕ) : Prop :=
  fat16ReadInternalSeek disk c offset = .ok (.ok (disk.bytePos c offset : ℕ)) ∧
    ∀ total read, diskStreamerRead disk.device (disk.bytePos c offset : ℕ) total = .ok read →
      read.requested.head? = some ((disk.bytePos c offset / 512 : ℕ) : ℤ)

/-- The position, for an offset in the cluster. -/
lemma fat16ReadInternalSeek_eq (hoffset : offset < sizeOfClusterBytes disk) :
    fat16ReadInternalSeek disk c offset = (do
      let startingSector ← fat16ClusterToSector disk.fsPrivate c
      let startingByte ← checkedInt (startingSector * marrowosSectorSize)
      let startingPos ← checkedInt (startingByte + offset)
      return .ok startingPos) := by
  have hcluster : fat16GetClusterForOffset disk c offset = .ok (c : ℕ) := by
    unfold fat16GetClusterForOffset
    rw [if_neg (by omega), ← Int.ofNat_tdiv, Nat.div_eq_of_lt hoffset]
    rfl
  have hmod : (offset : ℤ).tmod (sizeOfClusterBytes disk) = offset := by
    rw [← Int.ofNat_tmod, Nat.mod_eq_of_lt hoffset]
  rw [fat16ReadInternalSeek, hcluster, ok_bind, if_neg (by omega), hmod]

/-- A position that is computed is the exact one, and an `int`. -/
lemma fat16ReadInternalSeek_ok (hc : 2 ≤ c) (hroot : disk.RootLoaded)
    (hoffset : offset < sizeOfClusterBytes disk) {pos : ℤ}
    (h : fat16ReadInternalSeek disk c offset = .ok (.ok pos)) :
    pos = disk.bytePos c offset ∧ disk.bytePos c offset < 2 ^ 31 := by
  rw [fat16ReadInternalSeek_eq hoffset] at h
  rcases bind_eq_ok.mp h with ⟨sector, hsector, h⟩
  rcases bind_eq_ok.mp h with ⟨byte, hbyte, h⟩
  rcases bind_eq_ok.mp h with ⟨pos', hpos, hret⟩
  have hnonneg : 0 ≤ disk.fsPrivate.rootDirectory.endingSectorPos := by
    rw [hroot]
    exact Int.natCast_nonneg _
  have hexact := fat16ClusterToSector_ok hc hnonneg hsector
  have heq : pos' = pos := Except.ok.inj (Except.ok.inj hret)
  rcases checkedInt_ok hpos with ⟨hsum, -, hlt⟩
  rw [(checkedInt_ok hbyte).1] at hsum hlt
  rw [← heq, hroot.bytePos_eq]
  simp only [marrowosSectorSize] at hsum hlt
  omega

/-- Below `2 ^ 31` nothing overflows on the way. -/
lemma fat16ReadInternalSeek_of_lt (hc : 2 ≤ c) (hroot : disk.RootLoaded)
    (hoffset : offset < sizeOfClusterBytes disk) (hlt : disk.bytePos c offset < 2 ^ 31) :
    fat16ReadInternalSeek disk c offset = .ok (.ok (disk.bytePos c offset : ℕ)) := by
  have hspc := sectorsPerCluster_pos (show 0 < sizeOfClusterBytes disk by omega)
  have hnonneg : 0 ≤ disk.fsPrivate.rootDirectory.endingSectorPos := by
    rw [hroot]
    exact Int.natCast_nonneg _
  rw [hroot.bytePos_eq] at hlt ⊢
  rcases fat16ClusterToSector_of_lt hc hnonneg hspc (by omega) with ⟨s, hs, hpos⟩
  have hbyte : (s : ℤ) * marrowosSectorSize = (disk.clusterPos c : ℕ) := by
    rw [← hpos]
    rfl
  rw [fat16ReadInternalSeek_eq hoffset, hs, ok_bind, hbyte,
    checkedInt_of_range (by omega) (by omega), ok_bind, checkedInt_of_range (by omega) (by omega),
    ok_bind]
  push_cast
  rfl

/-- **Cluster positions.** The position of a byte of a cluster is computed exactly, and its sector
is asked for, when and only when the position is below `2 ^ 31`. -/
theorem seeksCluster_iff (hc : 2 ≤ c) (hroot : disk.RootLoaded)
    (hoffset : offset < sizeOfClusterBytes disk) :
    SeeksCluster disk c offset ↔ disk.bytePos c offset < 2 ^ 31 := by
  constructor
  · exact fun h => (fat16ReadInternalSeek_ok hc hroot hoffset h.1).2
  · intro hlt
    refine ⟨fat16ReadInternalSeek_of_lt hc hroot hoffset hlt, ?_⟩
    intro total read hread
    rw [diskStreamerRead_requested hread]
    rfl

/-! ## The volume of the boot sector -/

/-- `SectorsBig`. -/
def sectorsBig : ℕ := 0x773594

/-- The volume that `boot.asm` declares. -/
def bootDisk : Disk where
  device.sector _ _ := 0
  fsPrivate :=
    { header := ⟨0x80, 200, 0x02, 0x40, 0x100⟩
      rootDirectory := ⟨4096, [], 0, 712, 716⟩ }

/-- The last byte of the first cluster. -/
theorem seeksCluster_first : SeeksCluster bootDisk 2 65535 :=
  (seeksCluster_iff (by decide) (by rfl) (by decide)).mpr (by decide)

/-- The first byte of cluster 40000 is in the volume, behind its first two gigabytes. -/
theorem not_seeksCluster_far :
    ¬ ∀ (disk : Disk) (big c offset : ℕ), disk.RootLoaded → 2 ≤ c →
      disk.bytePos c offset / 512 < big → big < 2 ^ 32 → offset < sizeOfClusterBytes disk →
      SeeksCluster disk c offset := by
  intro h
  have hseeks := h bootDisk sectorsBig 40000 0 (by rfl) (by decide) (by decide) (by decide)
    (by decide)
  have hlt := (fat16ReadInternalSeek_ok (by decide) (by rfl) (by decide) hseeks.1).2
  exact absurd hlt (by decide)

end MarrowOS
