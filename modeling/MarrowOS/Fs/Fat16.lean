import MarrowOS.Disk.Streamer
import MarrowOS.Lib.CInt

/-!
# FAT16: the volume and its files (`fat16.c`)

The file allocation table holds 16-bit entries behind the reserved sectors; the data clusters
start behind the root directory. This module models the structures and the functions that
read a file: the walk along the table, the cluster by cluster read and `fat16_read`. The
sizes and positions of C type `int` are integers whose overflow is a fault.
-/

namespace MarrowOS

open CInt

@[simp] abbrev marrowosFat16FatEntrySize : ℤ := 2
@[simp] abbrev marrowosFat16BadSector : ℤ := 0xFF7

@[simp] abbrev fatFileReadOnly : UInt8 := 0x01
@[simp] abbrev fatFileVolumeLabel : UInt8 := 0x08
@[simp] abbrev fatFileSubdirectory : UInt8 := 0x10

/-! ## Structures -/

/-- `struct fat_header`, the fields the driver uses. -/
structure FatHeader where
  sectorsPerCluster : UInt8
  reservedSectors : UInt16
  fatCopies : UInt8
  rootDirEntries : UInt16
  sectorsPerFat : UInt16
deriving DecidableEq, Repr

/-- `struct fat_directory_item`, the fields the driver uses. -/
structure FatDirectoryItem where
  filename : Vector UInt8 8
  ext : Vector UInt8 3
  «attribute» : UInt8
  high16BitsFirstCluster : UInt16
  low16BitsFirstCluster : UInt16
  filesize : UInt32
deriving DecidableEq, Repr

/-- `struct fat_directory`: the pointer to the entry array with the entries it holds. -/
structure FatDirectory where
  item : Addr
  entries : List FatDirectoryItem
  total : ℤ
  sectorPos : ℤ
  endingSectorPos : ℤ
deriving DecidableEq, Repr

/-- The union of `struct fat_item`: a pointer, with what it points to. The `type` field always
says which of the two was stored. -/
inductive FatItemUnion
  | item (ptr : Addr) (item : FatDirectoryItem)
  | directory (ptr : Addr) (directory : FatDirectory)
deriving DecidableEq, Repr

/-- `struct fat_item`, at address `addr`. -/
structure FatItem where
  addr : Addr
  payload : FatItemUnion
deriving DecidableEq, Repr

/-- `struct fat_file_descriptor`. -/
structure FatFileDescriptor where
  item : FatItem
  pos : ℕ
deriving DecidableEq, Repr

/-- `struct fat_private`, less its streams. -/
structure FatPrivate where
  header : FatHeader
  rootDirectory : FatDirectory
deriving DecidableEq, Repr

/-- `struct disk`. -/
structure Disk where
  device : Device
  fsPrivate : FatPrivate

/-! ## Clusters -/

def fat16GetFirstCluster (item : FatDirectoryItem) : ℕ :=
  u32 (item.high16BitsFirstCluster.toNat * 2 ^ 16 + item.low16BitsFirstCluster.toNat)

def fat16ClusterToSector (fatPrivate : FatPrivate) (cluster : ℤ) : Except Fault ℤ := do
  let ahead ← checkedInt (cluster - 2)
  let sectors ← checkedInt (ahead * fatPrivate.header.sectorsPerCluster.toNat)
  checkedInt (fatPrivate.rootDirectory.endingSectorPos + sectors)

def fat16GetFirstFatSector (fatPrivate : FatPrivate) : ℕ :=
  fatPrivate.header.reservedSectors.toNat

/-- A little-endian `uint16_t` read over a cleared variable. -/
def leU16 (bytes : List UInt8) : ℕ :=
  (bytes[0]?.getD 0).toNat + 2 ^ 8 * (bytes[1]?.getD 0).toNat

def fat16GetFatEntry (disk : Disk) (cluster : ℤ) : Except Fault ℤ := do
  let fatTablePosition := fat16GetFirstFatSector disk.fsPrivate * marrowosSectorSize
  let entryOffset ← checkedInt (cluster * marrowosFat16FatEntrySize)
  let read ← diskStreamerRead disk.device (i32 (fatTablePosition + entryOffset)) 2
  return (leU16 read.out : ℕ)

/-- Bytes of a cluster, the divisor of every offset. -/
def sizeOfClusterBytes (disk : Disk) : ℕ :=
  disk.fsPrivate.header.sectorsPerCluster.toNat * marrowosSectorSize

/-- The loop of `fat16_get_cluster_for_offset` with `n` clusters to go. -/
def fat16GetClusterForOffsetLoop (disk : Disk) : (n : ℕ) → (clusterToUse : ℤ) → Except Fault ℤ
  | 0, clusterToUse => return clusterToUse
  | n + 1, clusterToUse => do
    let entry ← fat16GetFatEntry disk clusterToUse
    if entry = 0xFFF8 ∨ entry = 0xFFFF then
      return -eio
    else if entry = marrowosFat16BadSector then
      return -eio
    else if entry = 0xFF0 ∨ entry = 0xFF6 then
      return -eio
    else if entry = 0x00 then
      return -eio
    else
      fat16GetClusterForOffsetLoop disk n entry

def fat16GetClusterForOffset (disk : Disk) (startingCluster offset : ℤ) : Except Fault ℤ :=
  if sizeOfClusterBytes disk = 0 then .error .divisionByZero
  else
    let clustersAhead := offset.tdiv (sizeOfClusterBytes disk)
    fat16GetClusterForOffsetLoop disk clustersAhead.toNat startingCluster

/-! ## Reading -/

/-- The status, and the bytes written from `out` on. -/
def fat16ReadInternalFromStream (disk : Disk) (cluster offset total : ℤ) :
    Except Fault (ℤ × List UInt8) := do
  let size : ℤ := sizeOfClusterBytes disk
  let clusterToUse ← fat16GetClusterForOffset disk cluster offset
  if clusterToUse < 0 then
    return (clusterToUse, [])
  else if _hsize : size = 0 then
    throw .divisionByZero
  else
    let offsetFromCluster := offset.tmod size
    let startingSector ← fat16ClusterToSector disk.fsPrivate clusterToUse
    let startingByte ← checkedInt (startingSector * marrowosSectorSize)
    let startingPos ← checkedInt (startingByte + offsetFromCluster)
    let totalToRead := if total > size then size else total
    let read ← diskStreamerRead disk.device startingPos totalToRead
    if _hrest : total - totalToRead > 0 then
      let offsetNext ← checkedInt (offset + totalToRead)
      let (res, out) ← fat16ReadInternalFromStream disk cluster offsetNext (total - totalToRead)
      return (res, read.out ++ out)
    else
      return (0, read.out)
termination_by total.toNat
decreasing_by
  have hpos : 0 ≤ (sizeOfClusterBytes disk : ℤ) := Int.natCast_nonneg _
  change total - (if total > (sizeOfClusterBytes disk : ℤ) then _ else total) > 0 at _hrest
  change (total - (if total > (sizeOfClusterBytes disk : ℤ) then _ else total)).toNat < _
  split at _hrest
  · rw [if_pos ‹_›]
    omega
  · omega

def fat16ReadInternal (disk : Disk) (startingCluster offset total : ℤ) :
    Except Fault (ℤ × List UInt8) :=
  fat16ReadInternalFromStream disk startingCluster offset total

/-- What `fat16_read` leaves behind. -/
structure Fat16Read where
  res : ℤ
  /-- item `i` is written from `out_ptr + i * size` on -/
  items : List (List UInt8)
  pos : ℕ
deriving DecidableEq, Repr

/-- The loop of `fat16_read` with `n` items to go: the status, the items and the offset. -/
def fat16ReadLoop (disk : Disk) (item : FatDirectoryItem) (size : ℕ) :
    (n : ℕ) → (offset : ℤ) → Except Fault (ℤ × List (List UInt8) × ℤ)
  | 0, offset => return (0, [], offset)
  | n + 1, offset => do
    let (res, out) ← fat16ReadInternal disk (i32 (fat16GetFirstCluster item)) offset (i32 size)
    if res < 0 then
      return (res, [out], offset)
    else
      let (res, items, offset) ← fat16ReadLoop disk item size n (i32 (offset + size))
      return (res, out :: items, offset)

def fat16Read (disk : Disk) (descriptor : FatFileDescriptor) (size nmemb : ℕ) :
    Except Fault Fat16Read :=
  match descriptor.item.payload with
  | .directory _ _ => .error .wrongUnionMember
  | .item ptr item =>
    if ptr = 0 ∧ 0 < nmemb then .error .nullPointer
    else do
      let (res, items, offset) ← fat16ReadLoop disk item size nmemb (i32 descriptor.pos)
      if res < 0 then
        return ⟨res, items, descriptor.pos⟩
      else
        return ⟨i32 nmemb, items, u32 offset⟩

end MarrowOS
