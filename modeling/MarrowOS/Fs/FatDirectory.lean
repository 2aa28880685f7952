import MarrowOS.CString
import MarrowOS.Disk.StreamerTheorems
import MarrowOS.Fs.Fat16
import MarrowOS.Memory.Machine

/-!
# FAT16: directories (`fat16.c`)

A directory is a table of 32-byte entries. The driver counts the entries of a directory on the
disk, loads the table into an allocated array and searches the array by name; a path is resolved
one directory after the other. The functions that allocate run over the state `σ` of an
allocator. A null pointer to an item is `none`, a null pointer to a directory has address `0`.
-/

namespace MarrowOS

open CInt Slice

/-! ## Entries -/

/-- `sizeof(struct fat_directory_item)`, `sizeof(struct fat_directory)` and
`sizeof(struct fat_item)`. -/
@[simp] abbrev sizeofFatDirectoryItem : ℕ := 32
@[simp] abbrev sizeofFatDirectory : ℕ := 16
@[simp] abbrev sizeofFatItem : ℕ := 8

/-- The entry with the given 32 bytes. Bytes that are missing read as `0`. -/
def fatDirectoryItemOf (bytes : List UInt8) : FatDirectoryItem :=
  let byte (i : ℕ) : UInt8 := bytes[i]?.getD 0
  let word (i : ℕ) : ℕ := (byte i).toNat + 2 ^ 8 * (byte (i + 1)).toNat
  { filename := Vector.ofFn fun i => byte i
    ext := Vector.ofFn fun i => byte (8 + i)
    «attribute» := byte 11
    high16BitsFirstCluster := UInt16.ofNat (word 20)
    low16BitsFirstCluster := UInt16.ofNat (word 26)
    filesize := UInt32.ofNat (word 28 + 2 ^ 16 * word 30) }

/-- The entries of an array of `n` of them. -/
def fatDirectoryItemsOf (bytes : List UInt8) (n : ℕ) : List FatDirectoryItem :=
  (List.range n).map fun i =>
    fatDirectoryItemOf ((bytes.drop (sizeofFatDirectoryItem * i)).take sizeofFatDirectoryItem)

/-- The bytes of a field up to the first NUL or space. -/
def fat16ToProperString : List UInt8 → CString
  | [] => []
  | b :: bytes => if b ≠ 0x00 ∧ b ≠ 0x20 then b :: fat16ToProperString bytes else []

def fat16GetFullRelativeFilename (item : FatDirectoryItem) : CString :=
  let out := fat16ToProperString item.filename.toList
  if item.ext[0] ≠ 0x00 ∧ item.ext[0] ≠ 0x20 then
    out ++ 0x2E :: fat16ToProperString item.ext.toList
  else out

/-! ## Counting -/

/-- The loop of `fat16_get_total_items_for_directory`, with the stream at `pos`. -/
def fat16GetTotalItemsLoop (device : Device) (pos i : ℤ) : Except Fault ℤ :=
  match hread : diskStreamerRead device pos (sizeofFatDirectoryItem : ℕ) with
  | .error fault => .error fault
  | .ok read =>
    let item := fatDirectoryItemOf read.out
    if item.filename[0] = 0x00 then .ok i
    else if item.filename[0] = 0xE5 then fat16GetTotalItemsLoop device read.pos i
    else do
      let i ← checkedInt (i + 1)
      fat16GetTotalItemsLoop device read.pos i
termination_by (2 ^ 31 - pos).toNat
decreasing_by
  all_goals
    have hpos := diskStreamerRead_pos device hread
    simp only [sizeofFatDirectoryItem] at hpos
    omega

def fat16GetTotalItemsForDirectory (disk : Disk) (directoryStartSector : ℕ) : Except Fault ℤ :=
  let directoryStartPos := i32 (u32 (directoryStartSector * marrowosSectorSize))
  fat16GetTotalItemsLoop disk.device directoryStartPos 0

variable {σ : Type}

/-- Returns the status and the directory read; on failure the caller's is left as it was. -/
def fat16GetRootDirectory (A : Allocator σ) (disk : Disk) (s : σ) :
    Except Fault ((ℤ × FatDirectory) × σ) := do
  let header := disk.fsPrivate.header
  let rootDirSectorPos : ℕ :=
    header.fatCopies.toNat * header.sectorsPerFat.toNat + header.reservedSectors.toNat
  let rootDirEntries := header.rootDirEntries.toNat
  let rootDirSize := rootDirEntries * sizeofFatDirectoryItem
  let totalSectors := rootDirSize / marrowosSectorSize
  let totalSectors :=
    if rootDirSize % marrowosSectorSize ≠ 0 then totalSectors + 1 else totalSectors
  let totalItems ← fat16GetTotalItemsForDirectory disk rootDirSectorPos
  let (dir, s) := A.kmalloc rootDirSize s
  if dir = 0 then
    return ((-enomem, disk.fsPrivate.rootDirectory), s)
  else
    let rootDirPos ← checkedInt (rootDirSectorPos * marrowosSectorSize)
    let read ← diskStreamerRead disk.device rootDirPos rootDirSize
    return ((0,
      { item := dir
        entries := fatDirectoryItemsOf read.out rootDirEntries
        total := totalItems
        sectorPos := rootDirSectorPos
        endingSectorPos := rootDirSectorPos + totalSectors }), s)

/-! ## Loading -/

/-- Returns the copy, null when the size is too small or the allocation fails. -/
def fat16CloneDirectoryItem (A : Allocator σ) (size : ℕ) (s : σ) : Addr × σ :=
  if size < sizeofFatDirectoryItem then (0, s) else A.kmalloc size s

def fat16FreeDirectory (A : Allocator σ) (ptr : Addr) (directory : FatDirectory) (s : σ) : σ :=
  if ptr = 0 then s
  else
    let s := if directory.item ≠ 0 then A.kfree directory.item s else s
    A.kfree ptr s

def fat16FatItemFree (A : Allocator σ) (item : FatItem) (s : σ) : σ :=
  let s := match item.payload with
    | .directory ptr directory => fat16FreeDirectory A ptr directory s
    | .item ptr _ => A.kfree ptr s
  A.kfree item.addr s

/-- Returns the pointer to the directory, with what it points to. When the entries cannot be
read, that is a directory which was freed already. -/
def fat16LoadFatDirectory (A : Allocator σ) (disk : Disk) (item : FatDirectoryItem) (s : σ) :
    Except Fault ((Addr × FatDirectory) × σ) := do
  let cleared : FatDirectory := ⟨0, [], 0, 0, 0⟩
  if item.attribute &&& fatFileSubdirectory = 0 then
    return ((0, cleared), s)
  else
    let (ptr, s) := A.kmalloc sizeofFatDirectory s
    if ptr = 0 then
      return ((0, cleared), s)
    else
      let cluster := i32 (fat16GetFirstCluster item)
      let clusterSector ← fat16ClusterToSector disk.fsPrivate cluster
      let totalItems ← fat16GetTotalItemsForDirectory disk (u32 clusterSector)
      let directorySize := i32 (u32 (totalItems * sizeofFatDirectoryItem))
      let (itemPtr, s) := A.kmalloc (u32 directorySize) s
      if itemPtr = 0 then
        let directory := { cleared with total := totalItems }
        return ((ptr, directory), fat16FreeDirectory A ptr directory s)
      else
        let (res, out) ← fat16ReadInternal disk cluster 0 directorySize
        let directory : FatDirectory :=
          { cleared with
            item := itemPtr
            entries := fatDirectoryItemsOf out totalItems.toNat
            total := totalItems }
        if res ≠ 0 then
          return ((ptr, directory), fat16FreeDirectory A ptr directory s)
        else
          return ((ptr, directory), s)

def fat16NewFatItemForDirectoryItem (A : Allocator σ) (disk : Disk) (item : FatDirectoryItem)
    (s : σ) : Except Fault (Option FatItem × σ) := do
  let (addr, s) := A.kmalloc sizeofFatItem s
  if addr = 0 then
    return (none, s)
  else if item.attribute &&& fatFileSubdirectory ≠ 0 then
    let ((ptr, directory), s) ← fat16LoadFatDirectory A disk item s
    return (some ⟨addr, .directory ptr directory⟩, s)
  else
    let (ptr, s) := fat16CloneDirectoryItem A sizeofFatDirectoryItem s
    return (some ⟨addr, .item ptr item⟩, s)

/-! ## Searching -/

/-- The test of `fat16_find_item_in_directory`: the entry's name compares equal. -/
def fat16ItemMatches (name : CString) (item : FatDirectoryItem) : Bool :=
  istrncmp (fat16GetFullRelativeFilename item) name marrowosMaxPath = 0

/-- The loop of `fat16_find_item_in_directory` with `n` entries to go, at index `i`: the entry
it stops at, with its index. -/
def fat16FindEntryLoop (entries : List FatDirectoryItem) (name : CString) :
    (n i : ℕ) → Except Fault (Option (ℕ × FatDirectoryItem))
  | 0, _ => .ok none
  | n + 1, i =>
    match entries[i]? with
    | none => .error .outOfBounds
    | some item =>
      if fat16ItemMatches name item then .ok (some (i, item))
      else fat16FindEntryLoop entries name n (i + 1)

def fat16FindEntry (directory : FatDirectory) (name : CString) :
    Except Fault (Option (ℕ × FatDirectoryItem)) :=
  fat16FindEntryLoop directory.entries name directory.total.toNat 0

def fat16FindItemInDirectory (A : Allocator σ) (disk : Disk) (directory : FatDirectory)
    (name : CString) (s : σ) : Except Fault (Option FatItem × σ) := do
  match ← fat16FindEntry directory name with
  | none => return (none, s)
  | some (_, item) => fat16NewFatItemForDirectoryItem A disk item s

/-- The loop of `fat16_get_directory_entry`. -/
def fat16GetDirectoryEntryLoop (A : Allocator σ) (disk : Disk) :
    (currentItem : Option FatItem) → (nextParts : List CString) → σ →
      Except Fault (Option FatItem × σ)
  | currentItem, [], s => return (currentItem, s)
  | none, _ :: _, _ => throw .nullPointer
  | some currentItem, nextPart :: nextParts, s =>
    match currentItem.payload with
    | .item _ _ => return (none, s)
    | .directory ptr directory => do
      if ptr = 0 then throw .nullPointer
      let (tmpItem, s) ← fat16FindItemInDirectory A disk directory nextPart s
      fat16GetDirectoryEntryLoop A disk tmpItem nextParts (fat16FatItemFree A currentItem s)

/-- The path is its first part and the parts linked behind it. -/
def fat16GetDirectoryEntry (A : Allocator σ) (disk : Disk) (part : CString)
    (nextParts : List CString) (s : σ) : Except Fault (Option FatItem × σ) := do
  let (rootItem, s) ←
    fat16FindItemInDirectory A disk disk.fsPrivate.rootDirectory part s
  match rootItem with
  | none => return (none, s)
  | some rootItem => fat16GetDirectoryEntryLoop A disk (some rootItem) nextParts s

/-! ## The slots of a table -/

/-- The slot was given up. -/
def IsDeleted (item : FatDirectoryItem) : Prop := item.filename[0] = 0xE5

instance (item : FatDirectoryItem) : Decidable (IsDeleted item) :=
  inferInstanceAs (Decidable (_ = _))

/-- No slot behind this one is used. -/
def IsTerminator (item : FatDirectoryItem) : Prop := item.filename[0] = 0x00

instance (item : FatDirectoryItem) : Decidable (IsTerminator item) :=
  inferInstanceAs (Decidable (_ = _))

/-- The entry in slot `i` of a table at position `pos` of the disk. -/
def slotEntry (device : Device) (pos i : ℕ) : FatDirectoryItem :=
  fatDirectoryItemOf (slice device.byte (pos + 32 * i) 32)

/-- The slots before the table's terminator, which is slot `n`. -/
structure Terminated (device : Device) (pos n : ℕ) : Prop where
  before : ∀ i < n, (slotEntry device pos i).filename[0] ≠ 0x00
  ends : (slotEntry device pos n).filename[0] = 0x00

end MarrowOS
