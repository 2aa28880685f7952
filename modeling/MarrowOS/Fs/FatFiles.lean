import MarrowOS.Fs.FatDirectory
import MarrowOS.Fs.PathParser

/-!
# FAT16: open files (`fat16.c`)

`fat16_open` allocates a descriptor and resolves the path to the item it holds; the other calls
get a pointer to the descriptor. `fat16World` is what the file layer then works with, over the
allocator, the disk and the path parser; a fault of one of the functions it calls is the state
of everything that follows.
-/

namespace MarrowOS

open ByteMem CInt

@[simp] abbrev sizeofFatFileDescriptor : ℕ := 8

@[simp] abbrev seekSet : ℕ := 0
@[simp] abbrev seekCur : ℕ := 1
@[simp] abbrev seekEnd : ℕ := 2

@[simp] abbrev fileStatReadOnly : ℕ := 0b00000001

variable {σ : Type}

/-! ## The calls of the driver -/

/-- Returns the pointer, or an error code cast to one, and the descriptor it points to. -/
def fat16Open (A : Allocator σ) (disk : Disk) (path : List PathPart) (mode : FileMode) (s : σ) :
    Except Fault ((Addr × Option FatFileDescriptor) × σ) := do
  if mode ≠ .read then
    return ((u32 (-erdonly), none), s)
  else
    let (descriptor, s) := A.kmalloc sizeofFatFileDescriptor s
    if descriptor = 0 then
      return ((u32 (-enomem), none), s)
    else match path with
    | [] => throw .nullPointer
    | part :: nextParts =>
      match ← fat16GetDirectoryEntry A disk part.part (nextParts.map PathPart.part) s with
      | (none, s) => return ((u32 (-eio), none), A.kfree descriptor s)
      | (some item, s) => return ((descriptor, some ⟨item, 0⟩), s)

def fat16FreeFileDescriptor (A : Allocator σ) (ptr : Addr) (desc : FatFileDescriptor) (s : σ) :
    σ :=
  A.kfree ptr (fat16FatItemFree A desc.item s)

def fat16Close (A : Allocator σ) (ptr : Addr) (desc : FatFileDescriptor) (s : σ) : ℤ × σ :=
  (0, fat16FreeFileDescriptor A ptr desc s)

/-- Returns the status and what is written to the caller's structure, if anything is. -/
def fat16Stat (descriptor : FatFileDescriptor) : Except Fault (ℤ × Option FileStat) :=
  match descriptor.item.payload with
  | .directory _ _ => return (-einvarg, none)
  | .item ptr ritem =>
    if ptr = 0 then throw .nullPointer
    else
      let flags := if ritem.attribute &&& fatFileReadOnly ≠ 0 then fileStatReadOnly else 0x00
      return (0, some ⟨flags, ritem.filesize.toNat⟩)

/-- Returns the status and the descriptor afterwards. -/
def fat16Seek (desc : FatFileDescriptor) (offset seekMode : ℕ) :
    Except Fault (ℤ × FatFileDescriptor) :=
  match desc.item.payload with
  | .directory _ _ => return (-einvarg, desc)
  | .item ptr ritem =>
    if ptr = 0 then throw .nullPointer
    else if ritem.filesize.toNat ≤ offset then return (-eio, desc)
    else if seekMode = seekSet then return (0, { desc with pos := offset })
    else if seekMode = seekEnd then return (-eunimp, desc)
    else if seekMode = seekCur then return (0, { desc with pos := u32 (desc.pos + offset) })
    else return (-einvarg, desc)

/-! ## The file layer's world -/

/-- The allocator's state, the descriptors by their address and the memory reads are written to.
A descriptor that was freed reads as it was. -/
structure FatWorld (σ : Type) where
  heap : σ
  descriptors : Addr → Option FatFileDescriptor
  mem : Mem

/-- Store the items of a read one behind the other, from `out` on. -/
def writeItems (mem : Mem) (out size : ℕ) : (items : List (List UInt8)) → Mem
  | [] => mem
  | item :: items => writeItems (writeBytes mem out item) (out + size) size items

def FatWorld.open (w : FatWorld σ) (A : Allocator σ) (disk : Disk) (path : List PathPart)
    (mode : FileMode) : Except Fault (Addr × FatWorld σ) := do
  let ((ptr, descriptor), heap) ← fat16Open A disk path mode w.heap
  match descriptor with
  | none => return (ptr, { w with heap })
  | some descriptor =>
    return (ptr, { w with heap, descriptors := Function.update w.descriptors ptr descriptor })

/-- The descriptor behind a pointer. -/
def FatWorld.deref (w : FatWorld σ) (ptr : Addr) : Except Fault FatFileDescriptor :=
  match w.descriptors ptr with
  | none => .error .nullPointer
  | some descriptor => .ok descriptor

def FatWorld.read (w : FatWorld σ) (disk : Disk) (ptr : Addr) (size nmemb : ℕ) (out : Addr) :
    Except Fault (ℤ × FatWorld σ) := do
  let descriptor ← w.deref ptr
  let read ← fat16Read disk descriptor size nmemb
  return (read.res, { w with
    descriptors := Function.update w.descriptors ptr (some { descriptor with pos := read.pos })
    mem := writeItems w.mem out size read.items })

def FatWorld.seek (w : FatWorld σ) (ptr : Addr) (offset seekMode : ℕ) :
    Except Fault (ℤ × FatWorld σ) := do
  let descriptor ← w.deref ptr
  let (res, descriptor) ← fat16Seek descriptor offset seekMode
  return (res, { w with descriptors := Function.update w.descriptors ptr (some descriptor) })

/-- A structure that is not written to is returned cleared. -/
def FatWorld.stat (w : FatWorld σ) (ptr : Addr) : Except Fault ((ℤ × FileStat) × FatWorld σ) := do
  let descriptor ← w.deref ptr
  let (res, stat) ← fat16Stat descriptor
  return ((res, stat.getD ⟨0, 0⟩), w)

def FatWorld.close (w : FatWorld σ) (A : Allocator σ) (ptr : Addr) :
    Except Fault (ℤ × FatWorld σ) := do
  let descriptor ← w.deref ptr
  let (res, heap) := fat16Close A ptr descriptor w.heap
  return (res, { w with heap })

/-- Call `f`, unless there was a fault before. -/
def faulting {ω α : Type} (default : α) (f : ω → Except Fault (α × ω)) (w : Except Fault ω) :
    α × Except Fault ω :=
  match w with
  | .error fault => (default, .error fault)
  | .ok w =>
    match f w with
    | .error fault => (default, .error fault)
    | .ok (a, w) => (a, .ok w)

/-- The file layer over FAT16, with one disk. -/
def fat16World (A : Allocator σ) (disk : Disk) (ptr : DiskPtr) :
    FileWorld (Except Fault (FatWorld σ)) where
  pathparserParse path := faulting none fun w =>
    let (root, heap) := pathparserParse A path w.heap
    .ok (root, { w with heap })
  pathparserFree root w := w.map fun w => { w with heap := pathparserFree A root w.heap }
  diskGet index _ := if index ≠ 0 then none else some ptr
  fsOpen _ _ path mode := faulting 0 fun w => w.open A disk path mode
  fsRead _ _ ptr size nmemb out := faulting 0 fun w => w.read disk ptr size nmemb out
  fsSeek _ ptr offset seekMode := faulting 0 fun w => w.seek ptr offset seekMode
  fsStat _ _ ptr := faulting (0, ⟨0, 0⟩) fun w => w.stat ptr
  fsClose _ ptr := faulting 0 fun w => w.close A ptr
  kzalloc size := faulting 0 fun w =>
    let (ptr, heap) := A.kmalloc size w.heap
    .ok (ptr, { w with heap })
  kfree ptr w := w.map fun w => { w with heap := A.kfree ptr w.heap }

end MarrowOS
