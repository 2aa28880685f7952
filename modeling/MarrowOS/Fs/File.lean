import MarrowOS.CString
import MarrowOS.Config
import MarrowOS.Lib.CInt

/-!
# The file layer (`file.c`)

Open files are descriptors in the 512 slots of `file_descriptors`; slot `i` is file descriptor
number `i + 1`. The layer works through the functions of the file system and a few of its
neighbours, which are taken as given: a `FileWorld` says what each of them answers and does to
the state `ω` of the rest of the kernel. A slot holds the descriptor it points to.
-/

namespace MarrowOS

open CInt

/-! ## Types -/

/-- `FILE_MODE`. -/
inductive FileMode
  | read
  | write
  | append
  | invalid
deriving DecidableEq, Repr

/-- `struct path_part`, at address `addr`, its name at `partAddr`. -/
structure PathPart where
  addr : Addr
  partAddr : Addr
  part : CString
deriving DecidableEq, Repr

/-- `struct path_root`, with the list of parts that starts at `first`. -/
structure PathRoot where
  addr : Addr
  driveNo : ℤ
  first : List PathPart
deriving DecidableEq, Repr

/-- A `struct disk` pointer, with the file system attached to the disk. -/
structure DiskPtr where
  addr : Addr
  filesystem : Addr
deriving DecidableEq, Repr

/-- `struct file_stat`. -/
structure FileStat where
  flags : ℕ
  filesize : ℕ
deriving DecidableEq, Repr

/-- `struct file_descriptor`, at address `addr`. -/
structure FileDescriptor where
  addr : Addr
  index : ℤ
  filesystem : Addr
  «private» : Addr
  disk : Addr
deriving DecidableEq, Repr

@[simp] abbrev sizeofFileDescriptor : ℕ := 16

/-- `file_descriptors`. -/
abbrev FileTable := ℤ → Option FileDescriptor

/-- After `fs_init` no slot is taken. -/
def emptyFileTable : FileTable := fun _ => none

/-- The functions the layer calls: the path parser, `disk_get`, the functions of the file
systems and the kernel heap. -/
structure FileWorld (ω : Type) where
  pathparserParse : CString → ω → Option PathRoot × ω
  pathparserFree : PathRoot → ω → ω
  diskGet : ℤ → ω → Option DiskPtr
  fsOpen : (filesystem disk : Addr) → List PathPart → FileMode → ω → Addr × ω
  fsRead : (filesystem disk «private» : Addr) → (size nmemb : ℕ) → (out : Addr) → ω → ℤ × ω
  fsSeek : (filesystem «private» : Addr) → (offset : ℕ) → (seekMode : ℕ) → ω → ℤ × ω
  fsStat : (filesystem disk «private» : Addr) → ω → (ℤ × FileStat) × ω
  fsClose : (filesystem «private» : Addr) → ω → ℤ × ω
  kzalloc : ℕ → ω → Addr × ω
  kfree : Addr → ω → ω

/-- `ISERR`: an error code cast to a pointer is a negative `int`. -/
def isErr (ptr : Addr) : Bool := i32 ptr < 0

variable {ω : Type} (W : FileWorld ω)

/-! ## Descriptors -/

def fileFreeDescriptor (desc : FileDescriptor) (table : FileTable) (w : ω) : FileTable × ω :=
  (Function.update table (desc.index - 1) none, W.kfree desc.addr w)

/-- The loop of `file_new_descriptor` with `n` slots to go, at slot `i`: the first free one. -/
def fileFreeSlotLoop (table : FileTable) : (n : ℕ) → (i : ℤ) → Option ℤ
  | 0, _ => none
  | n + 1, i => if table i = none then some i else fileFreeSlotLoop table n (i + 1)

/-- Returns the status and the new descriptor. The descriptor is written to without a look at
whether it was allocated. -/
def fileNewDescriptor (table : FileTable) (w : ω) :
    Except Fault ((ℤ × Option FileDescriptor) × FileTable × ω) :=
  match fileFreeSlotLoop table marrowosMaxFileDescriptors 0 with
  | none => .ok ((-enomem, none), table, w)
  | some i =>
    let (addr, w) := W.kzalloc sizeofFileDescriptor w
    if addr = 0 then .error .nullPointer
    else
      let desc : FileDescriptor := ⟨addr, i + 1, 0, 0, 0⟩
      .ok ((0, some desc), Function.update table i desc, w)

def fileGetDescriptor (fd : ℤ) (table : FileTable) : Option FileDescriptor :=
  if fd ≤ 0 ∨ fd > marrowosMaxFileDescriptors then none else table (fd - 1)

/-! ## Opening -/

def fileGetModeByString (str : CString) : FileMode :=
  if strncmp str [0x72] 1 = 0 then .read
  else if strncmp str [0x77] 1 = 0 then .write
  else .invalid

/-- The variables of `fopen` at its label `out`. -/
structure FopenLocals where
  res : ℤ
  rootPath : Option PathRoot
  disk : Option DiskPtr
  descriptorPrivateData : Addr
  desc : Option FileDescriptor

/-- The body of `fopen` once the file system's `open` returned `ptr`. -/
def fopenAttach (root : PathRoot) (disk : DiskPtr) (ptr : Addr) (table : FileTable) (w : ω) :
    Except Fault (FopenLocals × FileTable × ω) := do
  let ((res, desc), table, w) ← fileNewDescriptor W table w
  match desc with
  | none => return (⟨res, root, disk, ptr, none⟩, table, w)
  | some desc =>
    let desc : FileDescriptor :=
      { desc with filesystem := disk.filesystem, «private» := ptr, disk := disk.addr }
    return (⟨desc.index, root, disk, ptr, desc⟩,
      Function.update table (desc.index - 1) desc, w)

/-- The body of `fopen` up to the label `out`. -/
def fopenBody (filename modeStr : CString) (table : FileTable) (w : ω) :
    Except Fault (FopenLocals × FileTable × ω) :=
  let (rootPath, w) := W.pathparserParse filename w
  match rootPath with
  | none => .ok (⟨-einvarg, none, none, 0, none⟩, table, w)
  | some root =>
    if root.first = [] then .ok (⟨-einvarg, root, none, 0, none⟩, table, w)
    else match W.diskGet root.driveNo w with
    | none => .ok (⟨-eio, root, none, 0, none⟩, table, w)
    | some disk =>
      if disk.filesystem = 0 then .ok (⟨-eio, root, disk, 0, none⟩, table, w)
      else
        let mode := fileGetModeByString modeStr
        if mode = .invalid then .ok (⟨-einvarg, root, disk, 0, none⟩, table, w)
        else
          let (ptr, w) := W.fsOpen disk.filesystem disk.addr root.first mode w
          if isErr ptr then .ok (⟨i32 ptr, root, disk, ptr, none⟩, table, w)
          else fopenAttach W root disk ptr table w

/-- The label `out` of `fopen`. -/
def fopenOut (l : FopenLocals) (table : FileTable) (w : ω) : ℤ × FileTable × ω :=
  if l.res < 0 then
    let w := match l.rootPath with
      | none => w
      | some root => W.pathparserFree root w
    match l.disk, l.desc with
    | some disk, desc =>
      if l.descriptorPrivateData ≠ 0 then
        let (_, w) := W.fsClose disk.filesystem l.descriptorPrivateData w
        (0, table, w)
      else match desc with
      | none => (0, table, w)
      | some desc =>
        let (table, w) := fileFreeDescriptor W desc table w
        (0, table, w)
    | none, none => (0, table, w)
    | none, some desc =>
      let (table, w) := fileFreeDescriptor W desc table w
      (0, table, w)
  else (l.res, table, w)

def fopen (filename modeStr : CString) (table : FileTable) (w : ω) :
    Except Fault (ℤ × FileTable × ω) := do
  let (l, table, w) ← fopenBody W filename modeStr table w
  return fopenOut W l table w

/-! ## Open files -/

/-- Returns the status and, when the file system was asked, what it wrote to `stat`. -/
def fstat (fd : ℤ) (table : FileTable) (w : ω) : (ℤ × Option FileStat) × ω :=
  match fileGetDescriptor fd table with
  | none => ((-eio, none), w)
  | some desc =>
    let ((res, stat), w) := W.fsStat desc.filesystem desc.disk desc.private w
    ((res, some stat), w)

def fclose (fd : ℤ) (table : FileTable) (w : ω) : ℤ × FileTable × ω :=
  match fileGetDescriptor fd table with
  | none => (-eio, table, w)
  | some desc =>
    let (res, w) := W.fsClose desc.filesystem desc.private w
    if res = marrowosAllOk then
      let (table, w) := fileFreeDescriptor W desc table w
      (res, table, w)
    else (res, table, w)

def fseek (fd offset : ℤ) (whence : ℕ) (table : FileTable) (w : ω) : ℤ × ω :=
  match fileGetDescriptor fd table with
  | none => (-eio, w)
  | some desc => W.fsSeek desc.filesystem desc.private (u32 offset) whence w

def fread (ptr : Addr) (size nmemb : ℕ) (fd : ℤ) (table : FileTable) (w : ω) : ℤ × ω :=
  if size = 0 ∨ nmemb = 0 ∨ fd < 1 then (-einvarg, w)
  else match fileGetDescriptor fd table with
  | none => (-einvarg, w)
  | some desc => W.fsRead desc.filesystem desc.disk desc.private size nmemb ptr w

/-! ## Calls of the file system -/

/-- A call of one of the file system's functions, an `open` with its result. -/
inductive FsCall
  | fsOpen (filesystem disk : Addr) (path : List PathPart) (mode : FileMode) (result : Addr)
  | fsRead (filesystem disk «private» : Addr) (size nmemb : ℕ) (out : Addr)
  | fsSeek (filesystem «private» : Addr) (offset seekMode : ℕ)
  | fsStat (filesystem disk «private» : Addr)
  | fsClose (filesystem «private» : Addr)
deriving DecidableEq, Repr

/-- The same world, with a record of the calls of the file system. -/
def FileWorld.recorded : FileWorld (ω × List FsCall) where
  pathparserParse path w :=
    let (root, w') := W.pathparserParse path w.1
    (root, w', w.2)
  pathparserFree root w := (W.pathparserFree root w.1, w.2)
  diskGet index w := W.diskGet index w.1
  fsOpen filesystem disk path mode w :=
    let (ptr, w') := W.fsOpen filesystem disk path mode w.1
    (ptr, w', w.2 ++ [.fsOpen filesystem disk path mode ptr])
  fsRead filesystem disk ptr size nmemb out w :=
    let (res, w') := W.fsRead filesystem disk ptr size nmemb out w.1
    (res, w', w.2 ++ [.fsRead filesystem disk ptr size nmemb out])
  fsSeek filesystem ptr offset seekMode w :=
    let (res, w') := W.fsSeek filesystem ptr offset seekMode w.1
    (res, w', w.2 ++ [.fsSeek filesystem ptr offset seekMode])
  fsStat filesystem disk ptr w :=
    let (res, w') := W.fsStat filesystem disk ptr w.1
    (res, w', w.2 ++ [.fsStat filesystem disk ptr])
  fsClose filesystem ptr w :=
    let (res, w') := W.fsClose filesystem ptr w.1
    (res, w', w.2 ++ [.fsClose filesystem ptr])
  kzalloc size w :=
    let (ptr, w') := W.kzalloc size w.1
    (ptr, w', w.2)
  kfree ptr w := (W.kfree ptr w.1, w.2)

end MarrowOS
