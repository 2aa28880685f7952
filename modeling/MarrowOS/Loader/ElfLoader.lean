import MarrowOS.Loader.Elf
import MarrowOS.Task.Process

/-!
# The ELF loader (`elfloader.c`)

`elf_load` reads a file into a heap buffer and checks its header. The file layer takes part
through a `FileAnswers`: what it answers for the file, the bytes it delivers, and what it does to
the kernel heap meanwhile, where it takes blocks and gives back blocks of its own.

The headers may point anywhere in memory. Inside the buffer the loader reads what the file layer
delivered; what it reads elsewhere is part of the answers too, and may be different every time.
-/

namespace MarrowOS

open ByteMem CInt

/-! ## The file layer -/

/-- One call of the file layer into the heap: a request of at least one block, or the release of
the block it holds at a place of its list. -/
inductive FileHeapOp
  | kmalloc (size : ℕ)
  | kfree (place : ℕ)
deriving DecidableEq, Repr

/-- The answer of `fstat`. -/
inductive FstatAnswer
  | ok (filesize : UInt32)
  | eio
  | einvarg
deriving DecidableEq, Repr

/-- What the file layer does for one open file: what `fopen` does to the heap, the descriptor, `0`
if `fopen` failed, the answer of `fstat`, of an `fread` of the whole file the result and the bytes
that it stored, and the places of the blocks that `fclose` gives back. `stray` is memory outside
the file's buffer, as it is seen at successive moments. -/
structure FileAnswers where
  fopenOps : List FileHeapOp
  fd : ℤ
  fstat : FstatAnswer
  fread : ℤ
  bytes : List UInt8
  fcloseFrees : List ℕ
  stray : ℕ → Mem

/-- What `fclose` does to the heap. -/
def FileAnswers.fcloseOps (file : FileAnswers) : List FileHeapOp :=
  file.fcloseFrees.map .kfree

/-- `stat.filesize`. -/
def FileAnswers.filesize (file : FileAnswers) : ℕ :=
  match file.fstat with
  | .ok filesize => filesize.toNat
  | _ => 0

def fileHeapOp (k : Kernel) : FileHeapOp → Kernel
  | .kmalloc size =>
    if heapTotalBlocks size = 0 ∨ 2 ^ 32 ≤ size then k
    else
      let (ptr, heap) := kernelAllocator.kmalloc size k.machine.heap
      let k := k.withMachine { k.machine with heap }
      if ptr = 0 then k else { k with fileBlocks := ⟨ptr, size⟩ :: k.fileBlocks }
  | .kfree place =>
    match k.fileBlocks[place]? with
    | none => k
    | some a =>
      { k.withMachine (kfree kernelAllocator a.ptr k.machine) with
        fileBlocks := k.fileBlocks.eraseIdx place }

def fileHeapOps (ops : List FileHeapOp) (k : Kernel) : Kernel := ops.foldl fileHeapOp k

/-- `fread(ptr, filesize, 1, fd)`: the status and the memory. Nothing is stored past the size. -/
def FileAnswers.freadInto (file : FileAnswers) (ptr : ℕ) (mem : Mem) : ℤ × Mem :=
  if file.filesize = 0 then (-einvarg, mem)
  else (file.fread, writeBytes mem ptr (file.bytes.take file.filesize))

/-- Memory as the loader sees it at some moment, with the file's buffer at `elfMemory`. -/
def FileAnswers.view (file : FileAnswers) (elfMemory moment : ℕ) (mem : Mem) : Mem := fun x =>
  if elfMemory ≤ x ∧ x < elfMemory + file.filesize then mem x else file.stray moment x

/-! ## Headers -/

def elfHeader (view : Mem) (file : ElfFile) : ElfHeader := elfHeaderAt view file.elfMemory

/-- `elf_pheader`, the address of the first program header. -/
def elfPheader (header : ElfHeader) (file : ElfFile) : ℕ :=
  if header.ePhoff = 0 then 0 else u32 (i32 file.elfMemory + header.ePhoff)

/-- `elf_program_header`. -/
def elfProgramHeader (view : Mem) (pheader index : ℕ) : Elf32Phdr :=
  elf32PhdrAt view (u32 (pheader + index * sizeofElf32Phdr))

def elfPhdrPhysAddress (file : ElfFile) (phdr : Elf32Phdr) : ℕ :=
  u32 (file.elfMemory + phdr.pOffset)

def elfValidSignature (header : ElfHeader) : Bool :=
  header.eIdent 0 == 0x7f && header.eIdent 1 == 0x45 && header.eIdent 2 == 0x4c &&
    header.eIdent 3 == 0x46

def elfValidClass (header : ElfHeader) : Bool :=
  header.eIdent eiClass == elfclassnone || header.eIdent eiClass == elfclass32

def elfValidEncoding (header : ElfHeader) : Bool :=
  header.eIdent eiData == elfdatanone || header.eIdent eiData == elfdata2lsb

def elfIsExecutable (header : ElfHeader) : Bool :=
  header.eType == etExec && decide (header.eEntry ≥ marrowosProgramVirtualAddress)

def elfHasProgramHeader (header : ElfHeader) : Bool := header.ePhoff != 0

def elfValidateLoaded (header : ElfHeader) : ℤ :=
  if elfValidSignature header && elfValidClass header && elfValidEncoding header &&
      elfHasProgramHeader header && elfIsExecutable header then marrowosAllOk
  else -einformat

def elfProcessPhdrPtLoad (file : ElfFile) (phdr : Elf32Phdr) : ElfFile :=
  let file := if file.virtualBaseAddress ≥ phdr.pVaddr ∨ file.virtualBaseAddress = 0 then
      { file with
        virtualBaseAddress := phdr.pVaddr
        physicalBaseAddress := u32 (file.elfMemory + phdr.pOffset) }
    else file
  let endVirtualAddress := u32 (phdr.pVaddr + phdr.pFilesz)
  if file.virtualEndAddress ≤ endVirtualAddress ∨ file.virtualEndAddress = 0 then
    { file with
      virtualEndAddress := endVirtualAddress
      physicalEndAddress := u32 (file.elfMemory + phdr.pOffset + phdr.pFilesz) }
  else file

/-- `elf_process_pheader`, which always succeeds. -/
def elfProcessPheader (file : ElfFile) (phdr : Elf32Phdr) : ElfFile :=
  if phdr.pType = ptLoad then elfProcessPhdrPtLoad file phdr else file

def elfProcessPheaders (view : Mem) (file : ElfFile) : ElfFile :=
  let header := elfHeader view file
  (List.range header.ePhnum).foldl
    (fun file i => elfProcessPheader file (elfProgramHeader view (elfPheader header file) i)) file

def elfProcessLoaded (view : Mem) (file : ElfFile) : ℤ × ElfFile :=
  let res := elfValidateLoaded (elfHeader view file)
  if res < 0 then (res, file) else (0, elfProcessPheaders view file)

/-! ## Loading and closing -/

def elfFileFree (file : ElfFile) (m : Machine KernelHeap) : Machine KernelHeap :=
  let m := if file.elfMemory ≠ 0 then kfree kernelAllocator file.elfMemory m else m
  kfree kernelAllocator file.addr m

/-- `elf_close` of a file that is not null. -/
def elfClose (file : ElfFile) (m : Machine KernelHeap) : Machine KernelHeap :=
  let m := if file.elfMemory ≠ 0 then kfree kernelAllocator file.elfMemory m else m
  kfree kernelAllocator file.addr m

/-- `elf_load` at its label `out`. Freed memory still reads as before, so `elf_close` after
`elf_file_free` frees the same pointers again. -/
def elfLoadOut (file : FileAnswers) (res : ℤ) (elfFile : ElfFile) (k : Kernel) :
    ℤ × Option ElfFile × Kernel :=
  let k := fileHeapOps file.fcloseOps k
  if res < 0 then
    let m := elfFileFree elfFile k.machine
    let m := elfClose elfFile m
    (res, none, k.withMachine m)
  else (res, some elfFile, k)

/-- Returns the status and the file. A null `elf_file` is dereferenced by `elf_file_free`. -/
def elfLoad (file : FileAnswers) (k : Kernel) : Except Fault (ℤ × Option ElfFile × Kernel) := do
  let (addr, m) ← kzalloc kernelAllocator sizeofElfFile k.machine
  let k := k.withMachine m
  if addr = 0 then throw .nullPointer
  let elfFile : ElfFile := ⟨addr, 0, 0, 0, 0, 0⟩
  let k := fileHeapOps file.fopenOps k
  if file.fd ≤ 0 then return elfLoadOut file (-eio) elfFile k
  match file.fstat with
  | .eio => return elfLoadOut file (-eio) elfFile k
  | .einvarg => return elfLoadOut file (-einvarg) elfFile k
  | .ok filesize => do
    let (elfMemory, m) ← kzalloc kernelAllocator filesize.toNat k.machine
    let k := k.withMachine m
    let elfFile := { elfFile with elfMemory }
    if elfMemory = 0 then return elfLoadOut file (-enomem) elfFile k
    let (read, mem) := file.freadInto elfMemory k.machine.mem
    let k := k.withMem mem
    if read ≠ 1 then return elfLoadOut file (-eio) elfFile k
    let (res, elfFile) := elfProcessLoaded (file.view elfMemory 0 k.machine.mem) elfFile
    return elfLoadOut file res elfFile k

end MarrowOS
