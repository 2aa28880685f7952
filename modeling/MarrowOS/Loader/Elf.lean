import MarrowOS.Config
import MarrowOS.Lib.ByteMem

/-!
# ELF files in memory (`elf.h`)

The loader reads the file header and the program headers of a file straight from memory, at the
address it was loaded at. Nothing says that what it reads lies inside the file.
-/

namespace MarrowOS

open ByteMem

@[simp] abbrev pfW : ℕ := 0x02
@[simp] abbrev ptLoad : ℕ := 1
@[simp] abbrev etExec : ℕ := 2
@[simp] abbrev eiClass : ℕ := 4
@[simp] abbrev eiData : ℕ := 5
@[simp] abbrev elfclassnone : UInt8 := 0
@[simp] abbrev elfclass32 : UInt8 := 1
@[simp] abbrev elfdatanone : UInt8 := 0
@[simp] abbrev elfdata2lsb : UInt8 := 1

/-- The fields of a `struct elf_header` that the loader reads. -/
structure ElfHeader where
  eIdent : ℕ → UInt8
  eType : ℕ
  eEntry : ℕ
  ePhoff : ℕ
  ePhnum : ℕ

/-- The header at `addr`. -/
def elfHeaderAt (mem : Mem) (addr : ℕ) : ElfHeader where
  eIdent i := mem (addr + i)
  eType := readU16 mem (addr + 16)
  eEntry := readU32 mem (addr + 24)
  ePhoff := readU32 mem (addr + 28)
  ePhnum := readU16 mem (addr + 44)

/-- The fields of a `struct elf32_phdr` that the loader reads. -/
structure Elf32Phdr where
  pType : ℕ
  pOffset : ℕ
  pVaddr : ℕ
  pFilesz : ℕ
  pMemsz : ℕ
  pFlags : ℕ
deriving DecidableEq, Repr

@[simp] abbrev sizeofElf32Phdr : ℕ := 32

/-- The program header at `addr`. -/
def elf32PhdrAt (mem : Mem) (addr : ℕ) : Elf32Phdr where
  pType := readU32 mem addr
  pOffset := readU32 mem (addr + 4)
  pVaddr := readU32 mem (addr + 8)
  pFilesz := readU32 mem (addr + 16)
  pMemsz := readU32 mem (addr + 20)
  pFlags := readU32 mem (addr + 24)

end MarrowOS
