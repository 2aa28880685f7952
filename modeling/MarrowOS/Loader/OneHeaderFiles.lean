import MarrowOS.Task.Mappings

/-!
# ELF files with one program header

The smallest files that the loader accepts: a file header, and one program header with any contents
(`elfPhdrs_oneHeaderFile`).
-/

namespace MarrowOS

open ByteMem CInt

variable {file : FileAnswers} {phdr : Elf32Phdr} {addr moment offset : ℕ}

/-! ## What the loader sees of a file -/

lemma FileAnswers.imageView_add (h : offset < file.filesize) :
    file.imageView addr moment (addr + offset) = file.image offset := by
  rw [FileAnswers.imageView, if_pos ⟨by omega, by omega⟩, Nat.add_sub_cancel_left]

/-! ## The files -/

/-- The words of an executable that is entered at `0x400000` and has one program header behind its
file header. -/
def oneHeaderWords (phdr : Elf32Phdr) : List ℕ :=
  [0x464c457f, 0x00010101, 0, 0, 0x00030002, 1, 0x400000, 52, 0, 0, 0x00200034, 1, 0,
    phdr.pType, phdr.pOffset, phdr.pVaddr, 0, phdr.pFilesz, phdr.pMemsz, phdr.pFlags, 0]

def oneHeaderByte (phdr : Elf32Phdr) (offset : ℕ) : UInt8 :=
  byteOf ((oneHeaderWords phdr).getD (offset / 4) 0) (offset % 4)

def oneHeaderFile (phdr : Elf32Phdr) : FileAnswers where
  fopenOps := []
  fd := 1
  fstat := .ok 84
  fread := 1
  bytes := (List.range 84).map (oneHeaderByte phdr)
  fcloseFrees := []
  stray _ _ := 0

lemma oneHeaderFile_filesize (phdr : Elf32Phdr) : (oneHeaderFile phdr).filesize = 84 := rfl

/-- The fields are words. -/
structure Elf32Phdr.InRange (phdr : Elf32Phdr) : Prop where
  pType : phdr.pType < 2 ^ 32
  pOffset : phdr.pOffset < 2 ^ 32
  pVaddr : phdr.pVaddr < 2 ^ 32
  pFilesz : phdr.pFilesz < 2 ^ 32
  pMemsz : phdr.pMemsz < 2 ^ 32
  pFlags : phdr.pFlags < 2 ^ 32

lemma oneHeaderFile_imageView (h : offset < 84) :
    (oneHeaderFile phdr).imageView addr moment (addr + offset) = oneHeaderByte phdr offset := by
  have hlength : ((List.range 84).map (oneHeaderByte phdr)).length ≤ 84 := by simp
  rw [FileAnswers.imageView_add h]
  show (((List.range 84).map (oneHeaderByte phdr)).take (oneHeaderFile phdr).filesize).getD offset 0
    = oneHeaderByte phdr offset
  rw [oneHeaderFile_filesize, List.take_of_length_le hlength, List.getD_eq_getElem?_getD,
    List.getElem?_map, List.getElem?_range h]
  rfl

/-- The words of the file are read back. -/
lemma readU32_oneHeaderFile {i n : ℕ} (hi : i < 21) (hn : n < 2 ^ 32)
    (hword : (oneHeaderWords phdr).getD i 0 = n) :
    readU32 ((oneHeaderFile phdr).imageView addr moment) (addr + 4 * i) = n := by
  have hbyte : ∀ k < 4, (oneHeaderFile phdr).imageView addr moment (addr + 4 * i + k) =
      byteOf n k := by
    intro k hk
    rw [Nat.add_assoc, oneHeaderFile_imageView (by omega), oneHeaderByte,
      show (4 * i + k) / 4 = i by omega, show (4 * i + k) % 4 = k by omega, hword]
  rw [readU32, hbyte 1 (by omega), hbyte 2 (by omega), hbyte 3 (by omega),
    show (oneHeaderFile phdr).imageView addr moment (addr + 4 * i) = byteOf n 0 from
      hbyte 0 (by omega)]
  simp only [toNat_byteOf]
  omega

/-- The program header that the loader reads. -/
lemma elf32PhdrAt_oneHeaderFile (h : phdr.InRange) :
    elf32PhdrAt ((oneHeaderFile phdr).imageView addr moment) (addr + 52) = phdr := by
  have htype := @readU32_oneHeaderFile phdr addr moment 13 _ (by norm_num) h.pType rfl
  have hoffset := @readU32_oneHeaderFile phdr addr moment 14 _ (by norm_num) h.pOffset rfl
  have hvaddr := @readU32_oneHeaderFile phdr addr moment 15 _ (by norm_num) h.pVaddr rfl
  have hfilesz := @readU32_oneHeaderFile phdr addr moment 17 _ (by norm_num) h.pFilesz rfl
  have hmemsz := @readU32_oneHeaderFile phdr addr moment 18 _ (by norm_num) h.pMemsz rfl
  have hflags := @readU32_oneHeaderFile phdr addr moment 19 _ (by norm_num) h.pFlags rfl
  unfold elf32PhdrAt
  rw [htype, hoffset, hvaddr, hfilesz, hmemsz, hflags]

/-- The file header is accepted, and says where the program header is. -/
lemma elfHeaderAt_oneHeaderFile (phdr : Elf32Phdr) (addr moment : ℕ) :
    elfValidateLoaded (elfHeaderAt ((oneHeaderFile phdr).imageView addr moment) addr) = 0 ∧
    (elfHeaderAt ((oneHeaderFile phdr).imageView addr moment) addr).ePhoff = 52 ∧
    (elfHeaderAt ((oneHeaderFile phdr).imageView addr moment) addr).ePhnum = 1 := by
  have hentry := @readU32_oneHeaderFile phdr addr moment 6 _ (by norm_num)
    (show 0x400000 < 2 ^ 32 by norm_num) rfl
  have hphoff := @readU32_oneHeaderFile phdr addr moment 7 _ (by norm_num)
    (show 52 < 2 ^ 32 by norm_num) rfl
  have hident : ∀ i < 16, (elfHeaderAt ((oneHeaderFile phdr).imageView addr moment) addr).eIdent i =
      oneHeaderByte phdr i := fun i hi => oneHeaderFile_imageView (by omega)
  have htype : (elfHeaderAt ((oneHeaderFile phdr).imageView addr moment) addr).eType = etExec := by
    show readU16 _ (addr + 16) = etExec
    rw [readU16, oneHeaderFile_imageView (by norm_num), Nat.add_assoc,
      oneHeaderFile_imageView (by norm_num)]
    show (byteOf 0x00030002 0).toNat + (byteOf 0x00030002 1).toNat * 2 ^ 8 = etExec
    decide
  have hphnum : (elfHeaderAt ((oneHeaderFile phdr).imageView addr moment) addr).ePhnum = 1 := by
    show readU16 _ (addr + 44) = 1
    rw [readU16, oneHeaderFile_imageView (by norm_num), Nat.add_assoc,
      oneHeaderFile_imageView (by norm_num)]
    show (byteOf 1 0).toNat + (byteOf 1 1).toNat * 2 ^ 8 = 1
    decide
  -- the five checks of `elf_validate_loaded` on these fields
  generalize hheader : elfHeaderAt ((oneHeaderFile phdr).imageView addr moment) addr = header
    at hident htype hphnum ⊢
  have hentry' : header.eEntry = 0x400000 := by rw [← hheader]; exact hentry
  have hphoff' : header.ePhoff = 52 := by rw [← hheader]; exact hphoff
  refine ⟨?_, hphoff', hphnum⟩
  have hsignature : elfValidSignature header = true := by
    rw [elfValidSignature, hident 0 (by norm_num), hident 1 (by norm_num), hident 2 (by norm_num),
      hident 3 (by norm_num)]
    show (byteOf 0x464c457f 0 == 0x7f && byteOf 0x464c457f 1 == 0x45 &&
      byteOf 0x464c457f 2 == 0x4c && byteOf 0x464c457f 3 == 0x46) = true
    decide
  have hclass : elfValidClass header = true := by
    rw [elfValidClass, hident eiClass (by norm_num)]
    show (byteOf 0x00010101 0 == elfclassnone || byteOf 0x00010101 0 == elfclass32) = true
    decide
  have hencoding : elfValidEncoding header = true := by
    rw [elfValidEncoding, hident eiData (by norm_num)]
    show (byteOf 0x00010101 1 == elfdatanone || byteOf 0x00010101 1 == elfdata2lsb) = true
    decide
  have hphdr : elfHasProgramHeader header = true := by
    rw [elfHasProgramHeader, hphoff']
    rfl
  have hexecutable : elfIsExecutable header = true := by
    rw [elfIsExecutable, htype, hentry']
    rfl
  rw [elfValidateLoaded, hsignature, hclass, hencoding, hphdr, hexecutable]
  rfl

/-- **The file has this one program header.** -/
theorem elfPhdrs_oneHeaderFile (h : phdr.InRange) (haddr : addr + 4096 ≤ 2 ^ 31) :
    elfPhdrs (oneHeaderFile phdr) addr = [phdr] := by
  have hphdr : elfPhdr (oneHeaderFile phdr) addr 0 = phdr := by
    have hpheader : elfPheader (elfHeaderAt ((oneHeaderFile phdr).imageView addr 2) addr)
        ⟨0, addr, 0, 0, 0, 0⟩ = addr + 52 := by
      rw [elfPheader, (elfHeaderAt_oneHeaderFile phdr addr 2).2.1, if_neg (by norm_num)]
      dsimp only
      rw [i32_of_lt (by omega) (by omega)]
      exact u32_natCast_of_lt (n := addr + 52) (by omega)
    rw [elfPhdr, hpheader, elfProgramHeader, Nat.cast_zero, zero_mul, add_zero,
      u32_natCast_of_lt (by omega)]
    exact elf32PhdrAt_oneHeaderFile h
  have hphnum : ∀ i, elfPhnum (oneHeaderFile phdr) addr i = 1 := fun i =>
    (elfHeaderAt_oneHeaderFile phdr addr (i + 2)).2.2
  have hmany : (2 ^ 16 : ℕ) = 65534 + 1 + 1 := rfl
  rw [elfPhdrs, hmany, elfPhdrsFrom, hphnum, if_pos Nat.zero_lt_one, elfPhdrsFrom, hphnum,
    if_neg (lt_irrefl 1), hphdr]

end MarrowOS
