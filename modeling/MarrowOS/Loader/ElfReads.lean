import MarrowOS.Lib.Footprint
import MarrowOS.Loader.ElfBounds
import MarrowOS.Loader.OneHeaderFiles
import MarrowOS.Memory.FreshAddressSpace
import MarrowOS.Task.ProcessTable

/-!
# What the ELF reader reads

The functions that read an ELF file, with the stretches of memory that they read. No length is
checked: the headers have to lie in the file for the reader to stay there
(`elfReadsInside_iff`).
-/

namespace MarrowOS

open ByteMem CInt Footprint

namespace Reading

/-! ## The checks -/

/-- `memcmp(buffer, bytes, n) == 0`, which stops at the first byte that differs. -/
def sameBytes (view : Mem) (buffer : ℕ) : List UInt8 → Traced Bool
  | [] => pure true
  | b :: bytes => do
    let c ← traceU8 view buffer
    if c == b then sameBytes view (buffer + 1) bytes else return false

def elfValidSignature (view : Mem) (header : ℕ) : Traced Bool :=
  sameBytes view header [0x7f, 0x45, 0x4c, 0x46]

/-- `e_ident[index] == value`. -/
def eIdentIs (view : Mem) (header index : ℕ) (value : UInt8) : Traced Bool := do
  return (← traceU8 view (header + index)) == value

def elfValidClass (view : Mem) (header : ℕ) : Traced Bool :=
  (eIdentIs view header eiClass elfclassnone).or (eIdentIs view header eiClass elfclass32)

def elfValidEncoding (view : Mem) (header : ℕ) : Traced Bool :=
  (eIdentIs view header eiData elfdatanone).or (eIdentIs view header eiData elfdata2lsb)

def elfIsExecutable (view : Mem) (header : ℕ) : Traced Bool :=
  Traced.and (do return (← traceU16 view (header + 16)) == etExec)
    (do return decide ((← traceU32 view (header + 24)) ≥ marrowosProgramVirtualAddress))

def elfHasProgramHeader (view : Mem) (header : ℕ) : Traced Bool := do
  return (← traceU32 view (header + 28)) != 0

def elfValidateLoaded (view : Mem) (header : ℕ) : Traced ℤ := do
  let valid ← ((((elfValidSignature view header).and (elfValidClass view header)).and
    (elfValidEncoding view header)).and (elfHasProgramHeader view header)).and
    (elfIsExecutable view header)
  return if valid then marrowosAllOk else -einformat

/-! ## The program headers -/

def elfPheader (view : Mem) (header : ℕ) : Traced ℕ := do
  if (← traceU32 view (header + 28)) = 0 then return 0
  return u32 (i32 header + (← traceU32 view (header + 28)))

def elfProgramHeader (view : Mem) (header index : ℕ) : Traced ℕ := do
  return u32 ((← elfPheader view header) + index * sizeofElf32Phdr)

def elfProcessPhdrPtLoad (view : Mem) (file : ElfFile) (phdr : ℕ) : Traced ElfFile := do
  let file ← (do
    if file.virtualBaseAddress ≥ (← traceU32 view (phdr + 8)) ∨ file.virtualBaseAddress = 0 then
      let virtualBaseAddress ← traceU32 view (phdr + 8)
      let pOffset ← traceU32 view (phdr + 4)
      return { file with
        virtualBaseAddress
        physicalBaseAddress := u32 (file.elfMemory + pOffset) }
    return file)
  let pVaddr ← traceU32 view (phdr + 8)
  let pFilesz ← traceU32 view (phdr + 16)
  let endVirtualAddress := u32 (pVaddr + pFilesz)
  if file.virtualEndAddress ≤ endVirtualAddress ∨ file.virtualEndAddress = 0 then
    let pOffset ← traceU32 view (phdr + 4)
    let pFilesz ← traceU32 view (phdr + 16)
    return { file with
      virtualEndAddress := endVirtualAddress
      physicalEndAddress := u32 (file.elfMemory + pOffset + pFilesz) }
  return file

def elfProcessPheader (view : Mem) (file : ElfFile) (phdr : ℕ) : Traced ElfFile := do
  if (← traceU32 view phdr) = ptLoad then elfProcessPhdrPtLoad view file phdr else return file

/-- The loop with at most `n` headers to go, at header `i`. -/
def elfProcessPheadersLoop (view : Mem) : (n i : ℕ) → ElfFile → Traced ElfFile
  | 0, _, file => pure file
  | n + 1, i, file => do
    if i < (← traceU16 view (file.elfMemory + 44)) then
      let phdr ← elfProgramHeader view file.elfMemory i
      let file ← elfProcessPheader view file phdr
      elfProcessPheadersLoop view n (i + 1) file
    else return file

def elfProcessLoaded (view : Mem) (file : ElfFile) : Traced (ℤ × ElfFile) := do
  let res ← elfValidateLoaded view file.elfMemory
  if res < 0 then return (res, file)
  return (0, ← elfProcessPheadersLoop view (2 ^ 16) 0 file)

/-! ## Mapping -/

def processMapPhdr (view : Mem) (directory : Paging4gbChunk) (elfFile : ElfFile) (phdr : ℕ)
    (mem : Mem) : Traced (ℤ × Mem) := do
  let phdrPhysAddress := u32 (elfFile.elfMemory + (← traceU32 view (phdr + 4)))
  let flags := pagingIsPresent ||| pagingAccessFromAll
  let flags :=
    if (← traceU32 view (phdr + 24)) &&& pfW ≠ 0 then flags ||| pagingIsWritable else flags
  let pVaddr ← traceU32 view (phdr + 8)
  let pMemsz ← traceU32 view (phdr + 20)
  return pagingMapTo directory (pagingAlignToLowerPage pVaddr)
    (pagingAlignToLowerPage phdrPhysAddress)
    (pagingAlignAddress (u32 (phdrPhysAddress + pMemsz))) flags mem

def processMapElfLoop (file : FileAnswers) (directory : Paging4gbChunk) (elfFile : ElfFile)
    (phdrs : ℕ) : (n i : ℕ) → (res : ℤ) → Mem → Traced (ℤ × Mem)
  | 0, _, res, mem => pure (res, mem)
  | n + 1, i, res, mem => do
    let view := file.view elfFile.elfMemory (i + 2) mem
    if i < (← traceU16 view (elfFile.elfMemory + 44)) then
      let mapped ←
        processMapPhdr view directory elfFile (u32 (phdrs + i * sizeofElf32Phdr)) mem
      if mapped.1 < 0 then return mapped
      else processMapElfLoop file directory elfFile phdrs n (i + 1) mapped.1 mapped.2
    else return (res, mem)

def processMapElf (file : FileAnswers) (process : Process) (elfFile : ElfFile) (k : Kernel) :
    Traced (ℤ × Kernel) := do
  let phdrs ← elfPheader (file.view elfFile.elfMemory 2 k.machine.mem) elfFile.elfMemory
  let mapped ←
    processMapElfLoop file (k.pageDirectory process) elfFile phdrs (2 ^ 16) 0 0 k.machine.mem
  return (mapped.1, k.withMem mapped.2)

/-! ## The values are those of the functions without the footprints -/

variable {view : Mem} {file : ElfFile} {phdr addr : ℕ}

lemma value_sameBytes_cons (view : Mem) (buffer : ℕ) (b : UInt8) (bytes : List UInt8) :
    (sameBytes view buffer (b :: bytes)).value =
      (view buffer == b && (sameBytes view (buffer + 1) bytes).value) := by
  rw [sameBytes, value_bind, value_ite, value_traceU8]
  cases hsame : view buffer == b <;> rfl

lemma value_elfValidSignature (view : Mem) (addr : ℕ) : (elfValidSignature view addr).value =
    MarrowOS.elfValidSignature (elfHeaderAt view addr) := by
  unfold elfValidSignature
  rw [value_sameBytes_cons, value_sameBytes_cons, value_sameBytes_cons, value_sameBytes_cons,
    sameBytes, value_pure, Bool.and_true, ← Bool.and_assoc, ← Bool.and_assoc]
  rfl

lemma value_elfValidClass (view : Mem) (addr : ℕ) : (elfValidClass view addr).value =
    MarrowOS.elfValidClass (elfHeaderAt view addr) := by
  unfold elfValidClass
  rw [value_or]
  rfl

lemma value_elfValidEncoding (view : Mem) (addr : ℕ) : (elfValidEncoding view addr).value =
    MarrowOS.elfValidEncoding (elfHeaderAt view addr) := by
  unfold elfValidEncoding
  rw [value_or]
  rfl

lemma value_elfIsExecutable (view : Mem) (addr : ℕ) : (elfIsExecutable view addr).value =
    MarrowOS.elfIsExecutable (elfHeaderAt view addr) := by
  have htype : (elfHeaderAt view addr).eType = readU16 view (addr + 16) := rfl
  have hentry : (elfHeaderAt view addr).eEntry = readU32 view (addr + 24) := rfl
  unfold elfIsExecutable MarrowOS.elfIsExecutable
  simp only [value_and, value_bind, value_pure, value_traceU16, value_traceU32]
  rw [htype, hentry]

lemma value_elfHasProgramHeader (view : Mem) (addr : ℕ) : (elfHasProgramHeader view addr).value =
    MarrowOS.elfHasProgramHeader (elfHeaderAt view addr) := by
  have hphoff : (elfHeaderAt view addr).ePhoff = readU32 view (addr + 28) := rfl
  unfold elfHasProgramHeader MarrowOS.elfHasProgramHeader
  simp only [value_bind, value_pure, value_traceU32]
  rw [hphoff]

lemma value_elfValidateLoaded (view : Mem) (addr : ℕ) :
    (elfValidateLoaded view addr).value = MarrowOS.elfValidateLoaded (elfHeaderAt view addr) := by
  unfold elfValidateLoaded MarrowOS.elfValidateLoaded
  simp only [value_bind, value_pure, value_and]
  rw [value_elfValidSignature, value_elfValidClass, value_elfValidEncoding,
    value_elfHasProgramHeader, value_elfIsExecutable]

lemma value_elfPheader (view : Mem) (file : ElfFile) :
    (elfPheader view file.elfMemory).value =
      MarrowOS.elfPheader (elfHeader view file) file := by
  have hphoff : (elfHeader view file).ePhoff = readU32 view (file.elfMemory + 28) := rfl
  unfold elfPheader MarrowOS.elfPheader
  simp only [value_ite, value_pure, value_bind, value_traceU32]
  rw [hphoff]

lemma value_elfProcessPhdrPtLoad (view : Mem) (file : ElfFile) (phdr : ℕ) :
    (elfProcessPhdrPtLoad view file phdr).value =
      MarrowOS.elfProcessPhdrPtLoad file (elf32PhdrAt view phdr) := by
  have hoffset : (elf32PhdrAt view phdr).pOffset = readU32 view (phdr + 4) := rfl
  have hvaddr : (elf32PhdrAt view phdr).pVaddr = readU32 view (phdr + 8) := rfl
  have hfilesz : (elf32PhdrAt view phdr).pFilesz = readU32 view (phdr + 16) := rfl
  unfold elfProcessPhdrPtLoad MarrowOS.elfProcessPhdrPtLoad
  simp only [value_bind, value_traceU32, value_pure, value_ite]
  rewrite [hoffset, hvaddr, hfilesz]
  generalize readU32 view (phdr + 4) = pOffset
  generalize readU32 view (phdr + 8) = pVaddr
  generalize readU32 view (phdr + 16) = pFilesz
  split_ifs <;> rfl

lemma value_elfProcessPheader (view : Mem) (file : ElfFile) (phdr : ℕ) :
    (elfProcessPheader view file phdr).value =
      MarrowOS.elfProcessPheader file (elf32PhdrAt view phdr) := by
  have htype : (elf32PhdrAt view phdr).pType = readU32 view phdr := rfl
  unfold elfProcessPheader MarrowOS.elfProcessPheader
  simp only [value_bind, value_traceU32, value_pure, value_ite, value_elfProcessPhdrPtLoad]
  rw [htype]

/-- The loop goes through the headers that are left. -/
lemma value_elfProcessPheadersLoop (view : Mem) : ∀ (n i : ℕ) (file : ElfFile),
    (elfHeader view file).ePhnum ≤ i + n → (elfProcessPheadersLoop view n i file).value =
      (List.range' i ((elfHeader view file).ePhnum - i)).foldl (fun f j =>
        MarrowOS.elfProcessPheader f (MarrowOS.elfProgramHeader view
          (MarrowOS.elfPheader (elfHeader view file) f) j)) file := by
  intro n
  induction n with
  | zero =>
    intro i file hn
    rw [Nat.sub_eq_zero_of_le (by omega)]
    rfl
  | succ n ih =>
    intro i file hn
    have hphnum : (elfHeader view file).ePhnum = readU16 view (file.elfMemory + 44) := rfl
    rw [elfProcessPheadersLoop, value_bind, value_ite, value_traceU16, ← hphnum]
    by_cases hi : i < (elfHeader view file).ePhnum
    · obtain ⟨m, hm⟩ : ∃ m, (elfHeader view file).ePhnum - i = m + 1 :=
        ⟨(elfHeader view file).ePhnum - i - 1, by omega⟩
      rw [if_pos hi, hm, List.range'_succ, List.foldl_cons, value_bind, value_bind,
        value_elfProcessPheader]
      have hphdr : elf32PhdrAt view (elfProgramHeader view file.elfMemory i).value =
          MarrowOS.elfProgramHeader view (MarrowOS.elfPheader (elfHeader view file) file) i := by
        unfold elfProgramHeader MarrowOS.elfProgramHeader
        rw [value_bind, value_pure, value_elfPheader]
      rw [hphdr]
      generalize hfile : MarrowOS.elfProcessPheader file _ = file'
      have hmemory : file'.elfMemory = file.elfMemory := by
        rw [← hfile]
        exact elfProcessPheader_elfMemory
      have hheader : elfHeader view file' = elfHeader view file := by
        unfold elfHeader
        rw [hmemory]
      rw [ih (i + 1) file' (by rw [hheader]; omega), hheader,
        show (elfHeader view file).ePhnum - (i + 1) = m by omega]
    · rw [if_neg hi, Nat.sub_eq_zero_of_le (by omega)]
      rfl

/-- **`elf_process_loaded`** with its footprint. -/
theorem value_elfProcessLoaded (view : Mem) (file : ElfFile) :
    (elfProcessLoaded view file).value = MarrowOS.elfProcessLoaded view file := by
  have hphnum : (elfHeader view file).ePhnum < 2 ^ 16 := readU16_lt _ _
  have hpheaders : (elfProcessPheadersLoop view (2 ^ 16) 0 file).value =
      MarrowOS.elfProcessPheaders view file := by
    rw [value_elfProcessPheadersLoop view _ _ _ (by omega), Nat.sub_zero,
      ← List.range_eq_range']
    rfl
  unfold elfProcessLoaded MarrowOS.elfProcessLoaded
  rw [value_bind, value_ite, value_bind, value_pure, value_pure, hpheaders,
    value_elfValidateLoaded]
  rfl

lemma value_processMapPhdr (view : Mem) (directory : Paging4gbChunk) (elfFile : ElfFile) (phdr : ℕ)
    (mem : Mem) : (processMapPhdr view directory elfFile phdr mem).value =
      MarrowOS.processMapPhdr directory elfFile (elf32PhdrAt view phdr) mem := by
  have hoffset : (elf32PhdrAt view phdr).pOffset = readU32 view (phdr + 4) := rfl
  have hvaddr : (elf32PhdrAt view phdr).pVaddr = readU32 view (phdr + 8) := rfl
  have hmemsz : (elf32PhdrAt view phdr).pMemsz = readU32 view (phdr + 20) := rfl
  have hflags : (elf32PhdrAt view phdr).pFlags = readU32 view (phdr + 24) := rfl
  unfold processMapPhdr MarrowOS.processMapPhdr elfPhdrPhysAddress
  simp only [value_bind, value_pure, value_traceU32]
  rw [hoffset, hvaddr, hmemsz, hflags]

lemma value_processMapElfLoop (files : FileAnswers) (directory : Paging4gbChunk)
    (elfFile : ElfFile) (phdrs : ℕ) : ∀ (n i : ℕ) (res : ℤ) (mem : Mem),
    (processMapElfLoop files directory elfFile phdrs n i res mem).value =
      MarrowOS.processMapElfLoop files directory elfFile phdrs n i res mem := by
  intro n
  induction n with
  | zero => exact fun i res mem => rfl
  | succ n ih =>
    intro i res mem
    have hphnum : (elfHeader (files.view elfFile.elfMemory (i + 2) mem) elfFile).ePhnum =
        readU16 (files.view elfFile.elfMemory (i + 2) mem) (elfFile.elfMemory + 44) := rfl
    have hphdr : MarrowOS.elfProgramHeader (files.view elfFile.elfMemory (i + 2) mem) phdrs i =
        elf32PhdrAt (files.view elfFile.elfMemory (i + 2) mem)
          (u32 (phdrs + i * sizeofElf32Phdr)) := rfl
    unfold processMapElfLoop MarrowOS.processMapElfLoop
    simp only [value_bind, value_ite, value_pure, value_traceU16, value_processMapPhdr, ih]
    rw [hphnum, hphdr]

/-- **`process_map_elf`** with its footprint. -/
theorem value_processMapElf (files : FileAnswers) (process : Process) (elfFile : ElfFile)
    (k : Kernel) : (processMapElf files process elfFile k).value =
      MarrowOS.processMapElf files process elfFile k := by
  unfold processMapElf MarrowOS.processMapElf
  simp only [value_bind, value_pure, value_processMapElfLoop, value_elfPheader]

end Reading

/-! ## The file -/

/-- The file header, as it lies in the file. -/
def FileAnswers.header (file : FileAnswers) : ElfHeader := elfHeaderAt file.image 0

/-- What is asked of the first six bytes. -/
def ElfHeader.identChecks (header : ElfHeader) : List Bool :=
  [header.eIdent 0 == 0x7f, header.eIdent 1 == 0x45, header.eIdent 2 == 0x4c,
    header.eIdent 3 == 0x46, elfValidClass header, elfValidEncoding header]

/-- The program headers lie behind each other in the file. -/
def FileAnswers.HasHeaders (file : FileAnswers) : Prop :=
  52 ≤ file.filesize ∧ (file.header.ePhnum = 0 ∨
    file.header.ePhoff + sizeofElf32Phdr * file.header.ePhnum ≤ file.filesize)

/-- A file that is rejected has to be as long as what is looked at before. -/
def FileAnswers.ReaderStays (file : FileAnswers) : Prop :=
  if elfValidateLoaded file.header < 0 then
    32 ≤ file.filesize ∨ ∃ i < file.filesize, file.header.identChecks[i]? = some false
  else file.HasHeaders

variable {file : FileAnswers} {view : Mem} {addr moment offset : ℕ}

lemma readU16_imageView (h : offset + 2 ≤ file.filesize) :
    readU16 (file.imageView addr moment) (addr + offset) = readU16 file.image offset := by
  rw [readU16, readU16, Nat.add_assoc, FileAnswers.imageView_add (by omega),
    FileAnswers.imageView_add (by omega)]

lemma readU32_imageView (h : offset + 4 ≤ file.filesize) :
    readU32 (file.imageView addr moment) (addr + offset) = readU32 file.image offset := by
  rw [readU32, readU32, Nat.add_assoc addr offset 1, Nat.add_assoc addr offset 2,
    Nat.add_assoc addr offset 3,
    FileAnswers.imageView_add (by omega), FileAnswers.imageView_add (by omega),
    FileAnswers.imageView_add (by omega), FileAnswers.imageView_add (by omega)]

lemma eIdent_imageView {i : ℕ} (hi : i < file.filesize) :
    (elfHeaderAt (file.imageView addr moment) addr).eIdent i = file.header.eIdent i := by
  show file.imageView addr moment (addr + i) = file.image (0 + i)
  rw [FileAnswers.imageView_add hi, Nat.zero_add]

/-- The checks of the bytes that are in the file. -/
lemma identChecks_imageView {i : ℕ} (hi : i < file.filesize) :
    (elfHeaderAt (file.imageView addr moment) addr).identChecks[i]? =
      file.header.identChecks[i]? := by
  unfold ElfHeader.identChecks elfValidClass elfValidEncoding
  rcases i with _ | _ | _ | _ | _ | _ | i
  all_goals
    simp only [List.getElem?_cons_zero, List.getElem?_cons_succ, List.getElem?_nil,
      eIdent_imageView hi, zero_add, Nat.reduceAdd, eiClass, eiData]

/-- The checks of a file that is long enough. -/
lemma elfValidateLoaded_imageView (h : 32 ≤ file.filesize) :
    elfValidateLoaded (elfHeaderAt (file.imageView addr moment) addr) =
      elfValidateLoaded file.header := by
  have hident : ∀ i < 6, (elfHeaderAt (file.imageView addr moment) addr).eIdent i =
      file.header.eIdent i := fun i hi => eIdent_imageView (by omega)
  have htype : (elfHeaderAt (file.imageView addr moment) addr).eType = file.header.eType :=
    readU16_imageView (by omega)
  have hentry : (elfHeaderAt (file.imageView addr moment) addr).eEntry = file.header.eEntry :=
    readU32_imageView (by omega)
  have hphoff : (elfHeaderAt (file.imageView addr moment) addr).ePhoff = file.header.ePhoff :=
    readU32_imageView (by omega)
  unfold elfValidateLoaded elfValidSignature elfValidClass elfValidEncoding elfHasProgramHeader
    elfIsExecutable
  rw [hident 0 (by norm_num), hident 1 (by norm_num), hident 2 (by norm_num),
    hident 3 (by norm_num), hident eiClass (by norm_num), hident eiData (by norm_num), htype,
    hentry, hphoff]

lemma sameBytes_within_nil {i size : ℕ} : (Reading.sameBytes view (addr + i) []).Within addr size :=
  within_pure _

lemma sameBytes_within_cons {i size : ℕ} {b : UInt8} {bytes : List UInt8} :
    (Reading.sameBytes view (addr + i) (b :: bytes)).Within addr size ↔ i + 1 ≤ size ∧
      ((view (addr + i) == b) = true →
        (Reading.sameBytes view (addr + (i + 1)) bytes).Within addr size) := by
  rw [Reading.sameBytes, within_bind, within_traceU8, value_traceU8, inside_add, Nat.add_assoc]
  cases hsame : view (addr + i) == b <;> simp

lemma eIdentIs_within {i : ℕ} {value : UInt8} {size : ℕ} :
    (Reading.eIdentIs view addr i value).Within addr size ↔ i + 1 ≤ size := by
  unfold Reading.eIdentIs
  rw [within_bind, within_traceU8, inside_add]
  exact and_iff_left (within_pure _)

/-- One byte is read for each of six checks, up to the first that fails. -/
lemma checks_iff (b₀ b₁ b₂ b₃ b₄ b₅ : Bool) (n : ℕ) :
    ((1 ≤ n ∧ (b₀ = true → 2 ≤ n ∧ (b₁ = true → 3 ≤ n ∧ (b₂ = true → 4 ≤ n)))) ∧
      ((b₀ && b₁ && b₂ && b₃) = true → 5 ≤ n) ∧ ((b₀ && b₁ && b₂ && b₃ && b₄) = true → 6 ≤ n) ∧
      ((b₀ && b₁ && b₂ && b₃ && b₄ && b₅) = true → 32 ≤ n)) ↔
    32 ≤ n ∨ ∃ i < n, [b₀, b₁, b₂, b₃, b₄, b₅][i]? = some false := by
  constructor
  · rintro ⟨⟨h₁, hrest⟩, h₅, h₆, h₃₂⟩
    by_contra hnot
    push Not at hnot
    -- as long as the checks succeed, the next byte is read
    have hb₀ : b₀ = true := by simpa using hnot.2 0 h₁
    have hb₁ : b₁ = true := by simpa using hnot.2 1 (hrest hb₀).1
    have hb₂ : b₂ = true := by simpa using hnot.2 2 ((hrest hb₀).2 hb₁).1
    have hb₃ : b₃ = true := by simpa using hnot.2 3 (((hrest hb₀).2 hb₁).2 hb₂)
    subst hb₀ hb₁ hb₂ hb₃
    have hb₄ : b₄ = true := by simpa using hnot.2 4 (h₅ rfl)
    subst hb₄
    have hb₅ : b₅ = true := by simpa using hnot.2 5 (h₆ rfl)
    subst hb₅
    exact absurd (h₃₂ rfl) (by omega)
  · rintro (h | ⟨i, hi, hfalse⟩)
    · exact ⟨⟨by omega, fun _ => ⟨by omega, fun _ => ⟨by omega, fun _ => by omega⟩⟩⟩,
        fun _ => by omega, fun _ => by omega, fun _ => h⟩
    · rcases i with _ | _ | _ | _ | _ | _ | i
      · simp at hfalse
        simp [hfalse]
        omega
      · simp at hfalse
        simp [hfalse]
        omega
      · simp at hfalse
        simp [hfalse]
        omega
      · simp at hfalse
        simp [hfalse]
        omega
      · simp at hfalse
        simp [hfalse]
        omega
      · simp at hfalse
        simp [hfalse]
        omega
      · simp at hfalse

/-- The checks stop at the first byte that is wrong, or look at the header up to `e_phoff`. -/
lemma elfValidateLoaded_within (view : Mem) (addr filesize : ℕ) :
    (Reading.elfValidateLoaded view addr).Within addr filesize ↔ 32 ≤ filesize ∨
      ∃ i < filesize, (elfHeaderAt view addr).identChecks[i]? = some false := by
  have hsignature : (Reading.elfValidSignature view addr).Within addr filesize ↔
      1 ≤ filesize ∧ (((elfHeaderAt view addr).eIdent 0 == 0x7f) = true → 2 ≤ filesize ∧
        (((elfHeaderAt view addr).eIdent 1 == 0x45) = true → 3 ≤ filesize ∧
          (((elfHeaderAt view addr).eIdent 2 == 0x4c) = true → 4 ≤ filesize))) := by
    have hstart : Reading.elfValidSignature view addr =
        Reading.sameBytes view (addr + 0) [0x7f, 0x45, 0x4c, 0x46] := rfl
    rw [hstart, sameBytes_within_cons, sameBytes_within_cons, sameBytes_within_cons,
      sameBytes_within_cons]
    simp only [sameBytes_within_nil, implies_true, and_true]
    rfl
  have hclass : (Reading.elfValidClass view addr).Within addr filesize ↔ 5 ≤ filesize := by
    unfold Reading.elfValidClass
    rw [within_or, eIdentIs_within, eIdentIs_within]
    exact and_iff_left_of_imp fun h _ => h
  have hencoding : (Reading.elfValidEncoding view addr).Within addr filesize ↔ 6 ≤ filesize := by
    unfold Reading.elfValidEncoding
    rw [within_or, eIdentIs_within, eIdentIs_within]
    exact and_iff_left_of_imp fun h _ => h
  have hphdr : (Reading.elfHasProgramHeader view addr).Within addr filesize ↔ 32 ≤ filesize := by
    unfold Reading.elfHasProgramHeader
    rw [within_bind, within_traceU32, inside_add]
    exact and_iff_left (within_pure _)
  have hexecutable : 32 ≤ filesize → (Reading.elfIsExecutable view addr).Within addr filesize := by
    intro h
    unfold Reading.elfIsExecutable
    rw [within_and, within_bind, within_bind, within_traceU16, within_traceU32, inside_add,
      inside_add]
    exact ⟨⟨by omega, within_pure _⟩, fun _ => ⟨by omega, within_pure _⟩⟩
  unfold Reading.elfValidateLoaded ElfHeader.identChecks
  rw [← checks_iff, within_bind, within_and, within_and, within_and, within_and, value_and,
    value_and, value_and, Reading.value_elfValidSignature, Reading.value_elfValidClass,
    Reading.value_elfValidEncoding, hsignature, hclass, hencoding, hphdr]
  constructor
  · rintro ⟨⟨⟨⟨⟨hs, hc⟩, he⟩, hp⟩, -⟩, -⟩
    exact ⟨hs, hc, he, hp⟩
  · rintro ⟨hs, hc, he, hp⟩
    refine ⟨⟨⟨⟨⟨hs, hc⟩, he⟩, hp⟩, fun hvalid => hexecutable (hp ?_)⟩, within_pure _⟩
    rw [value_and, value_and, value_and, Reading.value_elfValidSignature,
      Reading.value_elfValidClass, Reading.value_elfValidEncoding] at hvalid
    exact (Bool.and_eq_true_iff.mp hvalid).1

/-! ## The program headers -/

/-- Where program header `i` is read. -/
def elfPhdrAddress (view : Mem) (elfFile : ElfFile) (i : ℕ) : ℕ :=
  u32 (elfPheader (elfHeader view elfFile) elfFile + i * sizeofElf32Phdr)

lemma ePhoff_ne_zero {header : ElfHeader} (h : ¬ elfValidateLoaded header < 0) :
    header.ePhoff ≠ 0 := by
  intro hzero
  apply h
  rw [elfValidateLoaded, elfHasProgramHeader, hzero, if_neg (by simp)]
  decide

lemma elfPhdrAddress_eq {elfFile : ElfFile} {i : ℕ}
    (hphoff : (elfHeader view elfFile).ePhoff ≠ 0) : elfPhdrAddress view elfFile i =
      (elfFile.elfMemory + (elfHeader view elfFile).ePhoff + 32 * i) % 2 ^ 32 := by
  unfold elfPhdrAddress elfPheader
  rw [if_neg hphoff, u32_i32_add]
  unfold u32
  simp only [sizeofElf32Phdr]
  omega

/-- Headers behind each other, the last of which ends in the buffer, do not wrap around. -/
lemma headers_inside {phoff count size : ℕ} (hfits : addr + size ≤ 2 ^ 32)
    (h : phoff + 32 * count ≤ size) {i : ℕ} (hi : i < count) :
    (Span.mk ((addr + phoff + 32 * i) % 2 ^ 32) 32).Inside addr size := by
  unfold Span.Inside
  dsimp only
  omega

/-- Headers that are all in the buffer lie behind each other: none of them can wrap around. -/
lemma headers_end {phoff count size : ℕ} (hpos : 0 < addr) (hfits : addr + size ≤ 2 ^ 32)
    (hphoff : phoff < 2 ^ 32)
    (h : ∀ i < count, (Span.mk ((addr + phoff + 32 * i) % 2 ^ 32) 32).Inside addr size) :
    count = 0 ∨ phoff + 32 * count ≤ size := by
  have hupto : ∀ j, j + 1 ≤ count → phoff + 32 * (j + 1) ≤ size := by
    intro j
    induction j with
    | zero =>
      intro hj
      have hinside := h 0 (by omega)
      unfold Span.Inside at hinside
      dsimp only at hinside
      omega
    | succ j ih =>
      intro hj
      have hend := ih (by omega)
      have hinside := h (j + 1) (by omega)
      unfold Span.Inside at hinside
      dsimp only at hinside
      omega
  cases count with
  | zero => exact Or.inl rfl
  | succ count => exact Or.inr (hupto count le_rfl)

/-- What is read of a program header lies in it. -/
lemma elfProcessPheader_within {elfFile : ElfFile} {phdr base size : ℕ}
    (h : (Span.mk phdr 32).Inside base size) :
    (Reading.elfProcessPheader view elfFile phdr).Within base size := by
  have hword : ∀ o ≤ 28, (Span.mk (phdr + o) 4).Inside base size := fun o ho => h.sub (by omega)
  have htype : (Span.mk phdr 4).Inside base size := hword 0 (by norm_num)
  unfold Reading.elfProcessPheader Reading.elfProcessPhdrPtLoad
  rw [within_bind, within_traceU32]
  refine ⟨htype, ?_⟩
  split_ifs
  · simp only [within_bind, within_traceU32]
    refine ⟨⟨hword 8 (by norm_num), ?_⟩, hword 8 (by norm_num), hword 16 (by norm_num), ?_⟩
    · split_ifs
      · simp only [within_bind, within_traceU32, within_pure, and_true]
        exact ⟨hword 8 (by norm_num), hword 4 (by norm_num)⟩
      · exact within_pure _
    · split_ifs
      · simp only [within_bind, within_traceU32, within_pure, and_true]
        exact ⟨hword 4 (by norm_num), hword 16 (by norm_num)⟩
      · exact within_pure _
  · exact within_pure _

lemma processMapPhdr_within {directory : Paging4gbChunk} {elfFile : ElfFile}
    {phdr base size : ℕ} {mem : Mem} (h : (Span.mk phdr 32).Inside base size) :
    (Reading.processMapPhdr view directory elfFile phdr mem).Within base size := by
  have hword : ∀ o ≤ 28, (Span.mk (phdr + o) 4).Inside base size := fun o ho => h.sub (by omega)
  unfold Reading.processMapPhdr
  simp only [within_bind, within_traceU32]
  exact ⟨hword 4 (by norm_num), hword 24 (by norm_num), hword 8 (by norm_num),
    hword 20 (by norm_num), within_pure _⟩

/-! ## The loops -/

variable {elfFile : ElfFile} {process : Process} {mem : Mem} {k : Kernel} {tables : List ℕ}

lemma elfPheader_within {size : ℕ} (h : 32 ≤ size) :
    (Reading.elfPheader view addr).Within addr size := by
  unfold Reading.elfPheader
  rw [within_bind, within_traceU32, inside_add]
  refine ⟨by omega, ?_⟩
  split_ifs
  · exact within_pure _
  · rw [within_bind, within_traceU32, inside_add]
    exact ⟨by omega, within_pure _⟩

/-- Headers in the buffer are processed without leaving it. -/
lemma elfProcessPheadersLoop_within {size : ℕ} (hsize : 46 ≤ size) : ∀ (n i : ℕ) (file' : ElfFile),
    file'.elfMemory = elfFile.elfMemory →
    (∀ j < (elfHeader view elfFile).ePhnum,
      (Span.mk (elfPhdrAddress view elfFile j) 32).Inside elfFile.elfMemory size) →
    (Reading.elfProcessPheadersLoop view n i file').Within elfFile.elfMemory size := by
  intro n
  induction n with
  | zero => exact fun i file' _ _ => within_pure _
  | succ n ih =>
    intro i file' hmemory hinside
    have hphnum : readU16 view (elfFile.elfMemory + 44) = (elfHeader view elfFile).ePhnum := rfl
    rw [Reading.elfProcessPheadersLoop, hmemory, within_bind, within_traceU16, inside_add,
      value_traceU16, hphnum]
    refine ⟨by omega, ?_⟩
    split_ifs with hi
    · have hpheader : elfPheader (elfHeader view file') file' =
          elfPheader (elfHeader view elfFile) elfFile := by
        unfold elfPheader elfHeader
        rw [hmemory]
      have haddress : (Reading.elfProgramHeader view elfFile.elfMemory i).value =
          elfPhdrAddress view elfFile i := by
        unfold Reading.elfProgramHeader elfPhdrAddress
        rw [value_bind, value_pure, Reading.value_elfPheader]
      rw [within_bind, within_bind, haddress, Reading.value_elfProcessPheader]
      refine ⟨?_, elfProcessPheader_within (hinside i hi),
        ih _ _ (elfProcessPheader_elfMemory.trans hmemory) hinside⟩
      unfold Reading.elfProgramHeader
      rw [within_bind]
      exact ⟨elfPheader_within (by omega), within_pure _⟩
    · exact within_pure _

/-- Headers in the buffer are mapped without leaving it; the tables that are written lie elsewhere.
-/
lemma processMapElfLoop_within {directory : Paging4gbChunk} {phdrs : ℕ}
    (hsize : 46 ≤ file.filesize)
    (hapart : ∀ x, elfFile.elfMemory ≤ x → x < elfFile.elfMemory + file.filesize →
      ¬ InTables tables x)
    (hinside : ∀ j < file.header.ePhnum, (Span.mk (u32 (phdrs + j * sizeofElf32Phdr)) 32).Inside
      elfFile.elfMemory file.filesize) :
    ∀ (n i : ℕ) (res : ℤ) (mem : Mem), AddressSpace mem directory.directoryEntry tables →
      file.LoadedAt elfFile.elfMemory mem →
      (Reading.processMapElfLoop file directory elfFile phdrs n i res mem).Within
        elfFile.elfMemory file.filesize := by
  intro n
  induction n with
  | zero => exact fun i res mem _ _ => within_pure _
  | succ n ih =>
    intro i res mem hspace hloaded
    have hphnum : readU16 (file.imageView elfFile.elfMemory (i + 2)) (elfFile.elfMemory + 44) =
        file.header.ePhnum := readU16_imageView hsize
    rw [Reading.processMapElfLoop, hloaded.view_eq, within_bind, within_traceU16, inside_add,
      value_traceU16, hphnum]
    refine ⟨by omega, ?_⟩
    split_ifs with hi
    · rw [within_bind, Reading.value_processMapPhdr]
      refine ⟨processMapPhdr_within (hinside i hi), ?_⟩
      generalize hphdr : elf32PhdrAt _ _ = phdr
      have hvaddr : phdr.pVaddr < 2 ^ 32 := by
        rw [← hphdr]
        exact readU32_lt _ _
      have hrange := phdrMapping_inRange elfFile.elfMemory hvaddr
      rcases hspace.mapping rfl hrange with ⟨-, hspace', hout, -⟩
      rw [processMapPhdr_eq]
      split_ifs
      · exact within_pure _
      · apply ih _ _ _ hspace'
        intro x h₀ h₁
        rw [hout x (hapart x h₀ h₁)]
        exact hloaded x h₀ h₁
    · exact within_pure _

/-! ## The reader -/

/-- Of the file that lies at `elfMemory` in `mem`, and still does in `k`, nothing is read past its
end: not by `elf_process_loaded`, and if it accepts the file, not by `process_map_elf`. -/
structure ElfReadsInside (file : FileAnswers) (elfFile : ElfFile) (mem : Mem) (process : Process)
    (k : Kernel) : Prop where
  loaded : (Reading.elfProcessLoaded (file.view elfFile.elfMemory 0 mem) elfFile).Within
    elfFile.elfMemory file.filesize
  header : (elfProcessLoaded (file.view elfFile.elfMemory 0 mem) elfFile).1 = 0 →
    (Span.mk elfFile.elfMemory 52).Inside elfFile.elfMemory file.filesize
  programHeaders : (elfProcessLoaded (file.view elfFile.elfMemory 0 mem) elfFile).1 = 0 →
    ∀ i < (elfHeader (file.view elfFile.elfMemory 0 mem) elfFile).ePhnum,
      (Span.mk (elfPhdrAddress (file.view elfFile.elfMemory 0 mem) elfFile i) 32).Inside
        elfFile.elfMemory file.filesize
  mapped : (elfProcessLoaded (file.view elfFile.elfMemory 0 mem) elfFile).1 = 0 →
    (Reading.processMapElf file process
      (elfProcessLoaded (file.view elfFile.elfMemory 0 mem) elfFile).2 k).Within
      elfFile.elfMemory file.filesize

lemma elfProcessLoaded_accepts {view : Mem} : (elfProcessLoaded view elfFile).1 = 0 ↔
    ¬ elfValidateLoaded (elfHeader view elfFile) < 0 := by
  unfold elfProcessLoaded
  dsimp only
  split_ifs with hres
  · exact iff_of_false (fun h => by dsimp only at h; omega) (not_not.mpr hres)
  · exact iff_of_true rfl hres

lemma elfProcessLoaded_elfMemory (view : Mem) (elfFile : ElfFile) :
    (elfProcessLoaded view elfFile).2.elfMemory = elfFile.elfMemory := by
  unfold elfProcessLoaded
  dsimp only
  split_ifs
  · rfl
  · rw [elfProcessPheaders_eq]
    exact processLoads_elfMemory _ _

/-- What is read of a file to check it. -/
lemma elfValidateLoaded_imageView_within :
    (Reading.elfValidateLoaded (file.imageView addr moment) addr).Within addr file.filesize ↔
      32 ≤ file.filesize ∨ ∃ i < file.filesize, file.header.identChecks[i]? = some false := by
  rw [elfValidateLoaded_within]
  apply or_congr_right
  apply exists_congr
  intro i
  apply and_congr_right
  intro hi
  rw [identChecks_imageView hi]

/-- A file with a wrong byte is rejected. -/
lemma elfValidateLoaded_of_identChecks {header : ElfHeader} {i : ℕ}
    (h : header.identChecks[i]? = some false) : elfValidateLoaded header < 0 := by
  have hmem : false ∈ header.identChecks := List.mem_of_getElem? h
  unfold ElfHeader.identChecks at hmem
  simp only [List.mem_cons, List.not_mem_nil, or_false] at hmem
  unfold elfValidateLoaded elfValidSignature
  rw [if_neg]
  · decide
  · intro hvalid
    simp only [Bool.and_eq_true] at hvalid
    rcases hvalid with ⟨⟨⟨⟨⟨⟨⟨h₀, h₁⟩, h₂⟩, h₃⟩, h₄⟩, h₅⟩, -⟩, -⟩
    rw [h₀, h₁, h₂, h₃, h₄, h₅] at hmem
    simp at hmem

section
variable (hloaded : file.LoadedAt elfFile.elfMemory mem)
include hloaded

/-- What is looked at before a file is rejected. -/
lemma elfReadsInside_of_rejected (hrejected : elfValidateLoaded file.header < 0)
    (hlength : 32 ≤ file.filesize ∨ ∃ i < file.filesize, file.header.identChecks[i]? = some false) :
    ElfReadsInside file elfFile mem process k := by
  have hview := hloaded.view_eq 0
  have hres : elfValidateLoaded
      (elfHeader (file.imageView elfFile.elfMemory 0) elfFile) < 0 := by
    rcases hlength with hlong | ⟨i, hi, hwrong⟩
    · rw [elfHeader, elfValidateLoaded_imageView hlong]
      exact hrejected
    · rw [← @identChecks_imageView file elfFile.elfMemory 0 i hi] at hwrong
      exact elfValidateLoaded_of_identChecks hwrong
  have hnot : (elfProcessLoaded (file.imageView elfFile.elfMemory 0) elfFile).1 ≠ 0 :=
    fun h => elfProcessLoaded_accepts.mp h hres
  refine ⟨?_, ?_, ?_, ?_⟩ <;> rw [hview]
  · unfold Reading.elfProcessLoaded
    rw [within_bind, Reading.value_elfValidateLoaded]
    refine ⟨elfValidateLoaded_imageView_within.mpr hlength, ?_⟩
    split_ifs with haccepted
    · exact within_pure _
    · exact absurd hres haccepted
  · exact fun h => absurd h hnot
  · exact fun h => absurd h hnot
  · exact fun h => absurd h hnot

/-- A file that is accepted, with room for its headers. -/
lemma elfReadsInside_of_hasHeaders (hfits : elfFile.elfMemory + file.filesize ≤ 2 ^ 32)
    (hmapped : file.LoadedAt elfFile.elfMemory k.machine.mem)
    (hspace : AddressSpace k.machine.mem (k.pageDirectory process).directoryEntry tables)
    (hapart : ∀ x, elfFile.elfMemory ≤ x → x < elfFile.elfMemory + file.filesize →
      ¬ InTables tables x)
    (haccepted : ¬ elfValidateLoaded file.header < 0) (hheaders : file.HasHeaders) :
    ElfReadsInside file elfFile mem process k := by
  have hview := hloaded.view_eq 0
  rcases hheaders with ⟨hsize, hroom⟩
  have hphnum : (elfHeader (file.imageView elfFile.elfMemory 0) elfFile).ePhnum =
      file.header.ePhnum := readU16_imageView (by omega)
  -- a program header lies in the image when all of them do
  have hinside : ∀ moment, ∀ i < file.header.ePhnum,
      (Span.mk (elfPhdrAddress (file.imageView elfFile.elfMemory moment) elfFile i) 32).Inside
        elfFile.elfMemory file.filesize := by
    intro moment i hi
    have hphoff : (elfHeader (file.imageView elfFile.elfMemory moment) elfFile).ePhoff =
        file.header.ePhoff := readU32_imageView (by omega)
    rw [elfPhdrAddress_eq (by rw [hphoff]; exact ePhoff_ne_zero haccepted), hphoff]
    rcases hroom with hzero | hroom
    · omega
    · exact headers_inside hfits hroom hi
  -- the four reads, in the order of the load
  refine ⟨?_, ?_, ?_, ?_⟩ <;> rw [hview]
  · unfold Reading.elfProcessLoaded
    rw [within_bind]
    refine ⟨elfValidateLoaded_imageView_within.mpr (Or.inl (by omega)), ?_⟩
    split_ifs
    · exact within_pure _
    · rw [within_bind]
      refine ⟨elfProcessPheadersLoop_within (by omega) _ _ _ rfl fun i hi => ?_, within_pure _⟩
      exact hinside 0 i (by rw [← hphnum]; exact hi)
  · exact fun _ => (@inside_add elfFile.elfMemory _ 0 52).mpr hsize
  · intro _ i hi
    exact hinside 0 i (by rw [← hphnum]; exact hi)
  · intro _
    generalize hfile : (elfProcessLoaded (file.imageView elfFile.elfMemory 0) elfFile).2 = f
    have hmemory : f.elfMemory = elfFile.elfMemory := by
      rw [← hfile]
      exact elfProcessLoaded_elfMemory _ _
    unfold Reading.processMapElf
    rw [hmemory, hmapped.view_eq, within_bind, within_bind]
    refine ⟨elfPheader_within (by omega), ?_, within_pure _⟩
    rw [Reading.value_elfPheader, ← hmemory]
    rw [← hmemory] at hapart hmapped
    refine processMapElfLoop_within (by omega) hapart (fun j hj => ?_) _ _ _ _ hspace hmapped
    rw [hmemory]
    exact hinside 2 j hj

/-- A reader that stays in the file: the headers do not wrap around. -/
lemma ElfReadsInside.readerStays (hpos : 0 < elfFile.elfMemory)
    (hfits : elfFile.elfMemory + file.filesize ≤ 2 ^ 32)
    (h : ElfReadsInside file elfFile mem process k) : file.ReaderStays := by
  rcases h with ⟨hread, hheader, hphdrs, -⟩
  rw [hloaded.view_eq 0] at hread hheader hphdrs
  have hcheck := elfValidateLoaded_imageView_within.mp (within_bind.mp hread).1
  unfold FileAnswers.ReaderStays
  split_ifs with hrejected
  · exact hcheck
  · have hlong : 32 ≤ file.filesize := by
      rcases hcheck with hlong | ⟨i, -, hwrong⟩
      · exact hlong
      · exact absurd (elfValidateLoaded_of_identChecks hwrong) hrejected
    have haccepted : (elfProcessLoaded (file.imageView elfFile.elfMemory 0) elfFile).1 = 0 := by
      rw [elfProcessLoaded_accepts, elfHeader, elfValidateLoaded_imageView hlong]
      exact hrejected
    have hsize : 52 ≤ file.filesize := (@inside_add elfFile.elfMemory _ 0 52).mp
      (hheader haccepted)
    have hphnum : (elfHeader (file.imageView elfFile.elfMemory 0) elfFile).ePhnum =
        file.header.ePhnum := readU16_imageView (by omega)
    have hphoff : (elfHeader (file.imageView elfFile.elfMemory 0) elfFile).ePhoff =
        file.header.ePhoff := readU32_imageView (by omega)
    have hne : (elfHeader (file.imageView elfFile.elfMemory 0) elfFile).ePhoff ≠ 0 := by
      rw [hphoff]
      exact ePhoff_ne_zero hrejected
    refine ⟨hsize, headers_end hpos hfits (readU32_lt _ _) fun i hi => ?_⟩
    rw [← hphoff, ← elfPhdrAddress_eq hne]
    exact hphdrs haccepted i (by rw [hphnum]; exact hi)

end

/-- **What the ELF reader reads** lies in the file exactly when a file that is accepted has room for
its headers, and one that is rejected is as long as what is looked at before. -/
theorem elfReadsInside_iff (hpos : 0 < elfFile.elfMemory)
    (hfits : elfFile.elfMemory + file.filesize ≤ 2 ^ 32)
    (hloaded : file.LoadedAt elfFile.elfMemory mem)
    (hmapped : file.LoadedAt elfFile.elfMemory k.machine.mem)
    (hspace : AddressSpace k.machine.mem (k.pageDirectory process).directoryEntry tables)
    (hapart : ∀ x, elfFile.elfMemory ≤ x → x < elfFile.elfMemory + file.filesize →
      ¬ InTables tables x) :
    ElfReadsInside file elfFile mem process k ↔ file.ReaderStays := by
  constructor
  · exact fun h => ElfReadsInside.readerStays hloaded hpos hfits h
  · intro hstays
    unfold FileAnswers.ReaderStays at hstays
    split_ifs at hstays with hrejected
    · exact elfReadsInside_of_rejected hloaded hrejected hstays
    · exact elfReadsInside_of_hasHeaders hloaded hfits hmapped hspace hapart hrejected hstays

/-! ## A file of 84 bytes, and its first 52 -/

/-- The first bytes of a file with one program header; behind them lies an address space. -/
def shortenedFile (filesize : UInt32) : FileAnswers :=
  { oneHeaderFile ⟨ptLoad, 0, 0x400000, 84, 84, 0⟩ with
    fstat := .ok filesize
    stray _ := sparseMem }

/-- The kernel with the file at 16 megabytes. -/
def shortenedKernel (filesize : UInt32) : Kernel :=
  bootKernel.withMem ((shortenedFile filesize).imageView 0x1000000 0)

def shortenedProcess : Process := ⟨0, 0, 0, [], .elf, 0, none, 0, 0⟩

lemma shortenedKernel_loadedAt (filesize : UInt32) :
    (shortenedFile filesize).LoadedAt 0x1000000 (shortenedKernel filesize).machine.mem :=
  fun _ h₀ h₁ => if_pos ⟨h₀, h₁⟩

lemma shortenedKernel_addressSpace (filesize : UInt32) :
    AddressSpace (shortenedKernel filesize).machine.mem
      ((shortenedKernel filesize).pageDirectory shortenedProcess).directoryEntry sparseTables := by
  refine addressSpace_sparseMem.congr fun x _ hx => ?_
  have hbelow : ¬ (0x1000000 ≤ x ∧ x < 0x1000000 + (shortenedFile filesize).filesize) := by omega
  exact if_neg hbelow

lemma not_inTables_sparseTables {x : ℕ} (hx : 0x1000000 ≤ x) : ¬ InTables sparseTables x := by
  rintro ⟨t, ht, -, hlt⟩
  rcases List.mem_map.mp ht with ⟨i, hi, rfl⟩
  have hi' := List.mem_range.mp hi
  omega

/-- The whole file is read in its bounds. -/
theorem elfReadsInside_wholeFile : ElfReadsInside (shortenedFile 84) (elfFileNew 0 0x1000000)
    (shortenedKernel 84).machine.mem shortenedProcess (shortenedKernel 84) := by
  apply (elfReadsInside_iff (by decide) (by decide) (shortenedKernel_loadedAt 84)
    (shortenedKernel_loadedAt 84) (shortenedKernel_addressSpace 84)
    fun x hx _ => not_inTables_sparseTables hx).mpr
  unfold FileAnswers.ReaderStays
  rw [if_neg (by decide +kernel)]
  exact ⟨by decide +kernel, Or.inr (by decide +kernel)⟩

/-- A file that ends behind its file header is accepted, and its program header is read. -/
theorem elfReadsInside_shortenedFile :
    ¬ ∀ (file : FileAnswers) (elfFile : ElfFile) (mem : Mem) (process : Process) (k : Kernel)
      (tables : List ℕ), 0 < elfFile.elfMemory → elfFile.elfMemory + file.filesize ≤ 2 ^ 32 →
      file.LoadedAt elfFile.elfMemory mem → file.LoadedAt elfFile.elfMemory k.machine.mem →
      AddressSpace k.machine.mem (k.pageDirectory process).directoryEntry tables →
      (∀ x, elfFile.elfMemory ≤ x → x < elfFile.elfMemory + file.filesize →
        ¬ InTables tables x) →
      ElfReadsInside file elfFile mem process k := by
  intro h
  have hinside := h (shortenedFile 52) (elfFileNew 0 0x1000000) (shortenedKernel 52).machine.mem
    shortenedProcess (shortenedKernel 52) sparseTables (by decide) (by decide)
    (shortenedKernel_loadedAt 52) (shortenedKernel_loadedAt 52) (shortenedKernel_addressSpace 52)
    fun x hx _ => not_inTables_sparseTables hx
  have hphdr := hinside.programHeaders (by decide +kernel) 0 (by decide +kernel)
  unfold Span.Inside at hphdr
  exact absurd hphdr (by decide +kernel)

end MarrowOS
