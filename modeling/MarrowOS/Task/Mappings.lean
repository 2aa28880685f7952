import MarrowOS.Loader.ElfLoaderTheorems
import MarrowOS.Memory.PageTables
import MarrowOS.Task.Loading

/-!
# What `process_map_memory` maps

The mappings of a process are a list: one for a flat binary, one for each program header of an ELF
file, and the stack at the end. `processMapMemory_maps` says that the new address space is the old
one with these mappings laid over it, the later ones over the earlier ones.
-/

namespace MarrowOS

open ByteMem CInt Fallible Overlay

/-- Flags of the pages a process may write. -/
def userWritableFlags : ℕ := pagingIsPresent ||| pagingAccessFromAll ||| pagingIsWritable

/-- `process_map_binary`. -/
def binaryMapping (ptr size : ℕ) : Mapping where
  virt := marrowosProgramVirtualAddress
  phys := ptr
  physEnd := pagingAlignAddress (u32 (ptr + size))
  flags := userWritableFlags

/-- The stack. -/
def stackMapping (stack : ℕ) : Mapping where
  virt := marrowosProgramVirtualStackAddressEnd
  phys := stack
  physEnd := pagingAlignAddress (u32 (stack + marrowosUserProgramStackSize))
  flags := userWritableFlags

/-- A program header of the file at `addr`. -/
def phdrMapping (addr : ℕ) (phdr : Elf32Phdr) : Mapping where
  virt := pagingAlignToLowerPage phdr.pVaddr
  phys := pagingAlignToLowerPage (u32 (addr + phdr.pOffset))
  physEnd := pagingAlignAddress (u32 ((u32 (addr + phdr.pOffset) : ℕ) + phdr.pMemsz))
  flags := if phdr.pFlags &&& pfW ≠ 0 then userWritableFlags
    else pagingIsPresent ||| pagingAccessFromAll

/-! ## Program headers -/

/-- The number of program headers of the file at `addr`, as it is read before header `i`. -/
def elfPhnum (file : FileAnswers) (addr i : ℕ) : ℕ :=
  (elfHeaderAt (file.imageView addr (i + 2)) addr).ePhnum

/-- Program header `i` of the file at `addr`. -/
def elfPhdr (file : FileAnswers) (addr i : ℕ) : Elf32Phdr :=
  elfProgramHeader (file.imageView addr (i + 2))
    (elfPheader (elfHeaderAt (file.imageView addr 2) addr) ⟨0, addr, 0, 0, 0, 0⟩) i

/-- The program headers from `i` on, at most `n`. -/
def elfPhdrsFrom (file : FileAnswers) (addr : ℕ) : (n i : ℕ) → List Elf32Phdr
  | 0, _ => []
  | n + 1, i =>
    if i < elfPhnum file addr i then elfPhdr file addr i :: elfPhdrsFrom file addr n (i + 1) else []

/-- The program headers of the file at `addr`. -/
def elfPhdrs (file : FileAnswers) (addr : ℕ) : List Elf32Phdr := elfPhdrsFrom file addr (2 ^ 16) 0

/-- The mappings of the program. -/
def Process.programMappings (file : FileAnswers) (process : Process) : List Mapping :=
  match process.filetype, process.elfFile with
  | .binary, _ => [binaryMapping process.ptr process.size]
  | .elf, some elfFile => (elfPhdrs file elfFile.elfMemory).map (phdrMapping elfFile.elfMemory)
  | .elf, none => []

/-! ## Alignment -/

lemma pagingAlignAddress_lt {ptr : ℕ} (h : ptr < 2 ^ 32) : pagingAlignAddress ptr < 2 ^ 32 := by
  unfold pagingAlignAddress
  split
  · exact u32_lt _
  · exact h

lemma pagingAlignToLowerPage_le (addr : ℕ) : pagingAlignToLowerPage addr ≤ addr := Nat.sub_le _ _

lemma userWritableFlags_lt : userWritableFlags < 4096 := by decide

lemma binaryMapping_inRange (ptr size : ℕ) : (binaryMapping ptr size).InRange :=
  ⟨by simp [binaryMapping], pagingAlignAddress_lt (u32_lt _), userWritableFlags_lt⟩

lemma stackMapping_inRange (stack : ℕ) : (stackMapping stack).InRange := by
  constructor <;> unfold stackMapping <;> dsimp only
  · norm_num
  · exact pagingAlignAddress_lt (u32_lt _)
  · exact userWritableFlags_lt

lemma phdrMapping_inRange (addr : ℕ) {phdr : Elf32Phdr} (hvaddr : phdr.pVaddr < 2 ^ 32) :
    (phdrMapping addr phdr).InRange := by
  refine ⟨(pagingAlignToLowerPage_le _).trans_lt hvaddr, pagingAlignAddress_lt (u32_lt _), ?_⟩
  unfold phdrMapping
  dsimp only
  split <;> decide

/-! ## Mapping -/

variable {chunk : Paging4gbChunk} {tables : List ℕ} {mem mem' : Mem} {file : FileAnswers}
  {files : LoadAnswers} {elfFile : ElfFile} {process : Process} {k k' : Kernel} {res : ℤ}
  {m : Mapping} {mappings : List Mapping}

lemma Mapping.patch_eq_none {p : ℕ} : m.patch p = none ↔ ¬ m.Covers p := by
  unfold Mapping.patch
  split_ifs with hcovers
  · simp [hcovers]
  · simp [hcovers]

/-- A property that the entry of a page has behind the mappings if it had it before: the last
mapping that covers the page, if there is one, has to give it. -/
lemma overlay_mapping_iff {entries : ℕ → ℕ} {P : ℕ → Prop} {p : ℕ} (hentry : P (entries p)) :
    P (overlay entries (mappings.map Mapping.patch) p) ↔
      ∀ pre m post, mappings = pre ++ m :: post → m.Covers p → (∀ q ∈ post, ¬ q.Covers p) →
        P (m.target p ||| m.flags) := by
  rw [overlay_iff hentry]
  constructor
  · intro h pre m post heq hcovers hpost
    apply h (pre.map Mapping.patch) m.patch (post.map Mapping.patch)
    · rw [heq, List.map_append, List.map_cons]
    · exact if_pos hcovers
    · intro q hq
      rcases List.mem_map.mp hq with ⟨m', hm', rfl⟩
      exact Mapping.patch_eq_none.mpr (hpost m' hm')
  · intro h patches patch patches' b heq hb hpost
    -- the patches are split where the mappings are
    rcases List.map_eq_append_iff.mp heq with ⟨pre, rest, hsplit, -, hrest⟩
    rcases List.map_eq_cons_iff.mp hrest with ⟨m, post, hrest, hm, hpatches'⟩
    rw [hrest] at hsplit
    rw [← hm] at hb
    have hcovers : m.Covers p := by
      by_contra hnot
      rw [Mapping.patch_eq_none.mpr hnot] at hb
      exact absurd hb (by simp)
    have hb' : m.target p ||| m.flags = b := by
      rw [Mapping.patch, if_pos hcovers] at hb
      exact Option.some.inj hb
    rw [← hb']
    apply h pre m post hsplit hcovers
    intro q hq
    apply Mapping.patch_eq_none.mp
    apply hpost
    rw [← hpatches']
    exact List.mem_map_of_mem hq

/-- What mapping does to memory: tables are written, and the pages are those of before with the
mappings laid over them. -/
structure Maps (chunk : Paging4gbChunk) (tables : List ℕ) (mappings : List Mapping)
    (mem mem' : Mem) : Prop where
  space : AddressSpace mem' chunk.directoryEntry tables
  outside : ∀ x, ¬ InTables tables x → mem' x = mem x
  valid : ∀ m ∈ mappings, m.Valid
  pages : ∀ p < 2 ^ 20, pageAt mem' chunk.directoryEntry p =
    overlay (pageAt mem chunk.directoryEntry) (mappings.map Mapping.patch) p

lemma Maps.nil (h : AddressSpace mem chunk.directoryEntry tables) : Maps chunk tables [] mem mem :=
  ⟨h, fun _ _ => rfl, fun _ hm => absurd hm List.not_mem_nil,
    fun _ _ => by rw [List.map_nil, overlay_nil]⟩

/-- One call of `paging_map_to` that succeeds. -/
lemma Maps.single (h : AddressSpace mem chunk.directoryEntry tables) (hrange : m.InRange)
    (hvalid : m.Valid) : Maps chunk tables [m] mem (m.pagingMapTo chunk mem).2 := by
  rcases h.mapping rfl hrange with ⟨-, hspace, hout, hpages⟩
  refine ⟨hspace, hout, ?_, fun p hp => ?_⟩
  · intro m' hm'
    rw [List.mem_singleton.mp hm']
    exact hvalid
  · rw [hpages p hp, if_pos hvalid, List.map_cons, List.map_nil, overlay_cons, overlay_nil]

lemma Maps.append {mem'' : Mem} {mappings' : List Mapping} (h : Maps chunk tables mappings mem mem')
    (h' : Maps chunk tables mappings' mem' mem'') :
    Maps chunk tables (mappings ++ mappings') mem mem'' := by
  refine ⟨h'.space, fun x hx => (h'.outside x hx).trans (h.outside x hx), ?_, fun p hp => ?_⟩
  · intro m hm
    rcases List.mem_append.mp hm with hm | hm
    · exact h.valid m hm
    · exact h'.valid m hm
  · rw [h'.pages p hp, List.map_append, overlay_append]
    exact overlay_congr (h.pages p hp)

/-- A file that lies apart from the tables is not changed. -/
lemma Maps.loadedAt (h : Maps chunk tables mappings mem mem') {addr : ℕ}
    (hloaded : file.LoadedAt addr mem)
    (hapart : ∀ x, addr ≤ x → x < addr + file.filesize → ¬ InTables tables x) :
    file.LoadedAt addr mem' := by
  intro x h₀ h₁
  rw [h.outside x (hapart x h₀ h₁)]
  exact hloaded x h₀ h₁

lemma eq_mk_of_fst {α β : Type} {x : α × β} {a : α} (h : x.1 = a) : x = (a, x.2) := by
  rw [← h]

lemma processMapPhdr_eq (phdr : Elf32Phdr) : processMapPhdr chunk elfFile phdr mem =
    (phdrMapping elfFile.elfMemory phdr).pagingMapTo chunk mem := rfl

/-- The loop over the program headers: it ends with an error, or has mapped them all. -/
lemma processMapElfLoop_maps
    (hapart : ∀ x, elfFile.elfMemory ≤ x → x < elfFile.elfMemory + file.filesize →
      ¬ InTables tables x) :
    ∀ (n i : ℕ) (mem : Mem), AddressSpace mem chunk.directoryEntry tables →
      file.LoadedAt elfFile.elfMemory mem →
      ∃ res mem', processMapElfLoop file chunk elfFile
        (elfPheader (elfHeaderAt (file.imageView elfFile.elfMemory 2) elfFile.elfMemory) elfFile)
        n i 0 mem = (res, mem') ∧
      AddressSpace mem' chunk.directoryEntry tables ∧
      (∀ x, ¬ InTables tables x → mem' x = mem x) ∧
      ((res = -einvarg ∧ ∃ m ∈ (elfPhdrsFrom file elfFile.elfMemory n i).map
          (phdrMapping elfFile.elfMemory), ¬ m.Valid) ∨
        res = 0 ∧ Maps chunk tables
          ((elfPhdrsFrom file elfFile.elfMemory n i).map (phdrMapping elfFile.elfMemory)) mem
          mem') := by
  intro n
  -- on the fuel; the headers are read again for every turn
  induction n with
  | zero => exact fun i mem h _ => ⟨0, mem, rfl, h, fun _ _ => rfl, Or.inr ⟨rfl, Maps.nil h⟩⟩
  | succ n ih =>
    intro i mem h hloaded
    rw [processMapElfLoop, hloaded.view_eq]
    dsimp only
    by_cases hi : i < elfPhnum file elfFile.elfMemory i
    · have hcond : i < (elfHeader (file.imageView elfFile.elfMemory (i + 2)) elfFile).ePhnum := hi
      rw [if_pos hcond]
      generalize hphdr : elfProgramHeader (file.imageView elfFile.elfMemory (i + 2)) _ i = phdr
      have hphdr' : elfPhdr file elfFile.elfMemory i = phdr := hphdr
      have hlist : elfPhdrsFrom file elfFile.elfMemory (n + 1) i =
          phdr :: elfPhdrsFrom file elfFile.elfMemory n (i + 1) := by
        rw [elfPhdrsFrom, if_pos hi, hphdr']
      have hvaddr : phdr.pVaddr < 2 ^ 32 := by
        rw [← hphdr]
        exact readU32_lt _ _
      have hrange := phdrMapping_inRange elfFile.elfMemory hvaddr
      rcases h.mapping rfl hrange with ⟨hres, hspace, hout, -⟩
      rw [processMapPhdr_eq, hres]
      -- a mapping that is refused ends the loop
      by_cases hvalid : (phdrMapping elfFile.elfMemory phdr).Valid
      · rw [if_pos hvalid, if_neg (lt_irrefl 0)]
        have hone := Maps.single h hrange hvalid
        rcases ih (i + 1) _ hspace (hone.loadedAt hloaded hapart) with
          ⟨res, mem', heq, hspace', hout', hrest⟩
        refine ⟨res, mem', heq, hspace', fun x hx => (hout' x hx).trans (hout x hx), ?_⟩
        rw [hlist, List.map_cons]
        refine hrest.imp (fun ⟨hfail, m, hm, hinvalid⟩ => ?_)
          fun hmaps => ⟨hmaps.1, hone.append hmaps.2⟩
        exact ⟨hfail, m, List.mem_cons_of_mem _ hm, hinvalid⟩
      · rw [if_neg hvalid, if_pos (by decide), hlist]
        exact ⟨-einvarg, _, eq_mk_of_fst (hres.trans (if_neg hvalid)), hspace, hout,
          Or.inl ⟨rfl, _, List.mem_cons_self, hvalid⟩⟩
    · have hcond : ¬ i < (elfHeader (file.imageView elfFile.elfMemory (i + 2)) elfFile).ePhnum := hi
      -- no header is left
      have hlist : elfPhdrsFrom file elfFile.elfMemory (n + 1) i = [] := by
        rw [elfPhdrsFrom, if_neg hi]
      rw [if_neg hcond, hlist]
      exact ⟨0, mem, rfl, h, fun _ _ => rfl, Or.inr ⟨rfl, Maps.nil h⟩⟩

/-- The program is mapped, or an error is reported. -/
def MapsOrFails (chunk : Paging4gbChunk) (tables : List ℕ) (mappings : List Mapping) (k k' : Kernel)
    (res : ℤ) : Prop :=
  ∃ mem', k' = k.withMem mem' ∧ AddressSpace mem' chunk.directoryEntry tables ∧
    (∀ x, ¬ InTables tables x → mem' x = k.machine.mem x) ∧
    (res = -einvarg ∨ res = 0 ∧ Maps chunk tables mappings k.machine.mem mem')

lemma processMapBinary_maps (h : AddressSpace k.machine.mem chunk.directoryEntry tables)
    (hchunk : k.pageDirectory process = chunk) :
    MapsOrFails chunk tables [binaryMapping process.ptr process.size] k
      (processMapBinary process k).2 (processMapBinary process k).1 := by
  have heq : processMapBinary process k =
      (((binaryMapping process.ptr process.size).pagingMapTo chunk k.machine.mem).1,
        k.withMem
          ((binaryMapping process.ptr process.size).pagingMapTo chunk k.machine.mem).2) := by
    rw [processMapBinary, hchunk]
    rfl
  have hrange := binaryMapping_inRange process.ptr process.size
  rcases h.mapping rfl hrange with ⟨hres, hspace, hout, -⟩
  rw [heq]
  refine ⟨_, rfl, hspace, hout, ?_⟩
  by_cases hvalid : (binaryMapping process.ptr process.size).Valid
  · exact Or.inr ⟨hres.trans (if_pos hvalid), Maps.single h hrange hvalid⟩
  · exact Or.inl (hres.trans (if_neg hvalid))

lemma processMapElf_maps (h : AddressSpace k.machine.mem chunk.directoryEntry tables)
    (hchunk : k.pageDirectory process = chunk)
    (hloaded : file.LoadedAt elfFile.elfMemory k.machine.mem)
    (hapart : ∀ x, elfFile.elfMemory ≤ x → x < elfFile.elfMemory + file.filesize →
      ¬ InTables tables x) :
    MapsOrFails chunk tables
      ((elfPhdrs file elfFile.elfMemory).map (phdrMapping elfFile.elfMemory)) k
      (processMapElf file process elfFile k).2 (processMapElf file process elfFile k).1 ∧
    ((∀ m ∈ (elfPhdrs file elfFile.elfMemory).map (phdrMapping elfFile.elfMemory), m.Valid) →
      (processMapElf file process elfFile k).1 = 0) := by
  rcases processMapElfLoop_maps hapart (2 ^ 16) 0 k.machine.mem h hloaded with
    ⟨res, mem', heq, hspace, hout, hmaps⟩
  have heq' : processMapElf file process elfFile k = (res, k.withMem mem') := by
    rw [processMapElf, hloaded.view_eq, hchunk]
    rw [show elfHeader (file.imageView elfFile.elfMemory 2) elfFile =
      elfHeaderAt (file.imageView elfFile.elfMemory 2) elfFile.elfMemory from rfl, heq]
  rw [heq']
  refine ⟨⟨mem', rfl, hspace, hout, hmaps.imp_left And.left⟩, fun hvalid => ?_⟩
  rcases hmaps with ⟨-, m, hm, hinvalid⟩ | ⟨hres, -⟩
  · exact absurd (hvalid m hm) hinvalid
  · exact hres

lemma stackMapping_pagingMapTo (stack : ℕ) :
    pagingMapTo chunk marrowosProgramVirtualStackAddressEnd stack
      (pagingAlignAddress (u32 (stack + marrowosUserProgramStackSize)))
      (pagingIsPresent ||| pagingAccessFromAll ||| pagingIsWritable) mem =
    (stackMapping stack).pagingMapTo chunk mem := by
  unfold Mapping.pagingMapTo stackMapping userWritableFlags
  with_reducible rfl

/-- **`process_map_memory`**: the mappings of the program and then the stack, or an error. -/
theorem processMapMemory_maps (h : AddressSpace k.machine.mem chunk.directoryEntry tables)
    (hchunk : k.pageDirectory process = chunk)
    (hloaded : ∀ f, process.filetype = .elf → process.elfFile = some f →
      files.elf.LoadedAt f.elfMemory k.machine.mem ∧
      ∀ x, f.elfMemory ≤ x → x < f.elfMemory + files.elf.filesize → ¬ InTables tables x)
    (hstack : (stackMapping process.stack).Valid)
    (hmap : processMapMemory files process k = .ok (res, k')) :
    MapsOrFails chunk tables (process.programMappings files.elf ++ [stackMapping process.stack])
      k k' res := by
  -- behind the program comes the stack
  have hstackMaps : ∀ {mappings : List Mapping} {res' : ℤ} {k₁ : Kernel},
      MapsOrFails chunk tables mappings k k₁ res' →
      (if res' < 0 then Except.ok (res', k₁)
        else Except.ok (res', k₁.withMem ((stackMapping process.stack).pagingMapTo
          (k₁.pageDirectory process) k₁.machine.mem).2) : Except Fault (ℤ × Kernel)) =
        .ok (res, k') →
      MapsOrFails chunk tables (mappings ++ [stackMapping process.stack]) k k' res := by
    rintro mappings res' k₁ ⟨mem₁, hk₁, hspace, hout, hres⟩ hok
    rcases hres with hres | ⟨hres, hmaps⟩
    · rw [if_pos (by rw [hres]; decide)] at hok
      rcases Prod.mk.inj (Except.ok.inj hok) with ⟨hres', hk'⟩
      rw [← hk', ← hres']
      exact ⟨mem₁, hk₁, hspace, hout, Or.inl hres⟩
    · rw [hres, if_neg (lt_irrefl 0)] at hok
      rcases Prod.mk.inj (Except.ok.inj hok) with ⟨hres', hk'⟩
      have hdirectory : k₁.pageDirectory process = chunk := by
        rw [hk₁, Kernel.withMem, Kernel.withMachine_pageDirectory, hchunk]
      have hmem : k₁.machine.mem = mem₁ := by
        rw [hk₁]
        rfl
      rw [hdirectory, hmem] at hk'
      have hmaps' := hmaps.append (Maps.single hspace (stackMapping_inRange process.stack) hstack)
      refine ⟨_, ?_, hmaps'.space, hmaps'.outside, Or.inr ⟨hres'.symm, hmaps'⟩⟩
      rw [← hk', hk₁]
      rfl
  unfold processMapMemory at hmap
  rcases bind_eq_ok.mp hmap with ⟨⟨res', k₁⟩, hprogram, hrest⟩
  simp only [stackMapping_pagingMapTo, pure_eq_ok] at hrest
  -- the program, by its filetype
  apply hstackMaps _ hrest
  unfold Process.programMappings
  unfold processMapProgram at hprogram
  cases hfiletype : process.filetype with
  | binary =>
    rw [hfiletype] at hprogram
    have hbinary := processMapBinary_maps h hchunk
    rw [Except.ok.inj hprogram] at hbinary
    exact hbinary
  | elf =>
    rw [hfiletype] at hprogram
    cases helf : process.elfFile with
    | none =>
      rw [helf] at hprogram
      exact absurd hprogram (by simp)
    | some f =>
      rw [helf] at hprogram
      rcases hloaded f hfiletype helf with ⟨hat, hapart⟩
      have himage := (processMapElf_maps h hchunk hat hapart).1
      rw [Except.ok.inj hprogram] at himage
      exact himage

/-- There is always a program to map. -/
lemma processMapMemory_ok (hfile : process.filetype = .elf → process.elfFile.isSome) :
    ∃ r, processMapMemory files process k = .ok r := by
  have hprogram : ∃ r, processMapProgram files.elf process k = .ok r := by
    unfold processMapProgram
    cases hfiletype : process.filetype with
    | binary => exact ⟨_, rfl⟩
    | elf =>
      obtain ⟨f, hf⟩ := Option.isSome_iff_exists.mp (hfile hfiletype)
      rw [hf]
      exact ⟨_, rfl⟩
  rcases hprogram with ⟨⟨res, k₁⟩, hprogram⟩
  rw [processMapMemory, hprogram]
  simp only [ok_bind]
  split
  · exact ⟨_, rfl⟩
  · exact ⟨_, rfl⟩

/-- A program whose mappings are all valid is mapped. -/
theorem processMapMemory_of_valid (h : AddressSpace k.machine.mem chunk.directoryEntry tables)
    (hchunk : k.pageDirectory process = chunk)
    (hloaded : ∀ f, process.filetype = .elf → process.elfFile = some f →
      files.elf.LoadedAt f.elfMemory k.machine.mem ∧
      ∀ x, f.elfMemory ≤ x → x < f.elfMemory + files.elf.filesize → ¬ InTables tables x)
    (hfile : process.filetype = .elf → process.elfFile.isSome)
    (hvalid : ∀ m ∈ process.programMappings files.elf, m.Valid) :
    ∃ k', processMapMemory files process k = .ok (0, k') := by
  have hprogram : ∃ k₁, processMapProgram files.elf process k = .ok (0, k₁) := by
    unfold Process.programMappings at hvalid
    unfold processMapProgram
    cases hfiletype : process.filetype with
    | binary =>
      rw [hfiletype] at hvalid
      have hbinary : (processMapBinary process k).1 = 0 := by
        have hres := (h.mapping rfl (binaryMapping_inRange process.ptr process.size)).1
        rw [if_pos (hvalid _ (List.mem_singleton_self _))] at hres
        rw [processMapBinary, hchunk]
        exact hres
      exact ⟨(processMapBinary process k).2, by rw [eq_mk_of_fst hbinary]⟩
    | elf =>
      cases helf : process.elfFile with
      | none =>
        have hsome := hfile hfiletype
        rw [helf] at hsome
        exact absurd hsome (by simp)
      | some f =>
        rw [hfiletype, helf] at hvalid
        rcases hloaded f hfiletype helf with ⟨hat, hapart⟩
        have himage := (processMapElf_maps h hchunk hat hapart).2 hvalid
        exact ⟨(processMapElf files.elf process f k).2, by dsimp only; rw [eq_mk_of_fst himage]⟩
  rcases hprogram with ⟨k₁, hprogram⟩
  refine ⟨k₁.withMem (pagingMapTo (k₁.pageDirectory process) marrowosProgramVirtualStackAddressEnd
    process.stack (pagingAlignAddress (u32 (process.stack + marrowosUserProgramStackSize)))
    (pagingIsPresent ||| pagingAccessFromAll ||| pagingIsWritable) k₁.machine.mem).2, ?_⟩
  rw [processMapMemory, hprogram]
  rfl

end MarrowOS
