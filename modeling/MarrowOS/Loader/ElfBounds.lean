import MarrowOS.Loader.ElfLoader
import Mathlib.Data.List.Basic

/-!
# The bounds of a loaded file

`elf_process_pheaders` keeps the lowest and the highest address of the `PT_LOAD` headers it has
seen, with the physical addresses that belong to them. Address `0` also says that there is none
yet, so a header at `0` is forgotten when another one comes (`elfProcessLoaded_bounds_iff`).
-/

namespace MarrowOS

open ByteMem CInt

variable {view : Mem} {file file' : ElfFile} {loads : List Elf32Phdr} {phdr : Elf32Phdr}
  {addr elfMemory : ℕ}

/-! ## The headers -/

/-- The program headers, in the order in which they are processed. -/
def elfProgramHeaders (view : Mem) (file : ElfFile) : List Elf32Phdr :=
  let header := elfHeader view file
  (List.range header.ePhnum).map (elfProgramHeader view (elfPheader header file))

/-- The `PT_LOAD` headers. -/
def ptLoads (view : Mem) (file : ElfFile) : List Elf32Phdr :=
  (elfProgramHeaders view file).filter fun phdr => phdr.pType = ptLoad

/-- The address behind the bytes of the file. -/
def Elf32Phdr.virtualEnd (phdr : Elf32Phdr) : ℕ := phdr.pVaddr + phdr.pFilesz

/-- The bounds are the lowest `p_vaddr` and the highest `p_vaddr + p_filesz`, and the physical
addresses are those of a header that attains them. -/
structure ElfBounds (file : ElfFile) (loads : List Elf32Phdr) : Prop where
  base : ∃ phdr ∈ loads, (∀ other ∈ loads, phdr.pVaddr ≤ other.pVaddr) ∧
    file.virtualBaseAddress = phdr.pVaddr ∧
    file.physicalBaseAddress = u32 (file.elfMemory + phdr.pOffset)
  «end» : ∃ phdr ∈ loads, (∀ other ∈ loads, other.virtualEnd ≤ phdr.virtualEnd) ∧
    file.virtualEndAddress = phdr.virtualEnd ∧
    file.physicalEndAddress = u32 (file.elfMemory + phdr.pOffset + phdr.pFilesz)

/-- No header is at address `0`, or the last one is. -/
def BaseSurvives (loads : List Elf32Phdr) : Prop :=
  (∀ phdr ∈ loads, phdr.pVaddr ≠ 0) ∨ ∃ phdr, loads.getLast? = some phdr ∧ phdr.pVaddr = 0

/-! ## One header -/

/-- The loop over the `PT_LOAD` headers. -/
def processLoads (file : ElfFile) (loads : List Elf32Phdr) : ElfFile :=
  loads.foldl elfProcessPhdrPtLoad file

lemma processLoads_concat (file : ElfFile) (loads : List Elf32Phdr) (phdr : Elf32Phdr) :
    processLoads file (loads ++ [phdr]) = elfProcessPhdrPtLoad (processLoads file loads) phdr := by
  rw [processLoads, List.foldl_append]
  rfl

lemma elfProcessPhdrPtLoad_elfMemory :
    (elfProcessPhdrPtLoad file phdr).elfMemory = file.elfMemory := by
  unfold elfProcessPhdrPtLoad
  dsimp only
  split_ifs <;> rfl

lemma elfProcessPheader_elfMemory : (elfProcessPheader file phdr).elfMemory = file.elfMemory := by
  unfold elfProcessPheader
  split_ifs
  · exact elfProcessPhdrPtLoad_elfMemory
  · rfl

/-- The lower bound after one more header. -/
lemma elfProcessPhdrPtLoad_base :
    ((elfProcessPhdrPtLoad file phdr).virtualBaseAddress,
      (elfProcessPhdrPtLoad file phdr).physicalBaseAddress) =
      if file.virtualBaseAddress ≥ phdr.pVaddr ∨ file.virtualBaseAddress = 0 then
        (phdr.pVaddr, u32 (file.elfMemory + phdr.pOffset))
      else (file.virtualBaseAddress, file.physicalBaseAddress) := by
  unfold elfProcessPhdrPtLoad
  dsimp only
  split_ifs <;> rfl

/-- The upper bound after one more header, which does not wrap around. -/
lemma elfProcessPhdrPtLoad_end (hwrap : phdr.virtualEnd < 2 ^ 32) :
    ((elfProcessPhdrPtLoad file phdr).virtualEndAddress,
      (elfProcessPhdrPtLoad file phdr).physicalEndAddress) =
      if file.virtualEndAddress ≤ phdr.virtualEnd ∨ file.virtualEndAddress = 0 then
        (phdr.virtualEnd, u32 (file.elfMemory + phdr.pOffset + phdr.pFilesz))
      else (file.virtualEndAddress, file.physicalEndAddress) := by
  have hsum : u32 (phdr.pVaddr + phdr.pFilesz) = phdr.virtualEnd := by
    rw [← Nat.cast_add]
    exact u32_natCast_of_lt hwrap
  unfold elfProcessPhdrPtLoad
  dsimp only
  rw [hsum]
  split_ifs <;> rfl

/-- The headers do not depend on the bounds so far. -/
lemma foldl_elfProcessPheader (view : Mem) (header : ElfHeader) (indices : List ℕ) :
    ∀ file' : ElfFile, file'.elfMemory = file.elfMemory →
      indices.foldl (fun f i => elfProcessPheader f (elfProgramHeader view (elfPheader header f) i))
        file' =
      (indices.map (elfProgramHeader view (elfPheader header file))).foldl elfProcessPheader
        file' := by
  induction indices with
  | nil => exact fun _ _ => rfl
  | cons i indices ih =>
    intro file' hmemory
    have hpheader : elfPheader header file' = elfPheader header file := by
      unfold elfPheader
      rw [hmemory]
    rw [List.map_cons, List.foldl_cons, List.foldl_cons, hpheader]
    exact ih _ (elfProcessPheader_elfMemory.trans hmemory)

/-- The other headers are skipped. -/
lemma elfProcessPheaders_eq (view : Mem) (file : ElfFile) :
    elfProcessPheaders view file = processLoads file (ptLoads view file) := by
  unfold elfProcessPheaders processLoads ptLoads elfProgramHeaders
  rw [List.foldl_filter, foldl_elfProcessPheader view _ _ file rfl]
  simp only [decide_eq_true_eq]
  rfl

/-! ## All headers -/

lemma processLoads_elfMemory (file : ElfFile) (loads : List Elf32Phdr) :
    (processLoads file loads).elfMemory = file.elfMemory := by
  induction loads using List.reverseRecOn with
  | nil => rfl
  | append_singleton loads phdr ih =>
    rw [processLoads_concat, elfProcessPhdrPtLoad_elfMemory, ih]

/-- The structure that `elf_load` fills in. -/
def elfFileNew (addr elfMemory : ℕ) : ElfFile := ⟨addr, elfMemory, 0, 0, 0, 0⟩

/-- The lower bound reads `0` exactly when the last header is at `0`, or there is none. -/
lemma processLoads_base_eq_zero (addr elfMemory : ℕ) (loads : List Elf32Phdr) :
    (processLoads (elfFileNew addr elfMemory) loads).virtualBaseAddress = 0 ↔
      ∀ phdr, loads.getLast? = some phdr → phdr.pVaddr = 0 := by
  induction loads using List.reverseRecOn with
  | nil => exact iff_of_true rfl fun phdr h => absurd h (by simp)
  | append_singleton loads phdr _ =>
    have hlast : (∀ other, (loads ++ [phdr]).getLast? = some other → other.pVaddr = 0) ↔
        phdr.pVaddr = 0 := by simp
    have hbase := congrArg Prod.fst
      (@elfProcessPhdrPtLoad_base (processLoads (elfFileNew addr elfMemory) loads) phdr)
    rw [hlast, processLoads_concat]
    simp only at hbase
    rw [hbase]
    split_ifs with hset
    · exact Iff.rfl
    · show (processLoads (elfFileNew addr elfMemory) loads).virtualBaseAddress = 0 ↔ _
      omega

/-- Without a header at `0` the lower bound is right. -/
lemma processLoads_base (hne : loads ≠ []) (hpos : ∀ phdr ∈ loads, phdr.pVaddr ≠ 0) :
    ∃ phdr ∈ loads, (∀ other ∈ loads, phdr.pVaddr ≤ other.pVaddr) ∧
      (processLoads (elfFileNew addr elfMemory) loads).virtualBaseAddress = phdr.pVaddr ∧
      (processLoads (elfFileNew addr elfMemory) loads).physicalBaseAddress =
        u32 (elfMemory + phdr.pOffset) := by
  induction loads using List.reverseRecOn with
  | nil => exact absurd rfl hne
  | append_singleton loads phdr ih =>
    have hstep := @elfProcessPhdrPtLoad_base (processLoads (elfFileNew addr elfMemory) loads) phdr
    rw [processLoads_concat]
    rw [processLoads_elfMemory] at hstep
    by_cases hempty : loads = []
    · subst hempty
      have hunset : (processLoads (elfFileNew addr elfMemory) []).virtualBaseAddress = 0 := rfl
      rw [if_pos (Or.inr hunset)] at hstep
      refine ⟨phdr, by simp, by simp, (Prod.mk.inj hstep).1, (Prod.mk.inj hstep).2⟩
    · obtain ⟨low, hlow, hleast, hvirtual, hphysical⟩ :=
        ih hempty fun p hp => hpos p (List.mem_append_left _ hp)
      have hlowpos := hpos low (List.mem_append_left _ hlow)
      rw [hvirtual, hphysical] at hstep
      by_cases hlower : phdr.pVaddr ≤ low.pVaddr
      · rw [if_pos (Or.inl hlower)] at hstep
        refine ⟨phdr, by simp, ?_, (Prod.mk.inj hstep).1, (Prod.mk.inj hstep).2⟩
        intro other hother
        rcases List.mem_append.mp hother with hold | hnew
        · exact hlower.trans (hleast other hold)
        · rw [List.mem_singleton.mp hnew]
      · rw [if_neg (by omega)] at hstep
        refine ⟨low, List.mem_append_left _ hlow, ?_, (Prod.mk.inj hstep).1,
          (Prod.mk.inj hstep).2⟩
        intro other hother
        rcases List.mem_append.mp hother with hold | hnew
        · exact hleast other hold
        · rw [List.mem_singleton.mp hnew]
          omega

/-- If the last header is at `0`, the lower bound is its. -/
lemma processLoads_base_last (hlast : loads.getLast? = some phdr) (hzero : phdr.pVaddr = 0) :
    (processLoads (elfFileNew addr elfMemory) loads).virtualBaseAddress = phdr.pVaddr ∧
      (processLoads (elfFileNew addr elfMemory) loads).physicalBaseAddress =
        u32 (elfMemory + phdr.pOffset) := by
  rcases List.getLast?_eq_some_iff.mp hlast with ⟨before, rfl⟩
  have hstep := @elfProcessPhdrPtLoad_base (processLoads (elfFileNew addr elfMemory) before) phdr
  rw [processLoads_elfMemory] at hstep
  rw [if_pos (Or.inl (by rw [hzero]; exact Nat.zero_le _))] at hstep
  rw [processLoads_concat]
  exact Prod.mk.inj hstep

/-- The upper bound is always right: `0` is below every other. -/
lemma processLoads_end (hne : loads ≠ []) (hwrap : ∀ phdr ∈ loads, phdr.virtualEnd < 2 ^ 32) :
    ∃ phdr ∈ loads, (∀ other ∈ loads, other.virtualEnd ≤ phdr.virtualEnd) ∧
      (processLoads (elfFileNew addr elfMemory) loads).virtualEndAddress = phdr.virtualEnd ∧
      (processLoads (elfFileNew addr elfMemory) loads).physicalEndAddress =
        u32 (elfMemory + phdr.pOffset + phdr.pFilesz) := by
  induction loads using List.reverseRecOn with
  | nil => exact absurd rfl hne
  | append_singleton loads phdr ih =>
    have hstep := @elfProcessPhdrPtLoad_end (processLoads (elfFileNew addr elfMemory) loads) phdr
      (hwrap phdr (by simp))
    rw [processLoads_concat]
    rw [processLoads_elfMemory] at hstep
    by_cases hempty : loads = []
    · subst hempty
      have hunset : (processLoads (elfFileNew addr elfMemory) []).virtualEndAddress = 0 := rfl
      rw [if_pos (Or.inr hunset)] at hstep
      refine ⟨phdr, by simp, by simp, (Prod.mk.inj hstep).1, (Prod.mk.inj hstep).2⟩
    · obtain ⟨high, hhigh, hmost, hvirtual, hphysical⟩ :=
        ih hempty fun p hp => hwrap p (List.mem_append_left _ hp)
      rw [hvirtual, hphysical] at hstep
      by_cases hhigher : high.virtualEnd ≤ phdr.virtualEnd
      · rw [if_pos (Or.inl hhigher)] at hstep
        refine ⟨phdr, by simp, ?_, (Prod.mk.inj hstep).1, (Prod.mk.inj hstep).2⟩
        intro other hother
        rcases List.mem_append.mp hother with hold | hnew
        · exact (hmost other hold).trans hhigher
        · rw [List.mem_singleton.mp hnew]
      · rw [if_neg (by omega)] at hstep
        refine ⟨high, List.mem_append_left _ hhigh, ?_, (Prod.mk.inj hstep).1,
          (Prod.mk.inj hstep).2⟩
        intro other hother
        rcases List.mem_append.mp hother with hold | hnew
        · exact hmost other hold
        · rw [List.mem_singleton.mp hnew]
          omega

/-- **ELF bounds.** The bounds of an accepted file are right exactly when no `PT_LOAD` header is at
address `0`, or the last one is. -/
theorem elfProcessLoaded_bounds_iff
    (haccepted : elfProcessLoaded view (elfFileNew addr elfMemory) = (0, file'))
    (hne : ptLoads view (elfFileNew addr elfMemory) ≠ [])
    (hwrap : ∀ phdr ∈ ptLoads view (elfFileNew addr elfMemory), phdr.virtualEnd < 2 ^ 32) :
    ElfBounds file' (ptLoads view (elfFileNew addr elfMemory)) ↔
      BaseSurvives (ptLoads view (elfFileNew addr elfMemory)) := by
  have hfile : file' = processLoads (elfFileNew addr elfMemory)
      (ptLoads view (elfFileNew addr elfMemory)) := by
    unfold elfProcessLoaded at haccepted
    dsimp only at haccepted
    split_ifs at haccepted with hres
    · exact absurd (Prod.mk.inj haccepted).1 (by omega)
    · rw [← elfProcessPheaders_eq]
      exact (Prod.mk.inj haccepted).2.symm
  generalize ptLoads view (elfFileNew addr elfMemory) = loads at hne hwrap hfile
  subst hfile
  have hmemory := processLoads_elfMemory (elfFileNew addr elfMemory) loads
  constructor
  · rintro ⟨⟨low, hlow, hleast, hbase, -⟩, -⟩
    by_cases hpos : ∀ phdr ∈ loads, phdr.pVaddr ≠ 0
    · exact Or.inl hpos
    · right
      -- the lowest address is `0`, so the last header is there
      push Not at hpos
      rcases hpos with ⟨zero, hmem, hzero⟩
      have hle := hleast zero hmem
      rw [hzero] at hle
      rw [Nat.le_zero.mp hle] at hbase
      have hlast := (processLoads_base_eq_zero addr elfMemory loads).mp hbase
      exact ⟨loads.getLast hne, List.getLast?_eq_some_getLast hne,
        hlast _ (List.getLast?_eq_some_getLast hne)⟩
  · intro hsurvives
    constructor
    · rw [hmemory]
      rcases hsurvives with hpos | ⟨phdr, hlast, hzero⟩
      · exact processLoads_base hne hpos
      · refine ⟨phdr, List.mem_of_getLast? hlast, ?_, processLoads_base_last hlast hzero⟩
        intro other _
        rw [hzero]
        exact Nat.zero_le _
    · rw [hmemory]
      exact processLoads_end hne hwrap

/-! ## Two segments -/

/-- An executable at `0x1000`, of two one-byte segments at these addresses. -/
def twoSegmentImage (first second : ℕ) : Mem := fun x =>
  byteOf (([0x464c457f, 0x00010101, 0, 0, 0x00030002, 1, 0x400000, 52, 0, 0, 0x00200034, 2, 0,
    ptLoad, 0, first, 0, 1, 1, 0, 0,
    ptLoad, 0, second, 0, 1, 1, 0, 0] : List ℕ).getD ((x - 0x1000) / 4) 0) (x % 4)

/-- The segment at the lower address may come last. -/
theorem elfProcessLoaded_bounds_descending :
    ∃ file', elfProcessLoaded (twoSegmentImage 0x401000 0x400000) (elfFileNew 0 0x1000) =
      (0, file') ∧
      ElfBounds file' (ptLoads (twoSegmentImage 0x401000 0x400000) (elfFileNew 0 0x1000)) := by
  have haccepted : elfProcessLoaded (twoSegmentImage 0x401000 0x400000) (elfFileNew 0 0x1000) =
      (0, (elfProcessLoaded (twoSegmentImage 0x401000 0x400000) (elfFileNew 0 0x1000)).2) :=
    Prod.ext (by decide +kernel) rfl
  refine ⟨_, haccepted, ?_⟩
  apply (elfProcessLoaded_bounds_iff haccepted (by decide +kernel) (by decide +kernel)).mpr
  exact Or.inl (by decide +kernel)

/-- A segment at address `0` in front of another one is forgotten. -/
theorem elfProcessLoaded_bounds_from_zero :
    ¬ ∀ (view : Mem) (addr elfMemory : ℕ) (file' : ElfFile),
      elfProcessLoaded view (elfFileNew addr elfMemory) = (0, file') →
      ptLoads view (elfFileNew addr elfMemory) ≠ [] →
      (∀ phdr ∈ ptLoads view (elfFileNew addr elfMemory), phdr.virtualEnd < 2 ^ 32) →
      ElfBounds file' (ptLoads view (elfFileNew addr elfMemory)) := by
  intro h
  have hbounds := h (twoSegmentImage 0 0x400000) 0 0x1000
    (elfProcessLoaded (twoSegmentImage 0 0x400000) (elfFileNew 0 0x1000)).2
    (Prod.ext (by decide +kernel) rfl) (by decide +kernel) (by decide +kernel)
  rcases hbounds.base with ⟨low, -, hleast, hbase, -⟩
  have hfirst : (elfProcessLoaded (twoSegmentImage 0 0x400000)
      (elfFileNew 0 0x1000)).2.virtualBaseAddress = 0x400000 := by decide +kernel
  have hzero : ∃ zero ∈ ptLoads (twoSegmentImage 0 0x400000) (elfFileNew 0 0x1000),
      zero.pVaddr = 0 := by decide +kernel
  rcases hzero with ⟨zero, hmem, hzero⟩
  have hle := hleast zero hmem
  rw [hbase] at hfirst
  omega

end MarrowOS
