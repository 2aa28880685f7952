import MarrowOS.Isr80h.Process
import MarrowOS.Memory.AddressSpace

/-!
# Where the program arguments go

`isr80h_command8_get_program_arguments` translates the user's pointer and stores eight bytes from
there on. Nothing looks at the permissions of the page, and the bytes behind the end of the page
go to the next physical page, wherever the task has the next virtual one.
-/

namespace MarrowOS

open ByteMem CInt

/-- The task may write to the virtual address, and `phys` is where its writes go. -/
def StoredAsUser (mem : Mem) (directory virt phys : ℕ) : Prop :=
  phys = translate mem directory virt ∧ UserWritable (pageEntry mem directory virt)

/-- Every one of the eight bytes is stored where the task itself could have stored it. -/
def ArgumentsConfined (arguments : ProcessArguments) (virtualAddress : ℕ) (s : TaskList)
    (mem : Mem) : Prop :=
  ∀ (i : ℕ) (hi : i < 8),
    ∃ store, (isr80hCommand8GetProgramArguments arguments virtualAddress s mem)[i]? = some store ∧
      StoredAsUser mem (s.tasks s.currentTask).pageDirectory.directoryEntry
        (u32 (virtualAddress + i)) store.addr

/-- The task may write to the page of the pointer. If the eight bytes reach into the next page, it
may write there as well, and the next virtual page is the next physical one. -/
def ArgumentsPageWritable (virtualAddress : ℕ) (mem : Mem) (directory : ℕ) : Prop :=
  let entry := pageEntry mem directory virtualAddress
  let nextEntry := pageEntry mem directory (u32 (virtualAddress + 8))
  UserWritable entry ∧ (virtualAddress % 4096 + 8 ≤ 4096 ∨
    (UserWritable nextEntry ∧ entryAddress nextEntry = u32 (entryAddress entry + 4096)))

variable {arguments : ProcessArguments} {virtualAddress : ℕ} {s : TaskList} {mem : Mem} {i : ℕ}

/-- The `i`-th byte goes `i` bytes behind the translated pointer. -/
lemma command8_store (hi : i < 8) :
    ∃ val, (isr80hCommand8GetProgramArguments arguments virtualAddress s mem)[i]? =
      some ⟨u32 (translate mem (s.tasks s.currentTask).pageDirectory.directoryEntry virtualAddress
        + i), val⟩ := by
  have hlt := translate_lt mem (s.tasks s.currentTask).pageDirectory.directoryEntry virtualAddress
  unfold isr80hCommand8GetProgramArguments processGetArguments taskVirtualAddressToPhysical
  rw [pagingGetPhysicalAddress_eq]
  generalize translate mem (s.tasks s.currentTask).pageDirectory.directoryEntry virtualAddress = ptr
    at hlt
  have hwrap : ∀ k < 4, u32 ((u32 (ptr + 4) : ℕ) + (k : ℕ)) = u32 (ptr + (4 + k : ℕ)) := by
    intro k hk
    simp only [u32]
    omega
  by_cases h4 : i < 4
  · refine ⟨byteOf arguments.argc i, ?_⟩
    rw [List.getElem?_append_left (by simpa [storeU32] using h4)]
    simp [storeU32, h4]
  · refine ⟨byteOf arguments.argv (i - 4), ?_⟩
    rw [List.getElem?_append_right (by simpa [storeU32] using h4)]
    have hlen : (storeU32 ptr arguments.argc).length = 4 := by simp [storeU32]
    rw [hlen]
    simp only [storeU32, List.getElem?_map, List.getElem?_range (show i - 4 < 4 by omega),
      Option.map_some, hwrap (i - 4) (by omega)]
    rw [show 4 + (i - 4) = i by omega]

variable {directory : ℕ}

/-- In the page of the pointer only the permissions can be wrong. -/
lemma storedAsUser_same_page (hptr : virtualAddress < 2 ^ 32)
    (hi : virtualAddress % 4096 + i < 4096) :
    StoredAsUser mem directory (u32 (virtualAddress + i))
        (u32 (translate mem directory virtualAddress + i)) ↔
      UserWritable (pageEntry mem directory virtualAddress) := by
  have hlt := entryAddress_lt (pageEntry_lt mem directory virtualAddress)
  have hmod := entryAddress_mod (pageEntry_lt mem directory virtualAddress)
  have hvirt : u32 (virtualAddress + i) = virtualAddress + i := by
    rw [← Nat.cast_add, u32_natCast_of_lt (by omega)]
  have hentry : pageEntry mem directory (virtualAddress + i) =
      pageEntry mem directory virtualAddress :=
    pageEntry_congr (by omega)
  have hphys : u32 (translate mem directory virtualAddress + i) =
      translate mem directory (virtualAddress + i) := by
    unfold translate
    rw [hentry, ← Nat.cast_add, u32_natCast_of_lt (by omega)]
    omega
  unfold StoredAsUser
  rw [hvirt, hentry, hphys]
  exact and_iff_right rfl

/-- In the next page the address is right exactly when the physical pages are neighbours too. -/
lemma storedAsUser_next_page (hi : i < 8)
    (hcross : 4096 ≤ virtualAddress % 4096 + i) :
    StoredAsUser mem directory (u32 (virtualAddress + i))
        (u32 (translate mem directory virtualAddress + i)) ↔
      entryAddress (pageEntry mem directory (u32 (virtualAddress + 8))) =
          u32 (entryAddress (pageEntry mem directory virtualAddress) + 4096) ∧
        UserWritable (pageEntry mem directory (u32 (virtualAddress + 8))) := by
  have hlt := entryAddress_lt (pageEntry_lt mem directory virtualAddress)
  have hmod := entryAddress_mod (pageEntry_lt mem directory virtualAddress)
  have hmod' := entryAddress_mod (pageEntry_lt mem directory (u32 (virtualAddress + 8)))
  have hentry : pageEntry mem directory (u32 (virtualAddress + i)) =
      pageEntry mem directory (u32 (virtualAddress + 8)) :=
    pageEntry_congr (by simp only [u32]; omega)
  have hoffset : u32 (virtualAddress + i) % 4096 = virtualAddress % 4096 + i - 4096 := by
    simp only [u32]
    omega
  have hlt' := entryAddress_lt (pageEntry_lt mem directory (u32 (virtualAddress + 8)))
  unfold StoredAsUser translate
  rw [hentry, hoffset]
  generalize entryAddress (pageEntry mem directory (u32 (virtualAddress + 8))) = next at hlt' hmod'
  generalize entryAddress (pageEntry mem directory virtualAddress) = this at hlt hmod
  apply and_congr_left
  intro _
  have hstored : u32 ((this + virtualAddress % 4096 : ℕ) + i) =
      (this + virtualAddress % 4096 + i) % 2 ^ 32 := by
    rw [← Nat.cast_add, u32_natCast]
  have hneighbour : u32 (this + 4096) = (this + 4096) % 2 ^ 32 := u32_natCast (this + 4096)
  rw [hstored, hneighbour]
  omega

/-- **Program arguments.** For every task, page directory and pointer, all eight bytes are stored
where the task itself could have stored them exactly when its page tables happen to allow it. -/
theorem argumentsConfined_iff (arguments : ProcessArguments) {virtualAddress : ℕ}
    (hptr : virtualAddress < 2 ^ 32) (s : TaskList) (mem : Mem) :
    ArgumentsConfined arguments virtualAddress s mem ↔
      ArgumentsPageWritable virtualAddress mem
        (s.tasks s.currentTask).pageDirectory.directoryEntry := by
  -- the address of every byte is known
  have hconfined : ArgumentsConfined arguments virtualAddress s mem ↔ ∀ (i : ℕ) (_ : i < 8),
      StoredAsUser mem (s.tasks s.currentTask).pageDirectory.directoryEntry
        (u32 (virtualAddress + i)) (u32 (translate mem
          (s.tasks s.currentTask).pageDirectory.directoryEntry virtualAddress
          + i)) := by
    apply forall₂_congr
    intro i hi
    rcases @command8_store arguments virtualAddress s mem i hi with ⟨val, hval⟩
    rw [hval]
    constructor
    · rintro ⟨store, hstore, h⟩
      rw [← Option.some.inj hstore] at h
      exact h
    · intro h
      exact ⟨_, rfl, h⟩
  rw [hconfined]
  unfold ArgumentsPageWritable
  generalize (s.tasks s.currentTask).pageDirectory.directoryEntry = directory
  constructor
  · intro h
    refine ⟨(storedAsUser_same_page hptr (by omega)).mp (h 0 (by omega)), ?_⟩
    by_cases hfits : virtualAddress % 4096 + 8 ≤ 4096
    · exact Or.inl hfits
    · right
      rcases (storedAsUser_next_page (by omega) (by omega)).mp (h 7 (by omega)) with
        ⟨haddr, hwritable⟩
      exact ⟨hwritable, haddr⟩
  · rintro ⟨hwritable, hnext⟩ i hi
    by_cases hsame : virtualAddress % 4096 + i < 4096
    · exact (storedAsUser_same_page hptr hsame).mpr hwritable
    · rcases hnext.resolve_left (by omega) with ⟨hwritable', haddr⟩
      exact (storedAsUser_next_page hi (by omega)).mpr ⟨haddr, hwritable'⟩

/-- A page table in which `0x400000` and `0x401000` are the user's and lie in physical memory the
other way round, with its directory at `0x1000000`. -/
def swappedPages : Mem :=
  writeU32 (writeU32 (writeU32 (fun _ => 0) (0x1000000 + 4) (0x1001000 ||| 0b111))
    0x1001000 (0x1201000 ||| 0b111)) (0x1001000 + 4) (0x1200000 ||| 0b111)

/-- One task, with that directory. -/
def swappedPagesTask : TaskList := ⟨4096, 4096, 4096, fun _ => ⟨⟨0, 0x1000000⟩, {}, 0, 0, 0⟩⟩

/-- A pointer to the start of a page. -/
theorem argumentsConfined_pageStart :
    ArgumentsConfined ⟨1, 0x1300000⟩ 0x400000 swappedPagesTask swappedPages ↔
      ArgumentsPageWritable 0x400000 swappedPages 0x1000000 :=
  argumentsConfined_iff _ (by decide) swappedPagesTask swappedPages

/-- With a pointer to the last four bytes of a page `argv` goes to the page behind it in physical
memory, not to the task's next page. -/
theorem arguments_cross_page :
    ¬ ∀ (arguments : ProcessArguments) (virtualAddress : ℕ) (_ : virtualAddress < 2 ^ 32)
      (s : TaskList) (mem : Mem), ArgumentsConfined arguments virtualAddress s mem := by
  intro h
  rcases h ⟨1, 0x1300000⟩ 0x400ffc (by decide) swappedPagesTask swappedPages 4 (by decide) with
    ⟨store, hstore, haddr, -⟩
  rcases @command8_store ⟨1, 0x1300000⟩ 0x400ffc swappedPagesTask swappedPages 4 (by decide) with
    ⟨val, hval⟩
  rw [← Option.some.inj (hval.symm.trans hstore)] at haddr
  have hne : u32 (translate swappedPages 0x1000000 0x400ffc + (4 : ℕ)) ≠
      translate swappedPages 0x1000000 (u32 ((0x400ffc : ℕ) + (4 : ℕ))) := by decide
  exact hne haddr

end MarrowOS
