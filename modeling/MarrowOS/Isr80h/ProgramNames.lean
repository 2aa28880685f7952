import MarrowOS.CString
import MarrowOS.Isr80h.Process
import MarrowOS.Task.StringCopyTheorems

/-!
# The paths of programs that are started

Both system calls that start a program put `0:/` and the program's name into a local buffer of
`MARROWOS_MAX_PATH` bytes. What is stored there is a list of bytes with their indices in the
buffer. The copies of the name are bounded by the size of the buffer, but begin three bytes into
it (`programNames_iff`).
-/

namespace MarrowOS

open ByteMem

/-! ## Copies into a local buffer -/

/-- `strcpy`, to index `dest` of the buffer. -/
def strcpy (dest : ℕ) : (src : CString) → List ByteStore
  | [] => [⟨dest, 0⟩]
  | c :: src => if c ≠ 0 then ⟨dest, c⟩ :: strcpy (dest + 1) src else [⟨dest, 0⟩]

/-- The loop of `strncpy` with at most `n` bytes to go. -/
def strncpyStringLoop (dest : ℕ) : (n : ℕ) → (src : CString) → List ByteStore
  | 0, _ => [⟨dest, 0⟩]
  | n + 1, src =>
    if src.headD 0 = 0 then [⟨dest, 0⟩]
    else ⟨dest, src.headD 0⟩ :: strncpyStringLoop (dest + 1) n src.tail

/-- `strncpy`, to index `dest` of the buffer. -/
def strncpyString (dest : ℕ) (src : CString) (count : ℤ) : List ByteStore :=
  strncpyStringLoop dest (count - 1).toNat src

/-- `"0:/"`. -/
def rootPath : CString := [48, 58, 47]

/-- What `isr80h_command6_process_load_start` stores in `path`, for the string that
`copy_string_from_task` left in `filename`. -/
def isr80hCommand6Path (filename : CString) : List ByteStore :=
  strcpy 0 rootPath ++ strcpy 3 filename

/-- What `isr80h_command7_invoke_system_command` stores in `path`. -/
def isr80hCommand7Path (programName : CString) : List ByteStore :=
  strcpy 0 rootPath ++ strncpyString 3 programName marrowosMaxPath

/-- What `copy_string_from_task` leaves of a name in the buffer `filename`. -/
def copiedFilename (name : CString) : CString := name.take (marrowosMaxPath - 1)

/-! ## What is asked of a path -/

/-- The string lies at `addr`. -/
structure HoldsString (mem : Mem) (addr : ℕ) (s : CString) : Prop where
  nonzero : 0 ∉ s
  bytes : ∀ i < s.length, mem (addr + i) = s.getD i 0
  nul : mem (addr + s.length) = 0

/-- All stores are in the buffer, and it then holds `0:/` and a prefix of the name. -/
structure PathInBounds (stores : List ByteStore) (name : CString) : Prop where
  inBounds : ∀ store ∈ stores, store.addr < marrowosMaxPath
  path : ∀ mem, ∃ shortened, shortened <+: name ∧
    HoldsString (applyStores stores mem) 0 (rootPath ++ shortened)

variable {s name : CString} {dest n : ℕ} {mem : Mem} {store : ByteStore}

/-! ## Copies -/

/-- The stores of a string and the NUL behind it. -/
def stringStores (dest : ℕ) : CString → List ByteStore
  | [] => [⟨dest, 0⟩]
  | c :: s => ⟨dest, c⟩ :: stringStores (dest + 1) s

lemma strcpy_eq (hs : 0 ∉ s) : ∀ dest, strcpy dest s = stringStores dest s := by
  induction s with
  | nil => exact fun dest => rfl
  | cons c s ih =>
    intro dest
    have hc : c ≠ 0 := fun h => hs (h ▸ List.mem_cons_self)
    rw [strcpy, if_pos hc, ih fun h => hs (List.mem_cons_of_mem c h)]
    rfl

lemma strncpyStringLoop_eq (n : ℕ) : ∀ (s : CString) (dest : ℕ), 0 ∉ s →
    strncpyStringLoop dest n s = stringStores dest (s.take n) := by
  induction n with
  | zero =>
    intro s dest _
    rw [List.take_zero]
    rfl
  | succ n ih =>
    intro s dest hs
    rw [strncpyStringLoop]
    cases s with
    | nil => rfl
    | cons c s =>
      have hc : c ≠ 0 := fun h => hs (h ▸ List.mem_cons_self)
      rw [List.headD_cons, if_neg hc, List.tail_cons, List.take_succ_cons,
        ih s (dest + 1) fun h => hs (List.mem_cons_of_mem c h)]
      rfl

/-- The stores end with the NUL. -/
lemma stringStores_lt_iff {size : ℕ} : ∀ dest,
    (∀ store ∈ stringStores dest s, store.addr < size) ↔ dest + s.length < size := by
  induction s with
  | nil => simp [stringStores]
  | cons c s ih =>
    intro dest
    rw [stringStores, List.forall_mem_cons, ih (dest + 1), List.length_cons]
    show dest < size ∧ dest + 1 + s.length < size ↔ dest + (s.length + 1) < size
    omega

/-- The bytes that the stores leave. -/
lemma applyStores_stringStores (s : CString) : ∀ (dest : ℕ) (mem : Mem),
    applyStores (stringStores dest s) mem = writeBytes mem dest (s ++ [0]) := by
  have hone : ∀ (dest : ℕ) (c : UInt8) (mem : Mem),
      Function.update mem dest c = writeBytes mem dest [c] := by
    intro dest c mem
    have hconcat := @writeBytes_concat mem dest [] c
    rw [writeBytes_nil] at hconcat
    exact hconcat
  induction s with
  | nil => exact fun dest mem => hone dest 0 mem
  | cons c s ih =>
    intro dest mem
    show applyStores (stringStores (dest + 1) s) (Function.update mem dest c) = _
    rw [ih, hone]
    exact writeBytes_append

/-! ## Paths -/

lemma isr80hCommand6Path_eq (hname : 0 ∉ name) : isr80hCommand6Path (copiedFilename name) =
    stringStores 0 rootPath ++ stringStores 3 (name.take (marrowosMaxPath - 1)) := by
  have hcopied : 0 ∉ copiedFilename name := fun h => hname (List.mem_of_mem_take h)
  rw [isr80hCommand6Path, strcpy_eq (by decide), strcpy_eq hcopied]
  rfl

lemma isr80hCommand7Path_eq (hname : 0 ∉ name) : isr80hCommand7Path name =
    stringStores 0 rootPath ++ stringStores 3 (name.take (marrowosMaxPath - 1)) := by
  rw [isr80hCommand7Path, strcpy_eq (by decide), strncpyString, strncpyStringLoop_eq _ _ _ hname]
  rfl

/-- The path is built, inside the buffer or not. -/
lemma holdsString_path (hs : 0 ∉ s) (mem : Mem) :
    HoldsString (applyStores (stringStores 0 rootPath ++ stringStores 3 s) mem) 0
      (rootPath ++ s) := by
  have hlength : rootPath.length = 3 := rfl
  have hstored : applyStores (stringStores 0 rootPath ++ stringStores 3 s) mem =
      writeBytes (writeBytes mem 0 (rootPath ++ [0])) 3 (s ++ [0]) := by
    rw [applyStores, List.foldl_append]
    show applyStores _ (applyStores _ mem) = _
    rw [applyStores_stringStores, applyStores_stringStores]
  rw [hstored]
  refine ⟨?_, fun i hi => ?_, ?_⟩
  · intro h
    rcases List.mem_append.mp h with hroot | hs'
    · exact absurd hroot (by decide)
    · exact hs hs'
  · rw [List.length_append, hlength] at hi
    rw [Nat.zero_add]
    by_cases hlow : i < 3
    · -- the root is not touched by the second copy
      have hat := @writeBytes_at mem 0 i (rootPath ++ [0]) (by simp [rootPath]; omega)
      rw [Nat.zero_add] at hat
      rw [writeBytes_of_outside (Or.inl hlow), hat,
        List.getD_append _ _ _ _ (by rw [hlength]; exact hlow),
        List.getD_append _ _ _ _ (by rw [hlength]; exact hlow)]
    · obtain ⟨j, rfl⟩ : ∃ j, i = 3 + j := ⟨i - 3, by omega⟩
      rw [writeBytes_at (by rw [List.length_append]; omega),
        List.getD_append _ _ _ _ (by omega),
        List.getD_append_right _ _ _ _ (by rw [hlength]; omega), hlength, Nat.add_sub_cancel_left]
  · rw [List.length_append, hlength, Nat.zero_add,
      writeBytes_at (by rw [List.length_append, List.length_singleton]; omega),
      List.getD_append_right _ _ _ _ le_rfl, Nat.sub_self]
    rfl

/-- The stores behind the root decide. -/
lemma pathInBounds_iff (hname : 0 ∉ name) :
    PathInBounds
        (stringStores 0 rootPath ++ stringStores 3 (name.take (marrowosMaxPath - 1))) name ↔
      name.length ≤ 104 := by
  have hbound : (∀ store ∈ stringStores 0 rootPath ++
      stringStores 3 (name.take (marrowosMaxPath - 1)), store.addr < marrowosMaxPath) ↔
      name.length ≤ 104 := by
    rw [List.forall_mem_append, stringStores_lt_iff, stringStores_lt_iff, List.length_take]
    show 0 + 3 < 108 ∧ 3 + min 107 name.length < 108 ↔ name.length ≤ 104
    omega
  constructor
  · exact fun h => hbound.mp h.inBounds
  · intro h
    refine ⟨hbound.mpr h, fun mem => ⟨_, List.take_prefix _ _, holdsString_path ?_ mem⟩⟩
    exact fun hzero => hname (List.mem_of_mem_take hzero)

/-- The copy of the name that `copy_string_from_task` leaves in `filename`. -/
theorem StringCopied.holdsString {directory tmp phys : ℕ} {k k' : Kernel} (hname : 0 ∉ name)
    (h : StringCopied directory tmp phys marrowosMaxPath name k k') :
    HoldsString k'.machine.mem phys (copiedFilename name) := by
  have hlength : (copiedFilename name).length = min name.length (marrowosMaxPath - 1) := by
    rw [copiedFilename, List.length_take, Nat.min_comm]
  refine ⟨fun hzero => hname (List.mem_of_mem_take hzero), fun i hi => ?_, ?_⟩
  · rw [hlength] at hi
    rw [h.bytes i hi, copiedFilename, List.getD_eq_getElem?_getD, List.getD_eq_getElem?_getD,
      List.getElem?_take_of_lt (by omega)]
  · rw [hlength]
    exact h.nul

/-- **Program names** stay in the buffer exactly when they have at most 104 bytes. -/
theorem programNames_iff (name : CString) (hname : 0 ∉ name) :
    (PathInBounds (isr80hCommand6Path (copiedFilename name)) name ↔ name.length ≤ 104) ∧
    (PathInBounds (isr80hCommand7Path name) name ↔ name.length ≤ 104) := by
  rw [isr80hCommand6Path_eq hname, isr80hCommand7Path_eq hname]
  exact ⟨pathInBounds_iff hname, pathInBounds_iff hname⟩

/-- `"shell.elf"` -/
theorem programNames_shell :
    PathInBounds (isr80hCommand6Path (copiedFilename [115, 104, 101, 108, 108, 46, 101, 108, 102]))
      [115, 104, 101, 108, 108, 46, 101, 108, 102] ∧
    PathInBounds (isr80hCommand7Path [115, 104, 101, 108, 108, 46, 101, 108, 102])
      [115, 104, 101, 108, 108, 46, 101, 108, 102] := by
  rcases programNames_iff [115, 104, 101, 108, 108, 46, 101, 108, 102] (by decide) with ⟨h6, h7⟩
  exact ⟨h6.mpr (by decide), h7.mpr (by decide)⟩

/-- The NUL behind 105 bytes is stored one byte past the buffer. -/
theorem programNames_overrun :
    ¬ ∀ name : CString, 0 ∉ name →
      PathInBounds (isr80hCommand6Path (copiedFilename name)) name ∧
      PathInBounds (isr80hCommand7Path name) name := by
  intro h
  have hbounds := (h (List.replicate 105 65) (by decide)).2.inBounds
  have hlast : (⟨108, 0⟩ : ByteStore) ∈ isr80hCommand7Path (List.replicate 105 65) := by
    decide +kernel
  exact absurd (hbounds _ hlast) (by decide)

end MarrowOS
