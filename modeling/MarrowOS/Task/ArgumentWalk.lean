import Mathlib.Data.Set.Finite.Basic
import MarrowOS.Lib.Walks
import MarrowOS.Task.Arguments
import MarrowOS.Task.ProcessTheorems

/-!
# Where the walk over the arguments ends

The walk that counts the nodes ends exactly when it never comes back to a node
(`processCountCommandArguments_ends`). The second walk ends in any case, as every node costs an
unused slot of the allocation table, so `process_inject_arguments` returns exactly when the first
walk ends (`processInjectArguments_returns`).
-/

namespace MarrowOS

open ByteMem CInt Fallible Walks

variable {k k' : Kernel} {process process' : Process} {mem : Mem}
  {size ptr root current n i argv : ℕ}

/-! ## Counting -/

/-- From a node to the next; the walk stays at null. -/
def argumentStep (mem : Mem) (current : ℕ) : ℕ :=
  if current = 0 then 0 else commandArgumentNext mem current

/-- No node is reached again once it was left. -/
def ArgumentsNeverReturn (mem : Mem) (root : ℕ) : Prop :=
  NeverReturns (argumentStep mem) (· = 0) root

lemma argumentStep_zero (mem : Mem) (current : ℕ) (h : current = 0) :
    argumentStep mem current = 0 := if_pos h

/-- All places but the first are 32-bit words. -/
lemma argumentStep_finite (mem : Mem) (root : ℕ) :
    (Set.range fun i => (argumentStep mem)^[i] root).Finite := by
  refine ((Set.finite_lt_nat (2 ^ 32)).union (Set.finite_singleton root)).subset ?_
  rintro _ ⟨i, rfl⟩
  cases i with
  | zero => exact Or.inr rfl
  | succ i =>
    left
    show (argumentStep mem)^[i + 1] root < 2 ^ 32
    rw [Function.iterate_succ_apply', argumentStep]
    split_ifs
    · norm_num
    · exact readU32_lt mem _

/-- The count is there after as many steps as there are nodes. -/
lemma processCountCommandArgumentsLoop_isSome (mem : Mem) (n : ℕ) : ∀ (current : ℕ) (i : ℤ),
    (processCountCommandArgumentsLoop mem n current i).isSome ↔
      ∃ j < n, (argumentStep mem)^[j] current = 0 := by
  induction n with
  | zero =>
    intro current i
    simp [processCountCommandArgumentsLoop]
  | succ n ih =>
    intro current i
    rw [processCountCommandArgumentsLoop]
    by_cases h0 : current = 0
    · rw [if_pos h0]
      exact iff_of_true rfl ⟨0, Nat.succ_pos n, h0⟩
    · have hstep : argumentStep mem current = commandArgumentNext mem current := if_neg h0
      rw [if_neg h0, ih, ← hstep]
      constructor
      · rintro ⟨j, hj, heq⟩
        exact ⟨j + 1, Nat.succ_lt_succ hj, heq⟩
      · rintro ⟨j, hj, heq⟩
        cases j with
        | zero => exact absurd heq h0
        | succ j => exact ⟨j, Nat.lt_of_succ_lt_succ hj, heq⟩

/-- **Counting ends** exactly when no node is reached twice. -/
theorem processCountCommandArguments_ends (mem : Mem) (root : ℕ) :
    (∃ n, (processCountCommandArguments n root mem).isSome) ↔ ArgumentsNeverReturn mem root := by
  rw [ArgumentsNeverReturn,
    ← ends_iff_neverReturns (argumentStep_zero mem) (argumentStep_finite mem root)]
  constructor
  · rintro ⟨n, hn⟩
    obtain ⟨j, -, hj⟩ := (processCountCommandArgumentsLoop_isSome mem n root 0).mp hn
    exact ⟨j, hj⟩
  · rintro ⟨j, hj⟩
    exact ⟨j + 1,
      (processCountCommandArgumentsLoop_isSome mem (j + 1) root 0).mpr ⟨j, Nat.lt_succ_self j, hj⟩⟩

/-- With more steps the count is the same. -/
lemma processCountCommandArgumentsLoop_mono {n' : ℕ} (hle : n ≤ n') : ∀ {current : ℕ} {i r : ℤ},
    processCountCommandArgumentsLoop mem n current i = some r →
      processCountCommandArgumentsLoop mem n' current i = some r := by
  induction n generalizing n' with
  | zero =>
    intro current i r h
    exact absurd h (by simp [processCountCommandArgumentsLoop])
  | succ n ih =>
    intro current i r h
    obtain ⟨n', rfl⟩ : ∃ m, n' = m + 1 := ⟨n' - 1, by omega⟩
    rw [processCountCommandArgumentsLoop] at h ⊢
    by_cases h0 : current = 0
    · rw [if_pos h0] at h ⊢
      exact h
    · rw [if_neg h0] at h ⊢
      exact ih (Nat.le_of_succ_le_succ hle) h

/-! ## Copying -/

/-- How many slots of the allocation table are unused. -/
def freeSlots (process : Process) : ℕ := process.allocations.countP fun a => a.ptr == 0

lemma hasFreeSlot_iff : HasFreeSlot process ↔ 0 < freeSlots process := by
  rw [freeSlots, List.countP_pos_iff]
  simp [HasFreeSlot]

/-- Recording a pointer uses up a slot. -/
lemma freeSlots_record {a : ProcessAllocation} (hi : process.allocations[i]? = some a)
    (h0 : a.ptr = 0) (hptr : ptr ≠ 0) :
    freeSlots { process with allocations := process.allocations.set i ⟨ptr, size⟩ } + 1 =
      freeSlots process := by
  obtain ⟨hlt, hget⟩ := List.getElem?_eq_some_iff.mp hi
  have hpos : 0 < freeSlots process :=
    hasFreeSlot_iff.mp ⟨a, List.mem_of_getElem? hi, h0⟩
  unfold freeSlots at hpos ⊢
  rw [List.countP_set hlt, hget]
  simp only [h0, hptr, beq_self_eq_true, if_true, beq_iff_eq, if_false]
  omega

/-- A pointer that `process_malloc` hands out is recorded in a slot that was unused; otherwise the
process is left as it was. -/
lemma processMalloc_record (h : processMalloc process size k = .ok (ptr, process', k')) :
    ptr = 0 ∧ process' = process ∨
    ptr ≠ 0 ∧ ∃ (i : ℕ) (a : ProcessAllocation), process.allocations[i]? = some a ∧ a.ptr = 0 ∧
      process' = { process with allocations := process.allocations.set i ⟨ptr, size⟩ } := by
  unfold processMalloc at h
  rcases bind_eq_ok.mp h with ⟨⟨p, m⟩, -, h⟩
  by_cases hp : p = 0
  · simp only [if_pos hp] at h
    rcases Prod.mk.inj (Except.ok.inj h) with ⟨hptr, hrest⟩
    exact Or.inl ⟨hptr.symm, (Prod.mk.inj hrest).1.symm⟩
  · simp only [if_neg hp] at h
    by_cases hslot : HasFreeSlot process
    · obtain ⟨i, a, hi, h0, hindex⟩ := processFindFreeAllocationIndex_of_free hslot
      rw [hindex, if_neg (by omega)] at h
      split_ifs at h
      · rcases Prod.mk.inj (Except.ok.inj h) with ⟨hptr, hrest⟩
        exact Or.inl ⟨hptr.symm, (Prod.mk.inj hrest).1.symm⟩
      · rcases Prod.mk.inj (Except.ok.inj h) with ⟨hptr, hrest⟩
        rw [Int.toNat_natCast, hptr] at hrest
        exact Or.inr ⟨hptr ▸ hp, i, a, hi, h0, (Prod.mk.inj hrest).1.symm⟩
    · rw [if_pos (processFindFreeAllocationIndex_of_full hslot)] at h
      rcases Prod.mk.inj (Except.ok.inj h) with ⟨hptr, hrest⟩
      exact Or.inl ⟨hptr.symm, (Prod.mk.inj hrest).1.symm⟩

/-- The kernel's page directory maps every page to itself, so nothing faults there. -/
lemma strncpy_kernel_isSome (dest src : ℕ) (count : ℤ) (mem : Mem) :
    (strncpy .kernel dest src count mem).isSome := by
  have hloop : ∀ (n i : ℕ) (mem : Mem), (strncpyLoop .kernel dest src n i mem).isSome := by
    intro n
    induction n with
    | zero => exact fun i mem => rfl
    | succ n ih =>
      intro i mem
      show (if mem (u32 (src + i)) = 0 then some (i, mem)
        else strncpyLoop .kernel dest src n (i + 1) _).isSome
      split_ifs
      · rfl
      · exact ih _ _
  obtain ⟨⟨i, mem'⟩, h⟩ := Option.isSome_iff_exists.mp (hloop (count - 1).toNat 0 mem)
  rw [strncpy, h]
  rfl

/-- The second walk is over when the slots are used up. -/
lemma processInjectArgumentsLoop_isSome (argv n : ℕ) : ∀ (current i : ℕ) (process : Process)
    (k : Kernel), freeSlots process < n →
      (processInjectArgumentsLoop argv n current i process k).isSome := by
  induction n with
  | zero => exact fun _ _ _ _ hlt => absurd hlt (Nat.not_lt_zero _)
  | succ n ih =>
    intro current i process k hlt
    rw [processInjectArgumentsLoop]
    by_cases h0 : current = 0
    · rw [if_pos h0]
      rfl
    rw [if_neg h0]
    cases hmalloc : processMalloc process sizeofArgument k with
    | error fault => rfl
    | ok r =>
      rcases r with ⟨ptr, process', k'⟩
      dsimp only
      rcases processMalloc_record hmalloc with ⟨hptr, -⟩ | ⟨hptr, j, a, hj, ha, rfl⟩
      · rw [if_pos hptr]
        rfl
      · rw [if_neg hptr]
        have hslots := @freeSlots_record process sizeofArgument ptr j a hj ha hptr
        obtain ⟨mem, hmem⟩ := Option.isSome_iff_exists.mp
          (strncpy_kernel_isSome ptr current sizeofArgument k'.machine.mem)
        rw [hmem]
        exact ih _ _ _ _ (by omega)

/-- **`process_inject_arguments` returns** exactly when no node is reached twice. -/
theorem processInjectArguments_returns (process : Process) (arguments : ProcessArguments)
    (root : ℕ) (k : Kernel) :
    (∃ n, (processInjectArguments n process arguments root k).isSome) ↔
      ArgumentsNeverReturn k.machine.mem root := by
  rw [← processCountCommandArguments_ends]
  constructor
  · rintro ⟨n, hn⟩
    refine ⟨n, ?_⟩
    unfold processInjectArguments at hn
    cases hcount : processCountCommandArguments n root k.machine.mem with
    | none =>
      rw [hcount] at hn
      exact absurd hn (by simp)
    | some argc => rfl
  · rintro ⟨n, hn⟩
    obtain ⟨argc, hargc⟩ := Option.isSome_iff_exists.mp hn
    -- steps for both walks
    refine ⟨n + (freeSlots process + 1), ?_⟩
    have hcount : processCountCommandArguments (n + (freeSlots process + 1)) root k.machine.mem =
        some argc := processCountCommandArgumentsLoop_mono (Nat.le_add_right _ _) hargc
    unfold processInjectArguments
    rw [hcount]
    dsimp only
    by_cases hzero : argc = 0
    · rw [if_pos hzero]
      rfl
    rw [if_neg hzero]
    cases hmalloc : processMalloc process (u32 (4 * argc)) k with
    | error fault => rfl
    | ok r =>
      rcases r with ⟨argv, process', k'⟩
      dsimp only
      -- the array takes a slot, so the strings find one slot fewer
      rcases processMalloc_record hmalloc with ⟨hptr, -⟩ | ⟨hptr, j, a, hj, ha, rfl⟩
      · rw [if_pos hptr]
        rfl
      · rw [if_neg hptr]
        have hslots := @freeSlots_record process (u32 (4 * argc)) argv j a hj ha hptr
        obtain ⟨result, hresult⟩ := Option.isSome_iff_exists.mp
          (processInjectArgumentsLoop_isSome argv (n + (freeSlots process + 1)) root 0
            { process with allocations := process.allocations.set j ⟨argv, u32 (4 * argc)⟩ } k'
            (by omega))
        rw [hresult]
        rcases result with fault | ⟨res, process'', k''⟩
        · rfl
        · dsimp only
          split_ifs
          · rfl
          · rfl

end MarrowOS
