import Mathlib.Data.List.TakeWhile
import MarrowOS.Isr80h.ProgramNames
import MarrowOS.Task.ArgumentBlocks

/-!
# What `process_inject_arguments` leaves

For a list of `n` nodes a new process needs `n + 1` allocations. `ArgumentsCopied` is what the
copying loop leaves when it gets the `n` of them that it asks for; each step of it is a `CopyStep`.
Together with the allocation of `argv` this is `processInjectArguments_arrive`.
-/

namespace MarrowOS

open ByteMem CInt

variable {k k' k₁ k₂ : Kernel} {process process' process₁ : Process} {live : List Alloc}
  {tables nodes strs : List ℕ} {mem mem' : Mem} {argv size current node str i n x : ℕ} {s : CString}

/-! ## The list -/

/-- The nodes of the list that starts at `current`. -/
def ArgumentChain (mem : Mem) : (current : ℕ) → (nodes : List ℕ) → Prop
  | current, [] => current = 0
  | current, node :: nodes =>
    current = node ∧ node ≠ 0 ∧ ArgumentChain mem (commandArgumentNext mem node) nodes

/-- The byte belongs to the node. -/
def InNode (node x : ℕ) : Prop := node ≤ x ∧ x < node + sizeofCommandArgument

/-- The text of a node: what comes before the first NUL, 511 bytes of it at most. -/
def argumentText (mem : Mem) (node : ℕ) : CString :=
  (((List.range sizeofArgument).map fun i => mem (node + i)).takeWhile (· ≠ 0)).take
    (sizeofArgument - 1)

/-- A walk only looks at the nodes. -/
lemma ArgumentChain.congr : ∀ {nodes : List ℕ} {current : ℕ}, ArgumentChain mem current nodes →
    (∀ node ∈ nodes, ∀ x, InNode node x → mem' x = mem x) → ArgumentChain mem' current nodes := by
  intro nodes
  induction nodes with
  | nil => exact fun h _ => h
  | cons node nodes ih =>
    rintro current ⟨heq, hne, hrest⟩ hsame
    have hnext : commandArgumentNext mem' node = commandArgumentNext mem node := by
      apply readU32_congr
      intro x h₀ h₁
      exact hsame node List.mem_cons_self x ⟨(Nat.le_add_right _ _).trans h₀, h₁⟩
    refine ⟨heq, hne, ?_⟩
    rw [hnext]
    exact ih hrest fun node hnode => hsame node (List.mem_cons_of_mem _ hnode)

lemma argumentText_congr (hsame : ∀ x, InNode node x → mem' x = mem x) :
    argumentText mem' node = argumentText mem node := by
  have hbytes : (List.range sizeofArgument).map (fun i => mem' (node + i)) =
      (List.range sizeofArgument).map fun i => mem (node + i) := by
    apply List.map_congr_left
    intro i hi
    have hlt : i < 512 := List.mem_range.mp hi
    exact hsame _ ⟨Nat.le_add_right _ _, show node + i < node + 516 by omega⟩
  rw [argumentText, hbytes, argumentText]

/-- The bytes up to the first NUL, and the NUL. -/
lemma getD_takeWhile : ∀ (l : List UInt8) (i : ℕ), i ≤ (l.takeWhile (· ≠ 0)).length →
    l.getD i 0 = (l.takeWhile (· ≠ 0)).getD i 0 := by
  intro l
  induction l with
  | nil => exact fun _ _ => rfl
  | cons c l ih =>
    intro i hi
    by_cases hc : c = 0
    · rw [List.takeWhile_cons_of_neg (by simpa using hc)] at hi ⊢
      obtain rfl : i = 0 := Nat.le_zero.mp hi
      exact hc
    · rw [List.takeWhile_cons_of_pos (by simpa using hc)] at hi ⊢
      cases i with
      | zero => rfl
      | succ i => exact ih i (Nat.le_of_succ_le_succ hi)

lemma zero_notMem_argumentText (mem : Mem) (node : ℕ) : 0 ∉ argumentText mem node := by
  intro h
  have hne := List.mem_takeWhile_imp (List.mem_of_mem_take h)
  exact absurd hne (by simp)

/-! ## Copying one text -/

/-- `strncpy` into a buffer of 512 bytes beside the node. -/
lemma strncpy_argument (hnode : node + sizeofCommandArgument ≤ 2 ^ 32)
    (hstr : str + sizeofArgument ≤ 2 ^ 32)
    (happart : node + sizeofArgument ≤ str ∨ str + sizeofArgument ≤ node) :
    strncpy .kernel str node sizeofArgument mem =
      some (writeBytes mem str (argumentText mem node ++ [0])) := by
  have h512 : sizeofArgument = 512 := rfl
  have h516 : sizeofCommandArgument = 516 := rfl
  have hcopies : Copies .kernel mem str node str sizeofArgument (fun i => node + i)
      (((List.range sizeofArgument).map fun i => mem (node + i)).takeWhile (· ≠ 0)) := by
    refine ⟨fun c hc => ?_, fun i hi hlt => ?_, fun i _ hlt => ?_, fun mem' _ i _ hlt => ?_,
      fun mem' _ i hlt => ?_⟩
    · simpa using List.mem_takeWhile_imp hc
    · rw [← getD_takeWhile _ _ hi, List.getD_eq_getElem _ _ (by simpa using hlt)]
      simp
    · omega
    · show some (u32 (node + i)) = some (node + i)
      rw [← Nat.cast_add, u32_natCast_of_lt (by omega)]
    · show some (u32 (str + i)) = some (str + i)
      rw [← Nat.cast_add, u32_natCast_of_lt (by omega)]
  exact strncpy_copies hcopies (by decide)

/-- A string that was written with its NUL. -/
lemma holdsString_writeBytes (hs : 0 ∉ s) : HoldsString (writeBytes mem str (s ++ [0])) str s := by
  refine ⟨hs, fun i hi => ?_, ?_⟩
  · rw [writeBytes_at (by rw [List.length_append]; omega), List.getD_append _ _ _ _ hi]
  · rw [writeBytes_at (by rw [List.length_append, List.length_singleton]; omega),
      List.getD_append_right _ _ _ _ le_rfl, Nat.sub_self]
    rfl

lemma HoldsString.congr (h : HoldsString mem str s)
    (hsame : ∀ x, str ≤ x → x ≤ str + s.length → mem' x = mem x) : HoldsString mem' str s := by
  refine ⟨h.nonzero, fun i hi => ?_, ?_⟩
  · rw [hsame _ (by omega) (by omega)]
    exact h.bytes i hi
  · rw [hsame _ (by omega) le_rfl]
    exact h.nul

lemma length_argumentText_lt (mem : Mem) (node : ℕ) :
    (argumentText mem node).length < sizeofArgument := by
  have hle : (argumentText mem node).length ≤ 511 := List.length_take_le _ _
  exact Nat.lt_succ_of_le hle

/-! ## One step of the loop -/

/-- The new blocks are none of the old ones. -/
lemma HeapOwns.not_covers_of_head {heap : Heap} {a b : Alloc} (h : HeapOwns heap (a :: live))
    (ha : a.Covers x) (hb : b ∈ live) : ¬ b.Covers x := by
  intro hbx
  have happart := (List.pairwise_cons.mp h.before_or_behind).1 b hb
  unfold Alloc.Covers at ha hbx
  omega

lemma MallocGranted.not_covers (h : MallocGranted process size k live tables str process₁ k₁)
    (hx : InUse k.machine.heap.heap live tables x) : ¬ (⟨str, size⟩ : Alloc).Covers x := by
  intro hcovers
  rcases hx.2 with hbelow | ⟨a, ha, hax⟩
  · have hptr : str = k₁.machine.heap.heap.saddr + _ := h.owns.heap.ptr_eq _ List.mem_cons_self
    have hsaddr := h.pool.1
    have hle : str ≤ x := hcovers.1
    omega
  · exact h.owns.heap.not_covers_of_head hcovers ha hax

lemma MallocGranted.pageDirectory (h : MallocGranted process size k live tables str process₁ k₁) :
    k₁.pageDirectory process₁ = k.pageDirectory process := by
  obtain ⟨i, a, -, -, heq⟩ := h.slot
  rw [heq, h.kernel]
  rfl

/-- What was recorded stays recorded. -/
lemma MallocGranted.kept (h : MallocGranted process size k live tables str process₁ k₁)
    {a : ProcessAllocation} (ha : a ∈ process.allocations) (hne : a.ptr ≠ 0) :
    a ∈ process₁.allocations := by
  obtain ⟨i, b, hi, h0, heq⟩ := h.slot
  obtain ⟨j, hj⟩ := List.mem_iff_getElem?.mp ha
  have hij : i ≠ j := by
    rintro rfl
    rw [hi] at hj
    rw [← Option.some.inj hj] at hne
    exact hne h0
  rw [heq]
  refine List.mem_of_getElem? (i := j) ?_
  rw [List.getElem?_set_ne hij]
  exact hj

lemma MallocGranted.recorded (h : MallocGranted process size k live tables str process₁ k₁) :
    ⟨str, size⟩ ∈ process₁.allocations := by
  obtain ⟨i, b, hi, -, heq⟩ := h.slot
  rw [heq]
  exact List.mem_of_getElem? (List.getElem?_set_self (List.getElem?_eq_some_iff.mp hi).1)

/-- Writing outside the page directory. -/
lemma OwnsSpace.withMem (h : OwnsSpace process k live tables)
    (hsame : ∀ x, InBlock (k.pageDirectory process).directoryEntry x → mem x = k.machine.mem x) :
    OwnsSpace process (k.withMem mem) live tables :=
  ⟨h.heap, h.space.congr fun x h₀ h₁ => hsame x ⟨h₀, h₁⟩, h.directory, h.tables⟩

/-- What the copying loop relies on at argument `i`: a block `argv` with room for the pointers that
are still to come, and nodes in memory that is in use, but not in that block. -/
structure ReadyToCopy (argv size current i : ℕ) (nodes : List ℕ) (process : Process) (k : Kernel)
    (live : List Alloc) (tables : List ℕ) : Prop where
  owns : OwnsSpace process k live tables
  block : ⟨argv, size⟩ ∈ live
  size_le : size ≤ 2 ^ 30
  room : 4 * (i + nodes.length) ≤ size
  space : ∀ x, (⟨argv, size⟩ : Alloc).Covers x →
    ¬ InBlock (k.pageDirectory process).directoryEntry x ∧ ¬ InTables tables x
  chain : ArgumentChain k.machine.mem current nodes
  fits : ∀ node ∈ nodes, node + sizeofCommandArgument ≤ 2 ^ 32
  inUse : ∀ node ∈ nodes, ∀ x, InNode node x → InUse k.machine.heap.heap live tables x
  apart : ∀ node ∈ nodes, ∀ x, InNode node x → ¬ (⟨argv, size⟩ : Alloc).Covers x

/-- The kernel when the text of `node` is in the block `str`, and `str` in `argv[i]`. -/
def argumentCopied (argv i node str : ℕ) (k : Kernel) : Kernel :=
  k.withMem (writeU32 (writeBytes k.machine.mem str (argumentText k.machine.mem node ++ [0]))
    (argv + 4 * i) str)

/-- The bytes that `argv[i]`, ..., `argv[i + count - 1]` take. -/
def InArgv (argv i count x : ℕ) : Prop := argv + 4 * i ≤ x ∧ x < argv + 4 * (i + count)

/-- What one step of the loop leaves. -/
structure CopyStep (argv size i node : ℕ) (nodes : List ℕ) (process : Process) (k : Kernel)
    (live : List Alloc) (tables : List ℕ) (str : ℕ) (process₁ : Process) (k₂ : Kernel) : Prop where
  ready : ReadyToCopy argv size (commandArgumentNext k₂.machine.mem node) (i + 1) nodes process₁ k₂
    (⟨str, sizeofArgument⟩ :: live) tables
  word : readU32 k₂.machine.mem (argv + 4 * i) = str
  text : HoldsString k₂.machine.mem str (argumentText k.machine.mem node)
  pool : SamePool k.machine.heap.heap k₂.machine.heap.heap
  same : ∀ x, InUse k.machine.heap.heap live tables x → ¬ InArgv argv i 1 x →
    k₂.machine.mem x = k.machine.mem x

lemma MallocGranted.str_lt
    (hg : MallocGranted process sizeofArgument k live tables str process₁ k₁) :
    str + sizeofArgument ≤ 2 ^ 31 := by
  have hlt : str + 4096 ≤ 2 ^ 31 := hg.owns.heap.ptr_lt List.mem_cons_self
  have h512 : sizeofArgument = 512 := rfl
  omega

lemma ReadyToCopy.argv_lt (h : ReadyToCopy argv size current i nodes process k live tables) :
    argv + 4096 ≤ 2 ^ 31 := h.owns.heap.ptr_lt h.block

/-- What the step writes. -/
lemma argumentCopied_outside (hstr : ¬ (⟨str, sizeofArgument⟩ : Alloc).Covers x)
    (hargv : ¬ InArgv argv i 1 x) :
    (argumentCopied argv i node str k).machine.mem x = k.machine.mem x := by
  have hlength := length_argumentText_lt k.machine.mem node
  show writeU32 _ _ _ x = _
  rw [writeU32_of_outside, writeBytes_of_outside]
  · rw [List.length_append, List.length_singleton]
    by_contra hin
    exact hstr (Alloc.covers_of_lt (by omega) (by omega))
  · unfold InArgv at hargv
    omega

/-- The pointers that are still to come lie in the block `argv`. -/
lemma ReadyToCopy.covers_of_inArgv
    (h : ReadyToCopy argv size current i nodes process k live tables)
    (hx : InArgv argv i nodes.length x) :
    (⟨argv, size⟩ : Alloc).Covers x := by
  have hroom := h.room
  exact Alloc.covers_of_lt ((Nat.le_add_right _ _).trans hx.1) (hx.2.trans_le (by omega))

section
variable (h : ReadyToCopy argv size current i (node :: nodes) process k live tables)
  (hg : MallocGranted process sizeofArgument k live tables str process₁ k₁)
include h hg

/-- The node is none of the new block's business. -/
lemma ReadyToCopy.node_apart : node + sizeofArgument ≤ str ∨ str + sizeofArgument ≤ node := by
  by_contra hnot
  have h512 : sizeofArgument = 512 := rfl
  have hin : InNode node (max node str) := ⟨le_max_left _ _, by
    show max node str < node + 516
    omega⟩
  apply hg.not_covers (h.inUse node List.mem_cons_self _ hin)
  exact Alloc.covers_of_lt (le_max_right _ _) (by omega)

/-- The text is copied as it was before the request. -/
lemma ReadyToCopy.argumentText_eq :
    argumentText k₁.machine.mem node = argumentText k.machine.mem node :=
  argumentText_congr fun x hx => hg.same x (h.inUse node List.mem_cons_self x hx)

/-- One step of the loop. -/
lemma ReadyToCopy.loop_step (n : ℕ) :
    processInjectArgumentsLoop argv (n + 1) current i process k =
      processInjectArgumentsLoop argv n
        (commandArgumentNext (argumentCopied argv i node str k₁).machine.mem node) (i + 1) process₁
        (argumentCopied argv i node str k₁) := by
  obtain ⟨rfl, hne, -⟩ := h.chain
  have hfits := h.fits current List.mem_cons_self
  have hstr := hg.str_lt
  have hargv := h.argv_lt
  have hsize := h.size_le
  have hroom := h.room
  rw [List.length_cons] at hroom
  have hcopy := @strncpy_argument k₁.machine.mem current str hfits (by omega) (h.node_apart hg)
  rw [processInjectArgumentsLoop, if_neg hne, hg.malloc]
  dsimp only
  rw [if_neg hg.ptr_ne, hcopy]
  dsimp only
  have hword : u32 ((argv : ℤ) + 4 * (i : ℕ)) = argv + 4 * i := by
    unfold u32
    omega
  rw [hword]
  rfl

omit h in
lemma argumentCopied_same (hx : InUse k.machine.heap.heap live tables x)
    (hargv : ¬ InArgv argv i 1 x) :
    (argumentCopied argv i node str k₁).machine.mem x = k.machine.mem x :=
  (argumentCopied_outside (hg.not_covers hx) hargv).trans (hg.same x hx)

/-- The nodes are the same after the step. -/
lemma ReadyToCopy.copied_node {c : ℕ} (hc : c ∈ node :: nodes) (hx : InNode c x) :
    (argumentCopied argv i node str k₁).machine.mem x = k.machine.mem x := by
  refine argumentCopied_same hg (h.inUse c hc x hx) fun hargv => h.apart c hc x hx ?_
  apply h.covers_of_inArgv
  unfold InArgv at hargv ⊢
  rw [List.length_cons]
  omega

/-- **Step lemma.** -/
lemma ReadyToCopy.step : CopyStep argv size i node nodes process k live tables str process₁
    (argumentCopied argv i node str k₁) := by
  have hdirectory := hg.pageDirectory
  have hroom := h.room
  rw [List.length_cons] at hroom
  have hstr := hg.str_lt
  obtain ⟨-, -, hchain⟩ := h.chain
  have hrest : ∀ c ∈ nodes, ∀ x, InNode c x →
      (argumentCopied argv i node str k₁).machine.mem x = k.machine.mem x :=
    fun c hc x hx => h.copied_node hg (List.mem_cons_of_mem _ hc) hx
  refine ⟨⟨?_, List.mem_cons_of_mem _ h.block, h.size_le, by omega, ?_, ?_,
    fun c hc => h.fits c (List.mem_cons_of_mem _ hc), fun c hc x hx => ?_,
    fun c hc => h.apart c (List.mem_cons_of_mem _ hc)⟩, ?_, ?_, hg.pool,
    fun x hx hargv => argumentCopied_same hg hx hargv⟩
  · -- neither block is the page directory
    apply hg.owns.withMem
    intro x hx
    rw [hdirectory] at hx
    have hlive : (⟨(k.pageDirectory process).directoryEntry, 4096⟩ : Alloc).Covers x :=
      page_covers.mpr hx
    refine argumentCopied_outside
      (fun hcovers => hg.owns.heap.not_covers_of_head hcovers h.owns.directory hlive)
      fun hargv => ?_
    refine (h.space x (h.covers_of_inArgv ?_)).1 hx
    unfold InArgv at hargv ⊢
    rw [List.length_cons]
    omega
  · show ∀ x, _ → ¬ InBlock (k₁.pageDirectory process₁).directoryEntry x ∧ _
    rw [hdirectory]
    exact h.space
  · -- the nodes that are left were not written to
    have hnext : commandArgumentNext (argumentCopied argv i node str k₁).machine.mem node =
        commandArgumentNext k.machine.mem node := by
      apply readU32_congr
      intro x h₀ h₁
      exact h.copied_node hg List.mem_cons_self ⟨(Nat.le_add_right _ _).trans h₀, h₁⟩
    rw [hnext]
    exact hchain.congr hrest
  · exact (h.inUse c (List.mem_cons_of_mem _ hc) x hx).mono hg.pool
      fun a ha => List.mem_cons_of_mem _ ha
  · exact readU32_writeU32_self (by omega)
  · rw [← h.argumentText_eq hg]
    apply (holdsString_writeBytes (zero_notMem_argumentText _ _)).congr
    intro x h₀ h₁
    have hlength := length_argumentText_lt k₁.machine.mem node
    apply writeU32_of_outside
    by_contra hin
    have hcovers : (⟨str, sizeofArgument⟩ : Alloc).Covers x := Alloc.covers_of_lt h₀ (by omega)
    apply hg.owns.heap.not_covers_of_head hcovers h.block
    apply h.covers_of_inArgv
    unfold InArgv
    rw [List.length_cons]
    omega

end

/-! ## The loop -/

/-- What the loop leaves when it has copied the texts of `nodes` to the blocks `strs`. -/
structure ArgumentsCopied (argv i : ℕ) (nodes : List ℕ) (process : Process) (k : Kernel)
    (live : List Alloc) (tables strs : List ℕ) (process' : Process) (k' : Kernel) : Prop where
  owns : OwnsSpace process' k' ((strs.map fun str => ⟨str, sizeofArgument⟩) ++ live) tables
  recorded : ∀ str ∈ strs, ⟨str, sizeofArgument⟩ ∈ process'.allocations
  kept : ∀ a ∈ process.allocations, a.ptr ≠ 0 → a ∈ process'.allocations
  words : ∀ j str, strs[j]? = some str → readU32 k'.machine.mem (argv + 4 * (i + j)) = str
  texts : List.Forall₂ (HoldsString k'.machine.mem) strs
    (nodes.map (argumentText k.machine.mem))
  same : ∀ x, InUse k.machine.heap.heap live tables x → ¬ InArgv argv i nodes.length x →
    k'.machine.mem x = k.machine.mem x

lemma OwnsSpace.perm {live' : List Alloc} (h : OwnsSpace process k live tables)
    (hperm : live.Perm live') : OwnsSpace process k live' tables :=
  ⟨h.heap.perm hperm, h.space, hperm.mem_iff.mp h.directory,
    fun a ha => hperm.mem_iff.mp (h.tables a ha)⟩

/-- A page table is none of the new blocks. -/
lemma OwnsSpace.not_inTables {a : Alloc} (h : OwnsSpace process k (a :: live) tables)
    (htables : ∀ b ∈ pageAllocs tables, b ∈ live) (hx : a.Covers x) : ¬ InTables tables x := by
  rintro ⟨t, ht, h₀, h₁⟩
  exact h.heap.not_covers_of_head hx (htables _ (List.mem_map.mpr ⟨t, ht, rfl⟩))
    (page_covers.mpr ⟨h₀, h₁⟩)

/-- One step, and the rest of the loop. -/
lemma ArgumentsCopied.cons
    (h : ReadyToCopy argv size current i (node :: nodes) process k live tables)
    (hg : MallocGranted process sizeofArgument k live tables str process₁ k₁)
    (hrest : ArgumentsCopied argv (i + 1) nodes process₁ (argumentCopied argv i node str k₁)
      (⟨str, sizeofArgument⟩ :: live) tables strs process' k') :
    ArgumentsCopied argv i (node :: nodes) process k live tables (str :: strs) process' k' := by
  have hstep := h.step hg
  have hlength : (node :: nodes).length = nodes.length + 1 := List.length_cons
  refine ⟨hrest.owns.perm List.perm_middle, fun s hs => ?_,
    fun a ha hne => hrest.kept a (hg.kept ha hne) hne, fun j s hj => ?_, ?_, fun x hx hargv => ?_⟩
  · rcases List.mem_cons.mp hs with rfl | hs
    · exact hrest.kept _ hg.recorded hg.ptr_ne
    · exact hrest.recorded s hs
  · cases j with
    | zero =>
      obtain rfl : str = s := Option.some.inj hj
      -- the rest of the loop does not write this word
      rw [← hstep.word]
      apply readU32_congr
      intro x h₀ h₁
      have hcovers : (⟨argv, size⟩ : Alloc).Covers x := by
        apply h.covers_of_inArgv
        unfold InArgv
        omega
      refine hrest.same x ⟨(h.space x hcovers).2, Or.inr ⟨_, ?_, hcovers⟩⟩ fun hargv => ?_
      · exact List.mem_cons_of_mem _ h.block
      · unfold InArgv at hargv
        omega
    | succ j =>
      have hword := hrest.words j s hj
      rw [show i + 1 + j = i + (j + 1) by omega] at hword
      exact hword
  · -- nor are the texts of the other nodes
    have htexts : nodes.map (argumentText (argumentCopied argv i node str k₁).machine.mem) =
        nodes.map (argumentText k.machine.mem) := by
      apply List.map_congr_left
      intro c hc
      exact argumentText_congr fun x hx => h.copied_node hg (List.mem_cons_of_mem _ hc) hx
    rw [List.map_cons, ← htexts]
    refine List.Forall₂.cons (hstep.text.congr fun x h₀ h₁ => ?_) hrest.texts
    have hlt := length_argumentText_lt k.machine.mem node
    have hcovers : (⟨str, sizeofArgument⟩ : Alloc).Covers x := Alloc.covers_of_lt h₀ (by omega)
    refine hrest.same x ⟨hg.owns.not_inTables h.owns.tables hcovers,
      Or.inr ⟨_, List.mem_cons_self, hcovers⟩⟩ fun hargv => ?_
    apply hg.owns.heap.not_covers_of_head hcovers h.block
    apply h.covers_of_inArgv
    unfold InArgv at hargv ⊢
    omega
  · unfold InArgv at hargv
    rw [hrest.same x (hx.mono hg.pool fun a ha => List.mem_cons_of_mem _ ha) ?_]
    · apply hstep.same x hx
      unfold InArgv
      omega
    · unfold InArgv
      omega

/-- **The copying loop** copies all texts if it gets a slot and a block for each, and answers
`-ENOMEM` if it does not. -/
theorem processInjectArgumentsLoop_run : ∀ {nodes : List ℕ} {n current i : ℕ} {process : Process}
    {k : Kernel} {live : List Alloc}, nodes.length < n →
    ReadyToCopy argv size current i nodes process k live tables →
    (nodes.length ≤ freeSlots process ∧ nodes.length ≤ freeBlocks k.machine.heap.heap ∧
      ∃ strs process' k', processInjectArgumentsLoop argv n current i process k =
          some (.ok (0, process', k')) ∧
        ArgumentsCopied argv i nodes process k live tables strs process' k') ∨
    ((freeSlots process < nodes.length ∨ freeBlocks k.machine.heap.heap < nodes.length) ∧
      ∃ process' k', processInjectArgumentsLoop argv n current i process k =
        some (.ok (-enomem, process', k'))) := by
  intro nodes
  induction nodes with
  | nil =>
    intro n current i process k live hn h
    obtain ⟨n, rfl⟩ : ∃ m, n = m + 1 := ⟨n - 1, by omega⟩
    left
    refine ⟨Nat.zero_le _, Nat.zero_le _, [], process, k, ?_, h.owns, by simp,
      fun a ha _ => ha, by simp, List.Forall₂.nil, fun _ _ _ => rfl⟩
    have h0 : current = 0 := h.chain
    rw [processInjectArgumentsLoop, if_pos h0]
  | cons node nodes ih =>
    intro n current i process k live hn h
    rw [List.length_cons] at hn ⊢
    obtain ⟨n, rfl⟩ : ∃ m, n = m + 1 := ⟨n - 1, by omega⟩
    rcases h.owns.processMalloc_block (show 1 ≤ sizeofArgument by decide) (by decide) with
      ⟨hslots, hblocks, str, process₁, k₁, hg, hslots₁, hblocks₁⟩ | ⟨hnone, k₁, hnull⟩
    · have hready := (h.step hg).ready
      rw [h.loop_step hg n]
      have hheap : (argumentCopied argv i node str k₁).machine.heap = k₁.machine.heap := rfl
      rcases ih (show nodes.length < n by omega) hready with
        ⟨hs, hb, strs, process', k', hloop, hcopied⟩ | ⟨hfew, hfail⟩
      · rw [hheap] at hb
        exact Or.inl ⟨by omega, by omega, str :: strs, process', k', hloop, hcopied.cons h hg⟩
      · rw [hheap] at hfew
        exact Or.inr ⟨by omega, hfail⟩
    · right
      refine ⟨by omega, process, k₁, ?_⟩
      obtain ⟨rfl, hne, -⟩ := h.chain
      rw [processInjectArgumentsLoop, if_neg hne, hnull]
      dsimp only
      rw [if_pos rfl]

end MarrowOS
