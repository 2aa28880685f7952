import Mathlib.Data.Finset.Card
import MarrowOS.Task.ArgumentCopies

/-!
# Arguments that arrive

`process_inject_arguments`, for a new process and a list of any length: up to 1023 arguments arrive
as they were sent, if the heap has a block for each and one for `argv`; otherwise the answer is
`-ENOMEM` (`processInjectArguments_cases`).
-/

namespace MarrowOS

open ByteMem CInt

variable {k k' k₁ : Kernel} {process process' process₁ : Process} {live live' : List Alloc}
  {tables nodes strs : List ℕ} {mem : Mem} {argv root n : ℕ} {arguments : ProcessArguments}

/-! ## Counting -/

/-- A list of `struct command_argument`: no two of them share memory, and all of it is in use. -/
structure ArgumentList (k : Kernel) (live : List Alloc) (tables : List ℕ) (root : ℕ)
    (nodes : List ℕ) : Prop where
  chain : ArgumentChain k.machine.mem root nodes
  fits : ∀ node ∈ nodes, node + sizeofCommandArgument ≤ 2 ^ 32
  apart : nodes.Pairwise fun a b =>
    a + sizeofCommandArgument ≤ b ∨ b + sizeofCommandArgument ≤ a
  inUse : ∀ node ∈ nodes, ∀ x, InNode node x → InUse k.machine.heap.heap live tables x

/-- There is not room for `2 ^ 23` nodes in 4 GiB. -/
lemma ArgumentList.length_lt (h : ArgumentList k live tables root nodes) :
    nodes.length < 2 ^ 23 := by
  have hnodup : (nodes.map (· / sizeofCommandArgument)).Nodup := by
    refine List.pairwise_map.mpr (h.apart.imp fun {a b} hapart => ?_)
    simp only [sizeofCommandArgument] at hapart ⊢
    omega
  have hsub : (nodes.map (· / sizeofCommandArgument)).toFinset ⊆ Finset.range 8323580 := by
    intro q hq
    obtain ⟨node, hnode, rfl⟩ := List.mem_map.mp (List.mem_toFinset.mp hq)
    have hfits := h.fits node hnode
    simp only [sizeofCommandArgument] at hfits
    apply Finset.mem_range.mpr
    show node / 516 < 8323580
    omega
  have hcard := Finset.card_le_card hsub
  rw [List.toFinset_card_of_nodup hnodup, List.length_map, Finset.card_range] at hcard
  omega

/-- The count is the length of the list. -/
lemma processCountCommandArgumentsLoop_eq : ∀ {nodes : List ℕ} {n current i : ℕ},
    ArgumentChain mem current nodes → nodes.length < n → i + nodes.length < 2 ^ 31 →
    processCountCommandArgumentsLoop mem n current i = some ((i + nodes.length : ℕ) : ℤ) := by
  intro nodes
  induction nodes with
  | nil =>
    intro n current i h hn _
    obtain ⟨n, rfl⟩ : ∃ m, n = m + 1 := ⟨n - 1, by omega⟩
    have h0 : current = 0 := h
    rw [processCountCommandArgumentsLoop, if_pos h0]
    rfl
  | cons node nodes ih =>
    intro n current i h hn hlt
    rw [List.length_cons] at hn hlt
    obtain ⟨n, rfl⟩ : ∃ m, n = m + 1 := ⟨n - 1, by omega⟩
    obtain ⟨rfl, hne, hrest⟩ := h
    rw [processCountCommandArgumentsLoop, if_neg hne, i32_of_lt (by omega) (by omega),
      show (i : ℤ) + 1 = (i + 1 : ℕ) by omega, ih hrest (by omega) (by omega), List.length_cons]
    congr 2
    omega

lemma ArgumentList.count (h : ArgumentList k live tables root nodes) (hn : nodes.length < n) :
    processCountCommandArguments n root k.machine.mem = some (nodes.length : ℤ) := by
  have hlt := h.length_lt
  have hcount := @processCountCommandArgumentsLoop_eq _ _ n root 0 h.chain hn (by omega)
  rw [Nat.zero_add] at hcount
  exact hcount

/-! ## What arrives -/

/-- `argv[i]`. -/
def argvAt (mem : Mem) (arguments : ProcessArguments) (i : ℕ) : ℕ :=
  readU32 mem (arguments.argv + 4 * i)

/-- The process has the allocation, and the heap holds it. -/
def Allocated (process : Process) (live : List Alloc) (ptr size : ℕ) : Prop :=
  ⟨ptr, size⟩ ∈ process.allocations ∧ ⟨ptr, size⟩ ∈ live

/-- The arguments are those of the list: every string is an allocation of its own, apart from the
others and from `argv`, and holds the text of its node. -/
structure ArgumentsArrived (nodes : List ℕ) (mem : Mem) (tables : List ℕ)
    (arguments : ProcessArguments) (process : Process) (k : Kernel) (live : List Alloc) :
    Prop where
  owns : OwnsSpace process k live tables
  argc : arguments.argc = nodes.length
  argv : Allocated process live arguments.argv (4 * nodes.length)
  strings : ∀ i < nodes.length,
    Allocated process live (argvAt k.machine.mem arguments i) sizeofArgument
  distinct : ∀ i < nodes.length, ∀ j < nodes.length, i ≠ j →
    argvAt k.machine.mem arguments i + sizeofArgument ≤ argvAt k.machine.mem arguments j ∨
      argvAt k.machine.mem arguments j + sizeofArgument ≤ argvAt k.machine.mem arguments i
  apart : ∀ i < nodes.length,
    argvAt k.machine.mem arguments i + sizeofArgument ≤ arguments.argv ∨
      arguments.argv + 4 * nodes.length ≤ argvAt k.machine.mem arguments i
  texts : ∀ i node, nodes[i]? = some node →
    HoldsString k.machine.mem (argvAt k.machine.mem arguments i) (argumentText mem node)

/-- The block for `argv` has been allocated. -/
lemma ArgumentList.readyToCopy (h : ArgumentList k live tables root nodes)
    (hown : OwnsSpace process k live tables)
    (hg : MallocGranted process (4 * nodes.length) k live tables argv process₁ k₁) :
    ReadyToCopy argv (4 * nodes.length) root 0 nodes process₁ k₁
      (⟨argv, 4 * nodes.length⟩ :: live) tables := by
  have hlt := h.length_lt
  refine ⟨hg.owns, List.mem_cons_self, by omega, by omega, fun x hx => ⟨fun hdirectory => ?_, ?_⟩,
    h.chain.congr fun c hc x hx => hg.same x (h.inUse c hc x hx), h.fits,
    fun c hc x hx => (h.inUse c hc x hx).mono hg.pool fun a ha => List.mem_cons_of_mem _ ha,
    fun c hc x hx => hg.not_covers (h.inUse c hc x hx)⟩
  · rw [hg.pageDirectory] at hdirectory
    exact hg.owns.heap.not_covers_of_head hx hown.directory (page_covers.mpr hdirectory)
  · exact hg.owns.not_inTables hown.tables hx

/-- What the loop leaves, read through `argv`. -/
lemma ArgumentsCopied.arrived (h : ArgumentList k live tables root nodes)
    (hg : MallocGranted process (4 * nodes.length) k live tables argv process₁ k₁)
    (hc : ArgumentsCopied argv 0 nodes process₁ k₁ (⟨argv, 4 * nodes.length⟩ :: live) tables strs
      process' k') :
    ArgumentsArrived nodes k.machine.mem tables ⟨nodes.length, argv⟩ process' k'
      ((strs.map fun str => ⟨str, sizeofArgument⟩) ++ ⟨argv, 4 * nodes.length⟩ :: live) := by
  have hlength : strs.length = nodes.length := by
    rw [hc.texts.length_eq, List.length_map]
  have hword : ∀ i (hi : i < nodes.length),
      argvAt k'.machine.mem ⟨nodes.length, argv⟩ i = strs[i] := by
    intro i hi
    have hword := hc.words i _ (List.getElem?_eq_getElem (hlength ▸ hi))
    rw [Nat.zero_add] at hword
    exact hword
  have happart := hc.owns.heap.before_or_behind
  have hone : blocksFor sizeofArgument = 1 := by decide
  have hblocks := le_blocksFor_mul (4 * nodes.length)
  have h512 : sizeofArgument = 512 := rfl
  -- the strings lie apart from each other, and from the array of the pointers
  rcases List.pairwise_append.mp happart with ⟨hstrings, -, hargv⟩
  refine ⟨hc.owns, rfl, ⟨hc.kept _ hg.recorded hg.ptr_ne, ?_⟩, fun i hi => ?_,
    fun i hi j hj hij => ?_, fun i hi => ?_, fun i node hnode => ?_⟩
  · exact List.mem_append_right _ List.mem_cons_self
  · have hmem : strs[i] ∈ strs := List.getElem_mem _
    rw [hword i hi]
    exact ⟨hc.recorded _ hmem, List.mem_append_left _ (List.mem_map.mpr ⟨_, hmem, rfl⟩)⟩
  · have hpairs := List.pairwise_iff_getElem.mp (List.pairwise_map.mp hstrings)
    simp only [hone] at hpairs
    rw [hword i hi, hword j hj]
    rcases Nat.lt_or_gt_of_ne hij with hlt | hlt
    · have hpair := hpairs i j (hlength ▸ hi) (hlength ▸ hj) hlt
      omega
    · have hpair := hpairs j i (hlength ▸ hj) (hlength ▸ hi) hlt
      omega
  · have hmem : (⟨strs[i], sizeofArgument⟩ : Alloc) ∈
        strs.map fun str => (⟨str, sizeofArgument⟩ : Alloc) :=
      List.mem_map.mpr ⟨_, List.getElem_mem _, rfl⟩
    have hpair := hargv _ hmem _ List.mem_cons_self
    simp only [hone] at hpair
    rw [hword i hi]
    dsimp only
    omega
  · obtain ⟨hi, rfl⟩ := List.getElem?_eq_some_iff.mp hnode
    have htext := hc.texts.get (i := i) (hlength ▸ hi) (by simpa using hi)
    have hsame : argumentText k₁.machine.mem nodes[i] = argumentText k.machine.mem nodes[i] :=
      argumentText_congr fun x hx => hg.same x (h.inUse _ (List.getElem_mem _) x hx)
    rw [hword i hi, ← hsame]
    simpa using htext

/-! ## The whole call -/

/-- The second half of the call, when `argv` was allocated. -/
lemma processInjectArguments_of_granted (h : ArgumentList k live tables root nodes)
    (hown : OwnsSpace process k live tables) (hne : nodes ≠ []) (hn : nodes.length < n)
    (hg : MallocGranted process (4 * nodes.length) k live tables argv process₁ k₁) :
    (nodes.length ≤ freeSlots process₁ ∧ nodes.length ≤ freeBlocks k₁.machine.heap.heap ∧
      ∃ arguments' process' k' live',
        processInjectArguments n process arguments root k =
          some (.ok (0, arguments', process', k')) ∧
        ArgumentsArrived nodes k.machine.mem tables arguments' process' k' live') ∨
    ((freeSlots process₁ < nodes.length ∨ freeBlocks k₁.machine.heap.heap < nodes.length) ∧
      ∃ process' k', processInjectArguments n process arguments root k =
        some (.ok (-enomem, arguments, process', k'))) := by
  have hpos : 0 < nodes.length := List.length_pos_iff.mpr hne
  have hlt := h.length_lt
  have hargc : u32 (4 * (nodes.length : ℤ)) = 4 * nodes.length := by
    unfold u32
    omega
  have hu32 : u32 (nodes.length : ℤ) = nodes.length := u32_natCast_of_lt (by omega)
  rcases processInjectArgumentsLoop_run hn (h.readyToCopy hown hg) with
    ⟨hslots, hblocks, strs, process', k', hloop, hcopied⟩ | ⟨hfew, process', k', hloop⟩
  · refine Or.inl ⟨hslots, hblocks, ⟨nodes.length, argv⟩, process', k', _, ?_,
      hcopied.arrived h hg⟩
    rw [processInjectArguments, h.count hn]
    dsimp only
    rw [if_neg (by omega), hargc, hg.malloc]
    dsimp only
    rw [if_neg hg.ptr_ne, hloop]
    dsimp only
    rw [if_neg (lt_irrefl 0), hu32]
  · refine Or.inr ⟨hfew, process', k', ?_⟩
    rw [processInjectArguments, h.count hn]
    dsimp only
    rw [if_neg (by omega), hargc, hg.malloc]
    dsimp only
    rw [if_neg hg.ptr_ne, hloop]
    dsimp only
    rw [if_pos (by decide)]

/-- `argv` was not allocated. -/
lemma processInjectArguments_of_null (h : ArgumentList k live tables root nodes) (hne : nodes ≠ [])
    (hn : nodes.length < n)
    (hnull : ∃ k₁, processMalloc process (4 * nodes.length) k = .ok (0, process, k₁)) :
    ∃ process' k', processInjectArguments n process arguments root k =
      some (.ok (-enomem, arguments, process', k')) := by
  have hpos : 0 < nodes.length := List.length_pos_iff.mpr hne
  have hlt := h.length_lt
  have hargc : u32 (4 * (nodes.length : ℤ)) = 4 * nodes.length := by
    unfold u32
    omega
  rcases hnull with ⟨k₁, hnull⟩
  refine ⟨process, k₁, ?_⟩
  rw [processInjectArguments, h.count hn]
  dsimp only
  rw [if_neg (by omega), hargc, hnull]
  dsimp only
  rw [if_pos rfl]

lemma freeSlots_of_empty
    (hempty : process.allocations = List.replicate marrowosMaxProgramAllocation ⟨0, 0⟩) :
    freeSlots process = 1024 := by
  rw [freeSlots, hempty, List.countP_replicate]
  rfl

/-- What becomes of the arguments of a new process, in any heap: they arrive if there are at most
1023 of them and the heap has a block for each and one for `argv`. -/
theorem processInjectArguments_cases (h : OwnsSpace process k live tables)
    (hempty : process.allocations = List.replicate marrowosMaxProgramAllocation ⟨0, 0⟩)
    (hlist : ArgumentList k live tables root nodes) (hne : nodes ≠ []) (hn : nodes.length < n) :
    (nodes.length ≤ 1023 ∧ nodes.length + 1 ≤ freeBlocks k.machine.heap.heap ∧
      ∃ arguments' process' k' live',
        processInjectArguments n process arguments root k =
          some (.ok (0, arguments', process', k')) ∧
        ArgumentsArrived nodes k.machine.mem tables arguments' process' k' live') ∨
    ((1024 ≤ nodes.length ∨ freeBlocks k.machine.heap.heap < nodes.length + 1) ∧
      ∃ process' k', processInjectArguments n process arguments root k =
        some (.ok (-enomem, arguments, process', k'))) := by
  have hpos : 0 < nodes.length := List.length_pos_iff.mpr hne
  have hlt := hlist.length_lt
  have hslots := freeSlots_of_empty hempty
  by_cases hmany : 1024 ≤ nodes.length
  · -- one slot goes to `argv`, and the others are too few
    refine Or.inr ⟨Or.inl hmany, ?_⟩
    obtain ⟨ptr, m, hkz⟩ := @HeapOwns.kzalloc_ok _ (4 * nodes.length) k.machine h.heap (by omega)
    by_cases hptr : ptr = 0
    · exact processInjectArguments_of_null hlist hne hn (processMalloc_null hkz (Or.inl hptr))
    · obtain ⟨process₁, k₁, hg, -⟩ := h.processMalloc_granted (by omega) (by omega) hkz hptr
        (hasFreeSlot_iff.mpr (by omega))
      obtain ⟨i, a, hi, h0, heq⟩ := hg.slot
      have hrecord := @freeSlots_record process (4 * nodes.length) ptr i a hi h0 hptr
      rw [← heq] at hrecord
      rcases processInjectArguments_of_granted hlist h hne hn hg with ⟨hle, -⟩ | ⟨-, hfail⟩
      · omega
      · exact hfail
  · rcases h.processMalloc_block (show 1 ≤ 4 * nodes.length by omega) (by omega) with
      ⟨-, -, argv, process₁, k₁, hg, hslots₁, hblocks₁⟩ | ⟨hnone, hnull⟩
    · rcases processInjectArguments_of_granted hlist h hne hn hg with
        ⟨-, hblocks, harrived⟩ | ⟨hfew, hfail⟩
      · exact Or.inl ⟨by omega, by omega, harrived⟩
      · exact Or.inr ⟨by omega, hfail⟩
    · exact Or.inr ⟨by omega, processInjectArguments_of_null hlist hne hn hnull⟩

/-- **Arguments arrive as sent.** A list of at most 1023 nodes arrives; a longer one is refused, and
`process->arguments` is left as it was. -/
theorem processInjectArguments_arrive (process : Process) (arguments : ProcessArguments) (root : ℕ)
    (k : Kernel) (h : OwnsSpace process k live tables)
    (hempty : process.allocations = List.replicate marrowosMaxProgramAllocation ⟨0, 0⟩)
    (hlist : ArgumentList k live tables root nodes) (hne : nodes ≠ []) (hn : nodes.length < n) :
    (nodes.length ≤ 1023 → nodes.length + 1 ≤ freeBlocks k.machine.heap.heap →
      ∃ arguments' process' k' live',
        processInjectArguments n process arguments root k =
          some (.ok (0, arguments', process', k')) ∧
        ArgumentsArrived nodes k.machine.mem tables arguments' process' k' live') ∧
    (1024 ≤ nodes.length →
      ∃ process' k', processInjectArguments n process arguments root k =
        some (.ok (-enomem, arguments, process', k'))) := by
  rcases @processInjectArguments_cases _ _ _ _ _ _ _ arguments h hempty hlist hne hn with
    ⟨hle, -, harrived⟩ | ⟨hwhy, hfail⟩
  · exact ⟨fun _ _ => harrived, fun hge => by omega⟩
  · exact ⟨fun hle hroom => by omega, fun _ => hfail⟩

/-! ### A list of any length -/

/-- Nodes one after the other. -/
def chainNodes (root count : ℕ) : List ℕ :=
  (List.range count).map fun i => root + sizeofCommandArgument * i

/-- Each of them holds the text `A` and names the next. -/
def chainMem (root count : ℕ) : Mem := fun x =>
  let i := (x - root) / sizeofCommandArgument
  let j := (x - root) % sizeofCommandArgument
  if j = 0 then 65
  else if j < sizeofArgument then 0
  else byteOf (if i + 1 < count then root + sizeofCommandArgument * (i + 1) else 0)
    (j - sizeofArgument)

lemma commandArgumentNext_chainMem {count i : ℕ}
    (hfits : root + sizeofCommandArgument * count ≤ 2 ^ 32) :
    commandArgumentNext (chainMem root count) (root + sizeofCommandArgument * i) =
      if i + 1 < count then root + sizeofCommandArgument * (i + 1) else 0 := by
  simp only [sizeofCommandArgument] at hfits ⊢
  generalize hv : (if i + 1 < count then root + 516 * (i + 1) else 0) = v
  have hlt : v < 2 ^ 32 := by
    rw [← hv]
    split_ifs
    · omega
    · norm_num
  rw [← @readU32_writeU32_self (fun _ => 0) (root + 516 * i + 512) v hlt]
  apply readU32_congr
  intro x (h₀ : root + 516 * i + 512 ≤ x) (h₁ : x < root + 516 * i + 512 + 4)
  have hdiv : (x - root) / 516 = i := by omega
  have hmod : (x - root) % 516 = x - root - 516 * i := by omega
  rw [writeU32, if_pos ⟨h₀, h₁⟩]
  simp only [chainMem, sizeofCommandArgument, sizeofArgument, hdiv, hmod, hv]
  rw [if_neg (by omega), if_neg (by omega), Nat.sub_sub, Nat.sub_sub,
    ← Nat.add_assoc]

/-- They are a list. -/
lemma argumentChain_chainMem {count : ℕ} (hroot : root ≠ 0)
    (hfits : root + sizeofCommandArgument * count ≤ 2 ^ 32) : ∀ c i, i + c = count →
    ArgumentChain (chainMem root count)
      (if i < count then root + sizeofCommandArgument * i else 0)
      ((List.range' i c).map fun i => root + sizeofCommandArgument * i) := by
  intro c
  induction c with
  | zero =>
    intro i hi
    exact if_neg (by omega)
  | succ c ih =>
    intro i hi
    rw [List.range'_succ, List.map_cons]
    refine ⟨if_pos (by omega), by omega, ?_⟩
    rw [commandArgumentNext_chainMem hfits]
    exact ih (i + 1) (by omega)

/-- The list in memory that agrees with it. -/
lemma argumentChain_chainNodes {count : ℕ} (hroot : root ≠ 0) (hcount : 1 ≤ count)
    (hfits : root + sizeofCommandArgument * count ≤ 2 ^ 32)
    (hmem : ∀ x, root ≤ x → x < root + sizeofCommandArgument * count →
      mem x = chainMem root count x) : ArgumentChain mem root (chainNodes root count) := by
  have hchain := argumentChain_chainMem hroot hfits count 0 (Nat.zero_add count)
  rw [if_pos (by omega), Nat.mul_zero, Nat.add_zero, ← List.range_eq_range'] at hchain
  refine hchain.congr fun node hnode x hx => ?_
  obtain ⟨i, hi, rfl⟩ := List.mem_map.mp hnode
  have hlt := List.mem_range.mp hi
  unfold InNode at hx
  simp only [sizeofCommandArgument] at hx hmem
  exact hmem x (by omega) (by omega)

lemma chainNodes_apart (root count : ℕ) : (chainNodes root count).Pairwise fun a b =>
    a + sizeofCommandArgument ≤ b ∨ b + sizeofCommandArgument ≤ a := by
  refine List.pairwise_map.mpr (List.pairwise_lt_range.imp fun {i j} hlt => Or.inl ?_)
  simp only [sizeofCommandArgument]
  omega

lemma chainNodes_bounds {count node x : ℕ} (hnode : node ∈ chainNodes root count)
    (hx : InNode node x) : root ≤ x ∧ x < root + sizeofCommandArgument * count := by
  obtain ⟨i, hi, rfl⟩ := List.mem_map.mp hnode
  have hlt := List.mem_range.mp hi
  unfold InNode at hx
  simp only [sizeofCommandArgument] at hx ⊢
  omega

/-- A heap with a block for the nodes. -/
lemma exists_chainBlock {count c : ℕ} (hcount : 1 ≤ count)
    (hroom : c + blocksFor (sizeofCommandArgument * count) = 25600) :
    ∃ (heap : KernelHeap) (root : ℕ),
      HeapOwns heap.heap [⟨root, sizeofCommandArgument * count⟩] ∧ FreeTail c heap.heap := by
  have htail : FreeTail (c + blocksFor (sizeofCommandArgument * count)) bootMachine.heap.heap := by
    rw [hroom]
    exact bootMachine_freeTail
  have hpos : 1 ≤ sizeofCommandArgument * count := by
    simp only [sizeofCommandArgument]
    omega
  have hmax : sizeofCommandArgument * count ≤ 2 ^ 32 - 4096 := by
    have hle := le_blocksFor_mul (sizeofCommandArgument * count)
    omega
  obtain ⟨root, m, hkz, hne, -, htail'⟩ := htail.kzalloc hpos hmax
  rcases kzalloc_owns bootMachine_owns (by omega) hkz with
    ⟨h0, -⟩ | ⟨hzero, -⟩ | ⟨-, -, hown, -, -⟩
  · exact absurd h0 hne
  · omega
  · exact ⟨m.heap, root, hown, htail'⟩

/-- Three arguments for the first process. -/
theorem processInjectArguments_three : ∃ m chunk tables root arguments' process' k' live',
    processInjectArguments 4 (processInit 12288) ⟨0, 0⟩ root (oneSpaceKernel m chunk) =
      some (.ok (0, arguments', process', k')) ∧
    ArgumentsArrived (chainNodes root 3) m.mem tables arguments' process' k' live' := by
  have hone : blocksFor (sizeofCommandArgument * 3) = 1 := by decide
  obtain ⟨heap, root, howns, htail⟩ :=
    @exists_chainBlock 3 25599 (by decide) (by rw [hone])
  have hpos := howns.ptr_pos List.mem_cons_self
  have hlt := howns.ptr_lt List.mem_cons_self
  obtain ⟨chunk, m, hnew, htail'⟩ :=
    @pagingNew4gb_progress 7 24573 _ serves_freeTail ⟨heap, chainMem root 3⟩ htail
  obtain ⟨tables, hspace⟩ :=
    pagingNew4gb_owns (m := ⟨heap, chainMem root 3⟩) howns (by decide) hnew
  have hown : OwnsSpace (processInit 12288) (oneSpaceKernel m chunk)
      (spaceAllocs chunk tables ++ [⟨root, sizeofCommandArgument * 3⟩]) tables := by
    refine ⟨hspace.owns, hspace.space, ?_, fun a ha => ?_⟩
    · exact List.mem_append_left _ (directory_mem chunk tables)
    · exact List.mem_append_left _ (List.mem_cons_of_mem _ (List.mem_append_left _ ha))
  have hcovers : ∀ x, root ≤ x → x < root + sizeofCommandArgument * 3 →
      (⟨root, sizeofCommandArgument * 3⟩ : Alloc).Covers x :=
    fun x h₀ h₁ => Alloc.covers_of_lt h₀ h₁
  have hfits : root + sizeofCommandArgument * 3 ≤ 2 ^ 32 := by
    simp only [sizeofCommandArgument]
    dsimp only at hlt
    omega
  have hlist : ArgumentList (oneSpaceKernel m chunk)
      (spaceAllocs chunk tables ++ [⟨root, sizeofCommandArgument * 3⟩]) tables root
      (chainNodes root 3) := by
    refine ⟨argumentChain_chainNodes hpos.ne' (by decide) hfits fun x h₀ h₁ => ?_,
      fun node hnode => ?_, chainNodes_apart root 3, fun node hnode x hx => ?_⟩
    · exact hspace.same _ (List.mem_singleton_self _) x (hcovers x h₀ h₁)
    · have hlast := (chainNodes_bounds hnode (x := node + 515)
        ⟨Nat.le_add_right _ _, Nat.add_lt_add_left (by decide) node⟩).2
      simp only [sizeofCommandArgument] at hlast hfits ⊢
      omega
    · rcases chainNodes_bounds hnode hx with ⟨h₀, h₁⟩
      refine ⟨?_, Or.inr ⟨_, List.mem_append_right _ (List.mem_singleton_self _),
        hcovers x h₀ h₁⟩⟩
      have hperm : HeapOwns m.heap.heap (pageAllocs tables ++ (⟨chunk.addr, 4⟩ ::
          ([⟨chunk.directoryEntry, 4096⟩] ++ [⟨root, sizeofCommandArgument * 3⟩]))) := by
        refine hspace.owns.perm ?_
        unfold spaceAllocs
        rw [List.cons_append, List.append_assoc]
        exact List.perm_middle.symm
      exact hperm.not_inTables (List.mem_cons_of_mem _ (List.mem_append_right _
        (List.mem_singleton_self _))) (hcovers x h₀ h₁)
  have hfree : 3 + 1 ≤ freeBlocks m.heap.heap := by
    rw [htail'.freeBlocks_eq]
    decide
  obtain ⟨arguments', process', k', live', harrive⟩ :=
    (processInjectArguments_arrive (processInit 12288) ⟨0, 0⟩ root _ hown rfl hlist
      (List.cons_ne_nil _ _) (show (chainNodes root 3).length < 4 from Nat.lt_succ_self 3)).1
      (show 3 ≤ 1023 by norm_num) hfree
  exact ⟨m, chunk, tables, root, arguments', process', k', live', harrive⟩

end MarrowOS
