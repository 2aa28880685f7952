import MarrowOS.Memory.HeapOwnership
import MarrowOS.Memory.PageTables

/-!
# Creating and freeing an address space

`paging_new_4gb` takes 1026 blocks from the heap and maps every page to itself
(`pagingNew4gb_owns`). `paging_free_4gb` finds the tables through the directory and gives all of
them back, whatever was mapped meanwhile (`pagingFree4gb_owns`).
-/

namespace MarrowOS

open ByteMem CInt Extents Fallible

/-- The allocations of page tables. -/
def pageAllocs (tables : List ℕ) : List Alloc := tables.map fun t => ⟨t, 4096⟩

/-- The allocations of an address space. -/
def spaceAllocs (chunk : Paging4gbChunk) (tables : List ℕ) : List Alloc :=
  ⟨chunk.addr, 4⟩ :: (pageAllocs tables ++ [⟨chunk.directoryEntry, 4096⟩])

/-- What `paging_new_4gb` has written when it has made the tables `tables`. -/
structure IdentityTables (flags : ℕ) (mem : Mem) (directory : ℕ) (tables : List ℕ) : Prop where
  entry : ∀ (i : ℕ) t, tables[i]? = some t →
    readU32 mem (directory + 4 * i) = t ||| flags ||| pagingIsWritable
  page : ∀ (i : ℕ) t, tables[i]? = some t → ∀ b < 1024,
    readU32 mem (t + 4 * b) = 4096 * (1024 * i + b) ||| flags

variable {heap : Heap} {live : List Alloc} {a b : Alloc} {m m' : Machine KernelHeap}
  {chunk : Paging4gbChunk} {tables : List ℕ} {directory flags t x : ℕ} {mem mem' : Mem}

lemma page_covers : (⟨t, 4096⟩ : Alloc).Covers x ↔ t ≤ x ∧ x < t + 4096 := by
  have hone : blocksFor 4096 = 1 := by decide
  unfold Alloc.Covers
  rw [hone, Nat.mul_one]

lemma pageAllocs_append (tables : List ℕ) (e : ℕ) :
    pageAllocs (tables ++ [e]) = pageAllocs tables ++ [⟨e, 4096⟩] := by
  rw [pageAllocs, List.map_append]
  rfl

/-- The blocks of two allocations lie one behind the other. -/
lemma HeapOwns.before_or_behind (h : HeapOwns heap live) :
    live.Pairwise fun a b => a.ptr + 4096 * blocksFor a.size ≤ b.ptr ∨
      b.ptr + 4096 * blocksFor b.size ≤ a.ptr := by
  refine List.Pairwise.imp_of_mem (fun {a b} ha hb hapart => ?_) h.apart
  have hptra := h.ptr_eq a ha
  have hptrb := h.ptr_eq b hb
  have hlena : (heap.extent a).len = blocksFor a.size := rfl
  have hlenb : (heap.extent b).len = blocksFor b.size := rfl
  have hposa := h.len_pos ha
  have hposb := h.len_pos hb
  -- otherwise the later of the two starts is in both
  by_contra hover
  push Not at hover
  by_cases hle : (heap.extent a).start ≤ (heap.extent b).start
  · exact hapart (heap.extent b).start ⟨hle, by omega⟩ (Extent.has_start hposb)
  · exact hapart (heap.extent a).start (Extent.has_start hposa) ⟨by omega, by omega⟩

/-! ## One table -/

/-- The words of a table map the pages from `1024 * i` on to themselves. -/
lemma pagingFillTable_read (hflags : flags < 4096) {i j : ℕ} (hi : i < 1024) (hj : j < 1024) :
    readU32 (pagingFillTable t (i32 (4194304 * i : ℕ)) flags mem) (t + 4 * j) =
      4096 * (1024 * i + j) ||| flags := by
  have hword : ∀ b : ℕ, u32 (i32 (4194304 * i : ℕ) + b * pagingPageSize) ||| flags < 2 ^ 32 :=
    fun b => Nat.or_lt_two_pow (u32_lt _) (by omega)
  have hread := (@foldl_writeU32 mem t _ hword pagingTotalEntriesPerTable).1 j hj
  have hidentity : u32 (i32 (4194304 * i : ℕ) + j * pagingPageSize) = 4096 * (1024 * i + j) := by
    have hsum : ((4194304 * i : ℕ) : ℤ) + j * pagingPageSize = (4096 * (1024 * i + j) : ℕ) := by
      push_cast
      ring
    rw [u32_i32_add, hsum]
    exact u32_natCast_of_lt (by omega)
  rw [hidentity] at hread
  exact hread

lemma pagingFillTable_outside (hflags : flags < 4096) {offset : ℤ} (hx : x < t ∨ t + 4096 ≤ x) :
    pagingFillTable t offset flags mem x = mem x := by
  have hword : ∀ b : ℕ, u32 (offset + b * pagingPageSize) ||| flags < 2 ^ 32 :=
    fun b => Nat.or_lt_two_pow (u32_lt _) (by omega)
  exact (@foldl_writeU32 mem t _ hword pagingTotalEntriesPerTable).2 x hx

/-! ## All tables -/

/-- What was written is still there when the memory of the directory and the tables is the
same. -/
lemma IdentityTables.congr (h : IdentityTables flags mem directory tables)
    (hdirectory : ∀ (i : ℕ), i < tables.length → ∀ x, directory + 4 * i ≤ x →
      x < directory + 4 * i + 4 → mem' x = mem x)
    (htables : SameOn (pageAllocs tables) mem mem') :
    IdentityTables flags mem' directory tables := by
  constructor
  · intro i t hi
    have hlt := (List.getElem?_eq_some_iff.mp hi).1
    rw [readU32_congr (hdirectory i hlt)]
    exact h.entry i t hi
  · intro i t hi b hb
    have hmem : (⟨t, 4096⟩ : Alloc) ∈ pageAllocs tables :=
      List.mem_map.mpr ⟨t, List.mem_of_getElem? hi, rfl⟩
    rw [readU32_congr fun x h₀ h₁ => htables _ hmem x (page_covers.mpr (by omega))]
    exact h.page i t hi b hb

/-- One table more. -/
lemma IdentityTables.concat (h : IdentityTables flags mem directory tables) {e : ℕ}
    (hentry : readU32 mem (directory + 4 * tables.length) = e ||| flags ||| pagingIsWritable)
    (hpage : ∀ b < 1024, readU32 mem (e + 4 * b) = 4096 * (1024 * tables.length + b) ||| flags) :
    IdentityTables flags mem directory (tables ++ [e]) := by
  have hcases : ∀ {i t : ℕ}, (tables ++ [e])[i]? = some t →
      tables[i]? = some t ∨ i = tables.length ∧ t = e := by
    intro i t hi
    by_cases hlast : i < tables.length
    · rw [List.getElem?_append_left hlast] at hi
      exact Or.inl hi
    · have hlt := (List.getElem?_eq_some_iff.mp hi).1
      rw [List.length_append, List.length_singleton] at hlt
      have hieq : i = tables.length := by omega
      rw [hieq, List.getElem?_concat_length] at hi
      exact Or.inr ⟨hieq, (Option.some.inj hi).symm⟩
  constructor
  · intro i t hi
    rcases hcases hi with hold | ⟨hieq, ht⟩
    · exact h.entry i t hold
    · rw [hieq, ht]
      exact hentry
  · intro i t hi b hb
    rcases hcases hi with hold | ⟨hieq, ht⟩
    · exact h.page i t hold b hb
    · rw [hieq, ht]
      exact hpage b hb

/-- What one pass of the loop leaves of the memory: the table in its own block, and its address in
the directory. -/
def pagingNewTable (flags directory i e : ℕ) (mem : Mem) : Mem :=
  writeU32 (pagingFillTable e (i32 (4194304 * i : ℕ)) flags mem) (directory + 4 * i)
    (e ||| flags ||| pagingIsWritable)

/-- A pass of the loop with the block for its table. -/
lemma pagingNewTable_owns (hflags : flags < 4096) {m m₁ : Machine KernelHeap} {e : ℕ}
    (hlt : tables.length < 1024) (htables : IdentityTables flags m.mem directory tables)
    (hown : HeapOwns m₁.heap.heap
      (⟨e, 4096⟩ :: (pageAllocs tables ++ ⟨directory, 4096⟩ :: live)))
    (hfill : m₁.mem = fill m.mem e 4096 0) :
    HeapOwns m₁.heap.heap (pageAllocs (tables ++ [e]) ++ ⟨directory, 4096⟩ :: live) ∧
      IdentityTables flags (pagingNewTable flags directory tables.length e m₁.mem) directory
        (tables ++ [e]) ∧
      SameOn live m.mem (pagingNewTable flags directory tables.length e m₁.mem) := by
  -- the new table is written in its own block
  have hfilled : SameOn (pageAllocs tables ++ ⟨directory, 4096⟩ :: live) m.mem
      (pagingFillTable e (i32 (4194304 * tables.length : ℕ)) flags m₁.mem) := by
    apply hown.sameOn_of_head
    intro x hx
    have hout : x < e ∨ e + 4096 ≤ x := by
      by_contra hin
      exact hx (page_covers.mpr (by omega))
    rw [pagingFillTable_outside hflags hout, hfill]
    exact fill_of_outside (by simpa using hout)
  -- and its address in the directory
  have hperm : (⟨e, 4096⟩ :: (pageAllocs tables ++ ⟨directory, 4096⟩ :: live)).Perm
      (⟨directory, 4096⟩ :: (pageAllocs (tables ++ [e]) ++ live)) := by
    rw [pageAllocs_append, List.append_assoc]
    refine (List.Perm.cons _ List.perm_middle).trans ((List.Perm.swap _ _ _).trans ?_)
    exact List.Perm.cons _ List.perm_middle.symm
  have hown' := hown.perm hperm
  have hwritten : SameOn (pageAllocs (tables ++ [e]) ++ live)
      (pagingFillTable e (i32 (4194304 * tables.length : ℕ)) flags m₁.mem)
      (pagingNewTable flags directory tables.length e m₁.mem) := by
    apply hown'.sameOn_of_head
    intro x hx
    apply writeU32_of_outside
    by_contra hin
    exact hx (page_covers.mpr (by omega))
  have hsub : ∀ c ∈ pageAllocs tables, c ∈ pageAllocs (tables ++ [e]) ++ live := by
    intro c hc
    rw [pageAllocs_append]
    exact List.mem_append_left _ (List.mem_append_left _ hc)
  have helt : e < 2 ^ 32 := by
    have hend : e + 4096 ≤ 2 ^ 31 := hown.ptr_lt List.mem_cons_self
    omega
  have hmem : (⟨e, 4096⟩ : Alloc) ∈ pageAllocs (tables ++ [e]) ++ live := by
    rw [pageAllocs_append]
    exact List.mem_append_left _ (List.mem_append_right _ List.mem_cons_self)
  refine ⟨hown'.perm List.perm_middle.symm, ?_, ?_⟩
  · -- the tables that were there, the new entry, and the new table
    apply IdentityTables.concat
    · refine htables.congr (fun i hi x h₀ h₁ => ?_) ?_
      · rw [pagingNewTable, writeU32_of_outside (by omega)]
        exact hfilled _ (List.mem_append_right _ List.mem_cons_self) x
          (page_covers.mpr (by omega))
      · exact (hfilled.mono fun c hc => List.mem_append_left _ hc).trans (hwritten.mono hsub)
    · apply readU32_writeU32_self
      exact Nat.or_lt_two_pow (Nat.or_lt_two_pow helt (by omega)) (by decide)
    · intro b hb
      rw [readU32_congr fun x h₀ h₁ => hwritten _ hmem x (page_covers.mpr (by omega))]
      exact pagingFillTable_read hflags hlt hb
  · have hlive : SameOn live m.mem
        (pagingFillTable e (i32 (4194304 * tables.length : ℕ)) flags m₁.mem) :=
      hfilled.mono fun c hc => List.mem_append_right _ (List.mem_cons_of_mem _ hc)
    exact hlive.trans (hwritten.mono fun c hc => List.mem_append_right _ hc)

/-- The loop makes the missing tables. -/
lemma pagingNew4gbLoop_owns (hflags : flags < 4096) :
    ∀ (n : ℕ) (tables : List ℕ) (m m' : Machine KernelHeap), tables.length + n = 1024 →
      HeapOwns m.heap.heap (pageAllocs tables ++ ⟨directory, 4096⟩ :: live) →
      IdentityTables flags m.mem directory tables →
      pagingNew4gbLoop kernelAllocator directory flags n tables.length
        (i32 (4194304 * tables.length : ℕ)) m = .ok m' →
      ∃ tables', tables'.length = 1024 ∧
        HeapOwns m'.heap.heap (pageAllocs tables' ++ ⟨directory, 4096⟩ :: live) ∧
        IdentityTables flags m'.mem directory tables' ∧ SameOn live m.mem m'.mem ∧
        SamePool m.heap.heap m'.heap.heap := by
  intro n
  -- on the tables that are missing
  induction n with
  | zero =>
    intro tables m m' hlength h htables hloop
    rw [← Except.ok.inj hloop]
    exact ⟨tables, by omega, h, htables, SameOn.refl live m.mem, SamePool.refl _⟩
  | succ n ih =>
    intro tables m m' hlength h htables hloop
    rw [pagingNew4gbLoop] at hloop
    rcases bind_eq_ok.mp hloop with ⟨⟨e, m₁⟩, hkz, hloop⟩
    simp only at hloop
    by_cases hnull : e = 0 ∨ directory = 0
    · rw [if_pos hnull] at hloop
      exact absurd hloop (by simp)
    rw [if_neg hnull] at hloop
    have hcases := kzalloc_owns h (by norm_num) hkz
    rcases hcases with ⟨h0, -⟩ | ⟨h0, -⟩ | ⟨-, -, hown, hsame, hfill⟩
    · exact absurd (Or.inl h0) hnull
    · exact absurd h0 (by norm_num)
    rcases pagingNewTable_owns hflags (by omega) htables hown hfill with ⟨hown', hnew, hlive⟩
    have hlength' : (tables ++ [e]).length = tables.length + 1 := by
      rw [List.length_append, List.length_singleton]
    -- the offset wraps around with the index
    have hoffset : i32 (i32 (4194304 * tables.length : ℕ) +
        pagingTotalEntriesPerTable * pagingPageSize) =
          i32 (4194304 * (tables ++ [e]).length : ℕ) := by
      rw [i32_i32_add, hlength']
      congr 1
    have hrest : pagingNew4gbLoop kernelAllocator directory flags n (tables ++ [e]).length
        (i32 (4194304 * (tables ++ [e]).length : ℕ))
        ⟨m₁.heap, pagingNewTable flags directory tables.length e m₁.mem⟩ = .ok m' := by
      rw [← hoffset, hlength']
      exact hloop
    rcases ih (tables ++ [e]) ⟨m₁.heap, pagingNewTable flags directory tables.length e m₁.mem⟩ m'
      (by omega) hown' hnew hrest with ⟨tables', hcount, hown'', htables', hsameOn, hpool⟩
    exact ⟨tables', hcount, hown'', htables', hlive.trans hsameOn, hsame.trans hpool⟩

/-! ## The address space -/

/-- What `paging_new_4gb` leaves: the blocks of an address space in which every page is mapped to
itself, beside those that were there. -/
structure NewSpace (flags : ℕ) (live : List Alloc) (m m' : Machine KernelHeap)
    (chunk : Paging4gbChunk) (tables : List ℕ) : Prop where
  owns : HeapOwns m'.heap.heap (spaceAllocs chunk tables ++ live)
  pool : SamePool m.heap.heap m'.heap.heap
  same : SameOn live m.mem m'.mem
  space : AddressSpace m'.mem chunk.directoryEntry tables
  identity : ∀ p < 2 ^ 20, pageAt m'.mem chunk.directoryEntry p = 4096 * p ||| flags

/-- The tables of an address space lie apart from each other and from the directory. -/
lemma HeapOwns.addressSpace (h : HeapOwns heap (pageAllocs tables ++ ⟨directory, 4096⟩ :: live))
    (hlength : tables.length = 1024) (hflags : flags < 4096)
    (htables : IdentityTables flags mem directory tables) : AddressSpace mem directory tables := by
  have hone : blocksFor 4096 = 1 := by decide
  rcases List.pairwise_append.mp h.before_or_behind with ⟨hpages, -, hcross⟩
  refine ⟨hlength, fun i t hi => ?_, ?_, fun t ht => ?_⟩
  · have hmem : (⟨t, 4096⟩ : Alloc) ∈ pageAllocs tables ++ ⟨directory, 4096⟩ :: live :=
      List.mem_append_left _ (List.mem_map.mpr ⟨t, List.mem_of_getElem? hi, rfl⟩)
    have haligned : t % 4096 = 0 := h.ptr_aligned hmem
    have hlt : t + 4096 ≤ 2 ^ 31 := h.ptr_lt hmem
    rw [htables.entry i t hi, Nat.or_assoc]
    have hbits : flags ||| pagingIsWritable < 2 ^ 12 := Nat.or_lt_two_pow hflags (by decide)
    exact entryAddress_or haligned (by omega) hbits
  · rw [pageAllocs, List.pairwise_map] at hpages
    simpa [hone] using hpages
  · have hmem : (⟨t, 4096⟩ : Alloc) ∈ pageAllocs tables := List.mem_map.mpr ⟨t, ht, rfl⟩
    have happart := hcross _ hmem _ List.mem_cons_self
    simp only [hone, Nat.mul_one] at happart
    omega

/-- The blocks of other allocations contain no tables. -/
lemma HeapOwns.not_inTables (h : HeapOwns heap (pageAllocs tables ++ live)) (ha : a ∈ live)
    (hx : a.Covers x) : ¬ InTables tables x := by
  have hone : blocksFor 4096 = 1 := by decide
  rintro ⟨t, ht, h₀, h₁⟩
  have hmem : (⟨t, 4096⟩ : Alloc) ∈ pageAllocs tables := List.mem_map.mpr ⟨t, ht, rfl⟩
  have happart := (List.pairwise_append.mp h.before_or_behind).2.2 _ hmem _ ha
  unfold Alloc.Covers at hx
  simp only [hone, Nat.mul_one] at happart
  omega

/-- An address space stays one while its directory is not written. -/
lemma AddressSpace.sameOn (h : AddressSpace mem directory tables) (hsame : SameOn live mem mem')
    (hmem : ⟨directory, 4096⟩ ∈ live) : AddressSpace mem' directory tables :=
  h.congr fun x h₀ h₁ => hsame _ hmem x (page_covers.mpr ⟨h₀, h₁⟩)

lemma directory_mem (chunk : Paging4gbChunk) (tables : List ℕ) :
    (⟨chunk.directoryEntry, 4096⟩ : Alloc) ∈ spaceAllocs chunk tables :=
  List.mem_cons_of_mem _ (List.mem_append_right _ List.mem_cons_self)

/-- **`paging_new_4gb`**, in any heap whatsoever: when it does not fault every page of the new
address space is mapped to itself, and nothing else was written. -/
theorem pagingNew4gb_owns (h : HeapOwns m.heap.heap live) (hflags : flags < 4096)
    (hnew : pagingNew4gb kernelAllocator flags m = .ok (chunk, m')) :
    ∃ tables, NewSpace flags live m m' chunk tables := by
  unfold pagingNew4gb at hnew
  rcases bind_eq_ok.mp hnew with ⟨⟨directory, m₁⟩, hdirectory, hnew⟩
  rcases bind_eq_ok.mp hnew with ⟨m₂, hloop, hnew⟩
  rcases bind_eq_ok.mp hnew with ⟨⟨addr, m₃⟩, haddr, hnew⟩
  rcases kzalloc_owns h (by norm_num) hdirectory with
    ⟨h0, -⟩ | ⟨h0, -⟩ | ⟨hne, -, hown₁, hpool₁, hfill₁⟩
  · simp only [h0] at hloop
    exact absurd hloop pagingNew4gbLoop_null
  · exact absurd h0 (by norm_num)
  have hempty : IdentityTables flags m₁.mem directory [] := ⟨by simp, by simp⟩
  rcases pagingNew4gbLoop_owns hflags 1024 [] m₁ m₂ rfl hown₁ hempty hloop with
    ⟨tables, hlength, hown₂, htables₂, hsame₂, hpool₂⟩
  rcases kzalloc_owns hown₂ (by norm_num) haddr with
    ⟨h0, -⟩ | ⟨h0, -⟩ | ⟨hne', -, hown₃, hpool₃, hfill₃⟩
  · simp [h0] at hnew
  · exact absurd h0 (by norm_num)
  simp only [if_neg hne'] at hnew
  rcases Prod.mk.inj (Except.ok.inj hnew) with ⟨hchunk, hm⟩
  subst hchunk hm
  -- clearing the structure leaves directory and tables alone
  have hsame₃ : SameOn (pageAllocs tables ++ ⟨directory, 4096⟩ :: live) m₂.mem m₃.mem := by
    apply hown₃.sameOn_of_head
    intro x hx
    rw [hfill₃]
    apply fill_of_outside
    by_contra hin
    exact hx (Alloc.covers_of_lt (by omega) (by omega))
  have htables₃ : IdentityTables flags m₃.mem directory tables := by
    refine htables₂.congr (fun i hi x h₀ h₁ => ?_) ?_
    · exact hsame₃ _ (List.mem_append_right _ List.mem_cons_self) x (page_covers.mpr (by omega))
    · exact hsame₃.mono fun c hc => List.mem_append_left _ hc
  have hlive : ∀ c ∈ live, c ∈ pageAllocs tables ++ ⟨directory, 4096⟩ :: live :=
    fun c hc => List.mem_append_right _ (List.mem_cons_of_mem _ hc)
  have hsame₁ : SameOn live m.mem m₁.mem := by
    apply hown₁.sameOn_of_head
    intro x hx
    rw [hfill₁]
    apply fill_of_outside
    rw [pagingTotalEntriesPerTable]
    by_contra hin
    exact hx (page_covers.mpr (by omega))
  have hown : HeapOwns m₃.heap.heap
      (⟨addr, 4⟩ :: (pageAllocs tables ++ ⟨directory, 4096⟩ :: live)) :=
    hown₃
  have htail : HeapOwns m₂.heap.heap (pageAllocs tables ++ ⟨directory, 4096⟩ :: live) := hown₂
  have hspace : AddressSpace m₃.mem directory tables :=
    hown₂.addressSpace hlength hflags htables₃
  refine ⟨tables, ?_, ?_, ?_, hspace, fun p hp => ?_⟩
  · rw [spaceAllocs, List.cons_append, List.append_assoc]
    exact hown
  · exact (hpool₁.trans hpool₂).trans hpool₃
  · exact (hsame₁.trans hsame₂).trans (hsame₃.mono hlive)
  · rw [hspace.pageAt_eq hp]
    have hpage := htables₃.page (p / 1024) _ (hspace.getElem? hp) (p % 1024) (by omega)
    rw [Nat.div_add_mod] at hpage
    exact hpage

/-! ## Freeing it -/

/-- Freeing the tables that the directory names from entry `i` on. -/
def kfreeTables (directory : ℕ) (indexes : List ℕ) (m : Machine KernelHeap) : Machine KernelHeap :=
  indexes.foldl (fun m i =>
    kfree kernelAllocator (entryAddress (readU32 m.mem (directory + 4 * i))) m) m

lemma kfreeTables_owns (directory : ℕ) : ∀ (rest : List ℕ) (i : ℕ) (m : Machine KernelHeap),
    (∀ (j : ℕ) t, rest[j]? = some t →
      entryAddress (readU32 m.mem (directory + 4 * (i + j))) = t) →
    HeapOwns m.heap.heap (pageAllocs rest ++ live) →
    HeapOwns (kfreeTables directory (List.range' i rest.length) m).heap.heap live ∧
    (kfreeTables directory (List.range' i rest.length) m).mem = m.mem ∧
    SamePool m.heap.heap (kfreeTables directory (List.range' i rest.length) m).heap.heap := by
  intro rest
  induction rest with
  | nil => exact fun i m _ h => ⟨h, rfl, SamePool.refl _⟩
  | cons t rest ih =>
    intro i m hentries h
    have ht : entryAddress (readU32 m.mem (directory + 4 * i)) = t := hentries 0 t rfl
    have hown : HeapOwns (heapFree m.heap.heap t) (pageAllocs rest ++ live) := h.heapFree_head
    have hrest := ih (i + 1) (kfree kernelAllocator t m) (fun j s hj => by
      rw [kfree_mem, Nat.add_right_comm]
      exact hentries (j + 1) s hj) hown
    have hstep : kfreeTables directory (List.range' i (t :: rest).length) m =
        kfreeTables directory (List.range' (i + 1) rest.length) (kfree kernelAllocator t m) := by
      rw [List.length_cons, List.range'_succ, kfreeTables, List.foldl_cons, ht]
      rfl
    rw [hstep]
    exact ⟨hrest.1, hrest.2.1, (heapFree_samePool m.heap.heap t).trans hrest.2.2⟩

lemma pagingFree4gb_eq : pagingFree4gb kernelAllocator chunk m =
    kfree kernelAllocator chunk.addr (kfree kernelAllocator chunk.directoryEntry
      (kfreeTables chunk.directoryEntry (List.range 1024) m)) := rfl

/-- **`paging_free_4gb`** gives back the blocks of the address space, whatever is mapped in it, and
writes nothing. -/
theorem pagingFree4gb_owns (h : HeapOwns m.heap.heap (spaceAllocs chunk tables ++ live))
    (hspace : AddressSpace m.mem chunk.directoryEntry tables) :
    HeapOwns (pagingFree4gb kernelAllocator chunk m).heap.heap live ∧
    (pagingFree4gb kernelAllocator chunk m).mem = m.mem ∧
    SamePool m.heap.heap (pagingFree4gb kernelAllocator chunk m).heap.heap := by
  have hperm : (spaceAllocs chunk tables ++ live).Perm
      (pageAllocs tables ++ ⟨chunk.directoryEntry, 4096⟩ :: ⟨chunk.addr, 4⟩ :: live) := by
    rw [spaceAllocs, List.cons_append, List.append_assoc]
    refine List.perm_middle.symm.trans ?_
    exact List.Perm.append_left _ (List.Perm.swap _ _ _)
  have hfold := kfreeTables_owns chunk.directoryEntry tables 0 m (fun j t hj => by
    rw [Nat.zero_add j]
    exact hspace.entry j t hj) (h.perm hperm)
  have hrange : List.range 1024 = List.range' 0 tables.length := by
    rw [hspace.length, List.range_eq_range']
  rw [pagingFree4gb_eq, hrange]
  generalize kfreeTables chunk.directoryEntry (List.range' 0 tables.length) m = m₁ at hfold ⊢
  rcases hfold with ⟨hown, hmem, hpool⟩
  have hown' : HeapOwns (heapFree (heapFree m₁.heap.heap chunk.directoryEntry) chunk.addr) live :=
    hown.heapFree_head.heapFree_head
  exact ⟨hown', hmem, (hpool.trans (heapFree_samePool _ _)).trans (heapFree_samePool _ _)⟩

end MarrowOS
