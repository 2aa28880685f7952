import MarrowOS.Memory.HeapAllocation
import MarrowOS.Memory.NewAddressSpace

/-!
# An address space from its creation to its end

* `pagingMapTo_exact`: what one `paging_map_to` changes, as `paging_get_physical_address` sees it.
* `pagingNew4gb_fresh`: while 1026 blocks are free, `paging_new_4gb` answers with an address space
  in which every address translates to itself; whatever is then set and mapped in it,
  `paging_free_4gb` gives all blocks back.
-/

namespace MarrowOS

open ByteMem CInt Extents Fallible

variable {mem mem' : Mem} {directory virt phys physEnd flags count p v : ℕ} {tables : List ℕ}
  {chunk : Paging4gbChunk}

/-! ## Distinct tables -/

/-- The address of a table is that of a page. -/
lemma tableAddress_mod (mem : Mem) (x : ℕ) : entryAddress (readU32 mem x) % 4096 = 0 :=
  entryAddress_mod (readU32_lt mem x)

/-- A directory and its tables, all of them different pages. -/
lemma AddressSpace.of_nodup (hlength : tables.length = 1024)
    (hentry : ∀ (i : ℕ) t, tables[i]? = some t → entryAddress (readU32 mem (directory + 4 * i)) = t)
    (hdirectory : directory % 4096 = 0) (hnodup : (directory :: tables).Nodup) :
    AddressSpace mem directory tables := by
  have haligned : ∀ t ∈ tables, t % 4096 = 0 := by
    intro t ht
    obtain ⟨i, hi⟩ := List.mem_iff_getElem?.mp ht
    rw [← hentry i t hi]
    exact tableAddress_mod mem _
  rcases List.nodup_cons.mp hnodup with ⟨hnot, htables⟩
  refine ⟨hlength, hentry, ?_, fun t ht => ?_⟩
  · refine htables.imp_of_mem fun {s t} hs ht hne => ?_
    have hs' := haligned s hs
    have ht' := haligned t ht
    omega
  · have ht' := haligned t ht
    have hne : directory ≠ t := by
      intro heq
      exact hnot (heq ▸ ht)
    omega

/-! ## One mapping -/

/-- The `count` pages from `virt` on, around the end of the address space, translate to the bytes
from `phys` on and have the flags `flags`; all other pages have the entries they had. -/
structure MapsExactly (directory virt phys count flags : ℕ) (mem mem' : Mem) : Prop where
  translates : ∀ k < count, ∀ o < 4096,
    pagingGetPhysicalAddress mem' directory ((virt + 4096 * k + o) % 2 ^ 32) = phys + 4096 * k + o
  flags : ∀ k < count, pagingGet mem' directory ((virt + 4096 * k) % 2 ^ 32) % 4096 = flags
  others : ∀ v < 2 ^ 32, v % 4096 = 0 → (∀ k < count, v ≠ (virt + 4096 * k) % 2 ^ 32) →
    pagingGet mem' directory v = pagingGet mem directory v

lemma pagingGet_eq_pageAt (hv : v % 4096 = 0) :
    pagingGet mem directory v = pageAt mem directory (v / 4096) := by
  rw [pagingGet_eq hv]
  exact pageEntry_eq_pageAt mem directory v

/-- The page that lies `k` pages behind. -/
lemma pagesBehind_add {k : ℕ} (hk : k < 2 ^ 20) : pagesBehind p ((p + k) % 2 ^ 20) = k := by
  unfold pagesBehind
  omega

/-- A page lies as many pages behind as it takes to get there. -/
lemma add_pagesBehind {q : ℕ} (hq : q < 2 ^ 20) : (p + pagesBehind p q) % 2 ^ 20 = q := by
  unfold pagesBehind
  omega

/-- **`paging_map_to` maps exactly its range**, or changes nothing. -/
theorem pagingMapTo_exact (h : AddressSpace mem directory tables)
    (hchunk : chunk.directoryEntry = directory) (hvirt : virt < 2 ^ 32) (hphys : phys < 2 ^ 32)
    (hend : physEnd < 2 ^ 32) (hflags : flags < 4096) :
    (MapsTo virt phys physEnd →
      (pagingMapTo chunk virt phys physEnd flags mem).1 = 0 ∧
      MapsExactly directory virt phys ((physEnd - phys) / 4096) flags mem
        (pagingMapTo chunk virt phys physEnd flags mem).2) ∧
    (¬ MapsTo virt phys physEnd →
      pagingMapTo chunk virt phys physEnd flags mem = (-einvarg, mem)) := by
  refine ⟨fun hmaps => ?_, pagingMapTo_of_not_mapsTo⟩
  have hres := @pagingMapTo_res mem phys physEnd virt flags chunk
  rw [if_pos hmaps] at hres
  have hpage := fun p => @AddressSpace.pagingMapTo_pageAt mem directory p phys physEnd virt flags
    tables chunk h hchunk hflags hvirt hend hmaps
  rcases hmaps with ⟨hv, hp, he, hle⟩
  refine ⟨hres, ?_⟩
  generalize (pagingMapTo chunk virt phys physEnd flags mem).2 = mem' at hpage ⊢
  -- the entry of the page that lies `k` pages behind `virt`
  have hentry : ∀ k < (physEnd - phys) / 4096,
      pageAt mem' directory ((virt / 4096 + k) % 2 ^ 20) = phys + 4096 * k ||| flags := by
    intro k hk
    rw [hpage _ (by omega), pagesBehind_add (by omega), if_pos hk]
  constructor
  · intro k hk o ho
    have hpageOf : (virt + 4096 * k + o) % 2 ^ 32 / 4096 = (virt / 4096 + k) % 2 ^ 20 := by omega
    have hoffset : (virt + 4096 * k + o) % 2 ^ 32 % 4096 = o := by omega
    rw [pagingGetPhysicalAddress_eq, translate, pageEntry_eq_pageAt, hpageOf, hoffset,
      hentry k hk, entryAddress_or (by omega) (by omega) hflags]
  · intro k hk
    have hpageOf : (virt + 4096 * k) % 2 ^ 32 / 4096 = (virt / 4096 + k) % 2 ^ 20 := by omega
    rw [pagingGet_eq_pageAt (by omega), hpageOf, hentry k hk, or_flags (by omega) hflags]
    omega
  · intro v hlt haligned hne
    rw [pagingGet_eq_pageAt haligned, pagingGet_eq_pageAt haligned, hpage _ (by omega), if_neg]
    intro hin
    apply hne _ hin
    have hback := add_pagesBehind (p := virt / 4096) (show v / 4096 < 2 ^ 20 by omega)
    omega

/-- A directory at address `0` whose tables lie behind it, and nothing in the tables. -/
def sparseMem : Mem := fun x => if x < 4096 then byteOf (4096 * (x / 4 + 1)) (x % 4) else 0

def sparseTables : List ℕ := (List.range 1024).map fun i => 4096 * (i + 1)

lemma readU32_sparseMem {i : ℕ} (hi : i < 1024) : readU32 sparseMem (4 * i) = 4096 * (i + 1) := by
  have hbyte : ∀ k < 4, sparseMem (4 * i + k) = byteOf (4096 * (i + 1)) k := by
    intro k hk
    have hdiv : (4 * i + k) / 4 = i := by omega
    have hmod : (4 * i + k) % 4 = k := by omega
    rw [sparseMem, if_pos (by omega), hdiv, hmod]
  rw [readU32, hbyte 1 (by omega), hbyte 2 (by omega), hbyte 3 (by omega),
    show sparseMem (4 * i) = byteOf (4096 * (i + 1)) 0 from hbyte 0 (by omega)]
  simp only [toNat_byteOf]
  omega

lemma addressSpace_sparseMem : AddressSpace sparseMem 0 sparseTables := by
  apply AddressSpace.of_nodup
  · rw [sparseTables, List.length_map, List.length_range]
  · intro i t hi
    rw [sparseTables, List.getElem?_map, Option.map_eq_some_iff] at hi
    rcases hi with ⟨j, hj, ht⟩
    rcases List.getElem?_eq_some_iff.mp hj with ⟨hlt, heq⟩
    rw [List.getElem_range] at heq
    rw [List.length_range] at hlt
    subst heq
    rw [Nat.zero_add, readU32_sparseMem hlt, ← ht]
    have hor := entryAddress_or (show 4096 * (i + 1) % 4096 = 0 by omega) (by omega)
      (show 0 < 4096 by omega)
    rwa [Nat.or_zero] at hor
  · rfl
  · rw [List.nodup_cons]
    constructor
    · intro h0
      rcases List.mem_map.mp h0 with ⟨i, -, hi⟩
      omega
    · refine List.Nodup.map (fun i j hij => ?_) List.nodup_range
      omega

/-- Four pages across the end of the address space. -/
theorem pagingMapTo_sparseMem :
    (pagingMapTo ⟨0, 0⟩ 0xfffff000 0x4000000 0x4004000 7 sparseMem).1 = 0 ∧
    MapsExactly 0 0xfffff000 0x4000000 4 7 sparseMem
      (pagingMapTo ⟨0, 0⟩ 0xfffff000 0x4000000 0x4004000 7 sparseMem).2 :=
  (pagingMapTo_exact addressSpace_sparseMem rfl (by decide) (by decide) (by decide)
    (by decide)).1 (by decide)

/-! ## Enough blocks -/

/-- While the heap answers a request for every table, the loop does not fault. -/
lemma pagingNew4gbLoop_progress {P : ℕ → Heap → Prop} (hP : Serves P) (hdirectory : directory ≠ 0) :
    ∀ (n i c : ℕ) (offset : ℤ) (m : Machine KernelHeap), P (c + n) m.heap.heap →
      ∃ m', pagingNew4gbLoop kernelAllocator directory flags n i offset m = .ok m' ∧
        P c m'.heap.heap := by
  intro n
  induction n with
  | zero => exact fun i c offset m hm => ⟨m, rfl, hm⟩
  | succ n ih =>
    intro i c offset m hm
    obtain ⟨e, m₁, hkz, he, hm₁⟩ := hP (c + n) (4 * pagingTotalEntriesPerTable) m (by decide)
      (by decide) hm
    have hnull : ¬ (e = 0 ∨ directory = 0) := not_or.mpr ⟨he, hdirectory⟩
    rw [pagingNew4gbLoop, hkz]
    simp only [ok_bind]
    rw [if_neg hnull]
    generalize pagingFillTable e offset flags m₁.mem = filled
    exact ih (i + 1) c (i32 (offset + pagingTotalEntriesPerTable * pagingPageSize))
      ⟨m₁.heap, writeU32 filled (directory + 4 * i) (e ||| flags ||| pagingIsWritable)⟩ hm₁

/-- While the heap answers 1026 requests for one block, `paging_new_4gb` does not fault. -/
lemma pagingNew4gb_progress {P : ℕ → Heap → Prop} (hP : Serves P) {m : Machine KernelHeap}
    (hm : P (count + 1026) m.heap.heap) :
    ∃ chunk m', pagingNew4gb kernelAllocator flags m = .ok (chunk, m') ∧ P count m'.heap.heap := by
  obtain ⟨directory, m₁, hdirectory, hne, hm₁⟩ := hP (count + 1025)
    (4 * pagingTotalEntriesPerTable) m (by decide) (by decide) hm
  obtain ⟨m₂, hloop, hm₂⟩ := @pagingNew4gbLoop_progress directory flags P hP hne
    pagingTotalEntriesPerTable 0 (count + 1) 0 m₁ (by rwa [Nat.add_assoc])
  obtain ⟨addr, m₃, haddr, hne', hm₃⟩ := hP count 4 m₂ (by decide) (by decide) hm₂
  refine ⟨⟨addr, directory⟩, m₃, ?_, hm₃⟩
  rw [pagingNew4gb, hdirectory]
  simp only [ok_bind]
  rw [hloop]
  simp only [ok_bind]
  rw [haddr]
  simp only [ok_bind]
  rw [if_neg hne']
  rfl

/-! ## The life of an address space -/

/-- What is done to an address space while it is in use. -/
inductive SpaceOp
  | set (virt val : ℕ)
  | mapTo (m : Mapping)

/-- The virtual address that the operation is given. -/
def SpaceOp.address : SpaceOp → ℕ
  | .set virt _ => virt
  | .mapTo m => m.virt

/-- `paging_set` and `paging_map_to`. -/
def SpaceOp.run (chunk : Paging4gbChunk) : SpaceOp → Mem → Mem
  | .set virt val, mem => (pagingSet mem chunk.directoryEntry virt val).2
  | .mapTo m, mem => (m.pagingMapTo chunk mem).2

def runSpaceOps (chunk : Paging4gbChunk) (ops : List SpaceOp) (mem : Mem) : Mem :=
  ops.foldl (fun mem op => op.run chunk mem) mem

/-- No operation writes the directory. -/
lemma AddressSpace.spaceOp (h : AddressSpace mem chunk.directoryEntry tables) {op : SpaceOp}
    (hvirt : op.address < 2 ^ 32) :
    AddressSpace (op.run chunk mem) chunk.directoryEntry tables := by
  cases op with
  | set virt val => exact h.write fun x hx => h.pagingSet_outside hvirt hx
  | mapTo m => exact h.pagingMapTo rfl hvirt

lemma AddressSpace.runSpaceOps {ops : List SpaceOp} (hops : ∀ op ∈ ops, op.address < 2 ^ 32)
    (h : AddressSpace mem chunk.directoryEntry tables) :
    AddressSpace (runSpaceOps chunk ops mem) chunk.directoryEntry tables := by
  induction ops generalizing mem with
  | nil => exact h
  | cons op ops ih =>
    rcases List.forall_mem_cons.mp hops with ⟨hop, hrest⟩
    exact ih hrest (h.spaceOp hop)

/-- **A fresh address space** is the identity, and goes back to the heap whole. -/
theorem pagingNew4gb_fresh {m : Machine KernelHeap} {live : List Alloc}
    (h : HeapOwns m.heap.heap live) (hfree : 1026 ≤ freeBlocks m.heap.heap) (hflags : flags < 256) :
    ∃ chunk m', pagingNew4gb kernelAllocator flags m = .ok (chunk, m') ∧
      (∀ v < 2 ^ 32, pagingGetPhysicalAddress m'.mem chunk.directoryEntry v = v ∧
        pagingGet m'.mem chunk.directoryEntry (pagingAlignToLowerPage v) % 4096 = flags) ∧
      ∀ ops : List SpaceOp, (∀ op ∈ ops, op.address < 2 ^ 32) →
        SameTable m.heap.heap
          (pagingFree4gb kernelAllocator chunk
            ⟨m'.heap, runSpaceOps chunk ops m'.mem⟩).heap.heap := by
  obtain ⟨chunk, m', hnew, -⟩ := @pagingNew4gb_progress flags 0 _ serves_hasBlocks m ⟨h.pool, hfree⟩
  have hflags' : flags < 4096 := by omega
  obtain ⟨tables, hown, hpool, -, hspace, hidentity⟩ := pagingNew4gb_owns h hflags' hnew
  refine ⟨chunk, m', hnew, fun v hv => ?_, fun ops hops => ?_⟩
  · have hentry := hidentity (v / 4096) (by omega)
    constructor
    · rw [pagingGetPhysicalAddress_eq, translate, pageEntry_eq_pageAt, hentry,
        entryAddress_or (by omega) (by omega) hflags']
      omega
    · have hlower : pagingAlignToLowerPage v = v - v % 4096 := rfl
      have hpage : (v - v % 4096) / 4096 = v / 4096 := by omega
      rw [hlower, pagingGet_eq_pageAt (by omega), hpage, hentry, or_flags (by omega) hflags']
      omega
  · -- the directory still names the tables that were made
    have hend := hspace.runSpaceOps hops
    generalize runSpaceOps chunk ops m'.mem = mem at hend ⊢
    have hfreed := @pagingFree4gb_owns live ⟨m'.heap, mem⟩ chunk tables hown hend
    generalize pagingFree4gb kernelAllocator chunk ⟨m'.heap, mem⟩ = m₂ at hfreed ⊢
    exact h.sameTable hfreed.1 (hpool.trans hfreed.2.2)

/-- In an empty heap every block is free. -/
lemma HeapOwns.freeBlocks_nil {heap : Heap} (h : HeapOwns heap []) :
    freeBlocks heap = heap.table.total := by
  rw [freeBlocks, Nat.count_iff_forall]
  intro i hi
  have hentry := h.free i hi fun a ha => absurd ha List.not_mem_nil
  rw [BlockFree, hentry]
  rfl

/-- The heap of `kheap_init` and cleared memory. -/
def bootMachine : Machine KernelHeap := ⟨⟨(kheapInit fun _ => 0).2, false⟩, fun _ => 0⟩

lemma bootMachine_owns : HeapOwns bootMachine.heap.heap [] :=
  (heapCreate_inv (kheapInit_eq fun _ => 0) (by decide)).owns (kheapInit_poolOk fun _ => 0)

/-- The first address space of the kernel, as `paging_new_4gb` is called for a task. -/
theorem pagingNew4gb_bootMachine : ∃ chunk m',
    pagingNew4gb kernelAllocator 7 bootMachine = .ok (chunk, m') ∧
    (∀ v < 2 ^ 32, pagingGetPhysicalAddress m'.mem chunk.directoryEntry v = v ∧
      pagingGet m'.mem chunk.directoryEntry (pagingAlignToLowerPage v) % 4096 = 7) ∧
    ∀ ops : List SpaceOp, (∀ op ∈ ops, op.address < 2 ^ 32) →
      SameTable bootMachine.heap.heap
        (pagingFree4gb kernelAllocator chunk
          ⟨m'.heap, runSpaceOps chunk ops m'.mem⟩).heap.heap := by
  apply pagingNew4gb_fresh bootMachine_owns
  · rw [bootMachine_owns.freeBlocks_nil]
    exact (by decide : 1026 ≤ 25600)
  · decide

end MarrowOS
