import MarrowOS.Loader.ElfLoaderTheorems
import MarrowOS.Memory.HeapCalls

/-!
# The repeated release of `elf_load`

Where `elf_load` fails, it calls `elf_file_free` and then `elf_close` on the same file, which frees
the same pointers again. The first release clears the entries of the blocks and with them the
`HAS_NEXT` flags, so that the second one stops at the first entry and does not walk on into a
neighbour.
-/

namespace MarrowOS

open Extents Runs

/-- The block belongs to the live allocation at the pointer. -/
def BlockOf (s : HeapRun) (ptr : ℕ) (j : ℤ) : Prop :=
  ∃ a ∈ s.live, a.ptr = ptr ∧ ((s.heap.extent a).start : ℤ) ≤ j ∧
    j < (s.heap.extent a).start + (s.heap.extent a).len ∧ j < s.heap.table.total

/-- The block belongs to the file, or to its buffer if that is set. -/
def BlockOfFile (s : HeapRun) (f : ElfFile) (j : ℤ) : Prop :=
  BlockOf s f.addr j ∨ (f.elfMemory ≠ 0 ∧ BlockOf s f.elfMemory j)

variable {s : HeapRun} {f : ElfFile} {ptr : ℕ} {j : ℤ}

/-! ## One release -/

/-- The blocks of an allocation are taken. -/
lemma BlockOf.taken (h : BlockOf s ptr j) (hown : TableOwns s.heap s.live) :
    heapGetEntryType (s.heap.table.entries j) = heapBlockTableEntryTaken := by
  rcases h with ⟨a, ha, -, hlo, hhi, hin⟩
  obtain ⟨i, rfl⟩ := Int.eq_ofNat_of_zero_le (show 0 ≤ j by omega)
  rw [hown.owned a ha i ⟨by omega, by omega⟩ (by omega)]
  exact heapGetEntryType_blockFlags ..

/-- The blocks of a live allocation become free, and no other entry changes. At a free pointer there
are none. -/
lemma heapFree_blockOf (hown : TableOwns s.heap s.live)
    (hptr : (∃ a ∈ s.live, a.ptr = ptr) ∨ FreePointer s ptr) (j : ℤ) :
    (BlockOf s ptr j → (heapFree s.heap ptr).table.entries j = heapBlockTableEntryFree) ∧
      (¬ BlockOf s ptr j →
        (heapFree s.heap ptr).table.entries j = s.heap.table.entries j) := by
  rcases hptr with ⟨a, ha, rfl⟩ | hfree
  · have hentries := hown.heapFree_entries ha j
    constructor
    · rintro ⟨b, hb, hptr, hlo, hhi, hin⟩
      rw [hown.eq_of_ptr hb ha hptr] at hlo hhi
      rw [hentries, if_pos ⟨hlo, hhi, hin⟩]
    · intro hno
      rw [hentries, if_neg]
      rintro ⟨hlo, hhi, hin⟩
      exact hno ⟨a, ha, rfl, hlo, hhi, hin⟩
  · rw [hfree.heapFree hown]
    constructor
    · rintro ⟨b, hb, hptr, -⟩
      exact absurd hptr (hfree.ne hown hb)
    · intro _
      rfl

/-! ## Both of them -/

/-- The state after the buffer is released. -/
lemma heapCallStep_free (hptr : (∃ a ∈ s.live, a.ptr = ptr) ∨ FreePointer s ptr) :
    heapCallStep s (.free ptr) =
      some ⟨heapFree s.heap ptr, s.live.filter (·.ptr ≠ ptr)⟩ := if_pos hptr

/-- Another allocation keeps its blocks. -/
lemma blockOf_after_free {ptr' : ℕ} (hne : ptr' ≠ ptr) :
    BlockOf ⟨heapFree s.heap ptr, s.live.filter (·.ptr ≠ ptr)⟩ ptr' j ↔ BlockOf s ptr' j := by
  have hsame := heapFree_samePool s.heap ptr
  unfold BlockOf
  simp only [List.mem_filter, decide_eq_true_eq, hsame.extent, hsame.2]
  constructor
  · rintro ⟨a, ⟨ha, -⟩, hrest⟩
    exact ⟨a, ha, hrest⟩
  · rintro ⟨a, ha, hptr, hrest⟩
    exact ⟨a, ⟨ha, by rw [hptr]; exact hne⟩, hptr, hrest⟩

/-- `elf_file_free` frees the blocks of the file and of its buffer, and no others. -/
lemma elfFileFree_entries (hown : TableOwns s.heap s.live) {m : Machine KernelHeap}
    (hm : m.heap.heap = s.heap) (hfile : ∃ a ∈ s.live, a.ptr = f.addr)
    (hmemory : f.elfMemory = 0 ∨ (∃ a ∈ s.live, a.ptr = f.elfMemory) ∨
      FreePointer s f.elfMemory) (j : ℤ) :
    (BlockOfFile s f j →
      (elfFileFree f m).heap.heap.table.entries j = heapBlockTableEntryFree) ∧
    (¬ BlockOfFile s f j →
      (elfFileFree f m).heap.heap.table.entries j = s.heap.table.entries j) := by
  unfold BlockOfFile
  by_cases h0 : f.elfMemory = 0
  · -- without a buffer
    have hheap : (elfFileFree f m).heap.heap = heapFree s.heap f.addr := by
      rw [elfFileFree, if_neg (not_not.mpr h0), ← hm]
      rfl
    have hblock := heapFree_blockOf hown (Or.inl hfile) j
    rw [hheap]
    refine ⟨fun h => hblock.1 ?_, fun h => hblock.2 fun hj => h (Or.inl hj)⟩
    exact h.resolve_right fun hj => hj.1 h0
  · have hheap : (elfFileFree f m).heap.heap =
        heapFree (heapFree s.heap f.elfMemory) f.addr := by
      rw [elfFileFree, if_pos h0, ← hm]
      rfl
    have hbuffer := hmemory.resolve_left h0
    have hblock := heapFree_blockOf hown hbuffer j
    rw [hheap]
    by_cases hsame : f.addr = f.elfMemory
    · -- one allocation
      rw [hsame, (heapFree_again s.heap f.elfMemory).1]
      refine ⟨fun h => hblock.1 ?_, fun h => hblock.2 fun hj => h (Or.inl hj)⟩
      exact h.elim id And.right
    · have hown' := heapCallStep_owns hown (heapCallStep_free hbuffer)
      have hfile' : ∃ a ∈ s.live.filter (·.ptr ≠ f.elfMemory), a.ptr = f.addr := by
        rcases hfile with ⟨a, ha, hptr⟩
        exact ⟨a, List.mem_filter.mpr ⟨ha, decide_eq_true (by rw [hptr]; exact hsame)⟩, hptr⟩
      have hblock' := heapFree_blockOf hown' (Or.inl hfile') j
      rw [blockOf_after_free hsame] at hblock'
      constructor
      · intro h
        by_cases hj : BlockOf s f.addr j
        · exact hblock'.1 hj
        · rw [hblock'.2 hj]
          exact hblock.1 ((h.resolve_left hj).2)
      · intro h
        rw [hblock'.2 fun hj => h (Or.inl hj)]
        exact hblock.2 fun hj => h (Or.inr ⟨h0, hj⟩)

/-- **The repeated release.** In every state of the heap in which an `elf_file` is live, and its
buffer, unless that is null or, for an empty file, a block nobody has: `elf_close` after
`elf_file_free` changes nothing. The blocks of these allocations, which were taken, are free, and no
other entry of the table is different. The pool is one whose block offsets are `int`s. -/
theorem elfClose_repeats {heap₀ heap : Heap} {start «end» : ℕ} {table : HeapTable}
    (hcreate : heapCreate heap₀ start «end» table = (0, heap)) (hpool : table.total ≤ 2 ^ 19)
    {ops : List HeapOp} (hrun : run heapCallStep ⟨heap, []⟩ ops = some s)
    {m : Machine KernelHeap} (hm : m.heap.heap = s.heap) (hfile : ∃ a ∈ s.live, a.ptr = f.addr)
    (hmemory : f.elfMemory = 0 ∨ (∃ a ∈ s.live, a.ptr = f.elfMemory) ∨
      FreePointer s f.elfMemory) :
    elfClose f (elfFileFree f m) = elfFileFree f m ∧
      (∀ j, BlockOfFile s f j →
        heapGetEntryType (s.heap.table.entries j) = heapBlockTableEntryTaken ∧
        (elfFileFree f m).heap.heap.table.entries j = heapBlockTableEntryFree) ∧
      ∀ j, ¬ BlockOfFile s f j →
        (elfFileFree f m).heap.heap.table.entries j = s.heap.table.entries j := by
  have hown := tableOwns_of_run hcreate hpool hrun
  have hentries := elfFileFree_entries hown hm hfile hmemory
  refine ⟨elfClose_elfFileFree f m, fun j hj => ⟨?_, (hentries j).1 hj⟩, fun j => (hentries j).2⟩
  rcases hj with hj | ⟨-, hj⟩
  · exact hj.taken hown
  · exact hj.taken hown

/-- A file, its buffer of two blocks and a neighbour fill a pool of four blocks. -/
def fullRun : HeapRun :=
  (run heapCallStep ⟨fourBlockHeap.2, []⟩ [.malloc 24, .malloc 5000, .malloc 1]).getD
    ⟨fourBlockHeap.2, []⟩

def fullFile : ElfFile := ⟨0x01000000, 0x01001000, 0, 0, 0, 0⟩

theorem elfClose_repeats_full :
    elfClose fullFile (elfFileFree fullFile ⟨⟨fullRun.heap, false⟩, fun _ => 0⟩) =
        elfFileFree fullFile ⟨⟨fullRun.heap, false⟩, fun _ => 0⟩ ∧
      (∀ j, BlockOfFile fullRun fullFile j →
        heapGetEntryType (fullRun.heap.table.entries j) = heapBlockTableEntryTaken ∧
        (elfFileFree fullFile ⟨⟨fullRun.heap, false⟩, fun _ => 0⟩).heap.heap.table.entries j =
          heapBlockTableEntryFree) ∧
      ∀ j, ¬ BlockOfFile fullRun fullFile j →
        (elfFileFree fullFile ⟨⟨fullRun.heap, false⟩, fun _ => 0⟩).heap.heap.table.entries j =
          fullRun.heap.table.entries j :=
  elfClose_repeats (show fourBlockHeap = (0, fourBlockHeap.2) from rfl) (by decide)
    (show run heapCallStep ⟨fourBlockHeap.2, []⟩ [.malloc 24, .malloc 5000, .malloc 1] =
      some fullRun from rfl)
    rfl (by decide) (Or.inr (Or.inl (by decide)))

end MarrowOS
