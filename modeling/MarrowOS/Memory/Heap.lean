import MarrowOS.Memory.Machine
import Mathlib.Logic.Function.Basic

/-!
# The block heap (`heap.c`)

The pool is cut into blocks of 4096 bytes, and a table holds one flag byte for each: whether
the block is taken, whether it starts an allocation and whether the allocation goes on in the
next block. `entries` is a C pointer, so the model lets it be read and written at every `int`
index, also outside the `total` entries of the table.
-/

namespace MarrowOS

open CInt

/-! ## Table entries -/

/-- `typedef unsigned char HEAP_BLOCK_TABLE_ENTRY`. -/
abbrev HeapBlockTableEntry := UInt8

@[simp] abbrev heapBlockTableEntryTaken : HeapBlockTableEntry := 0x01
@[simp] abbrev heapBlockTableEntryFree : HeapBlockTableEntry := 0x00
@[simp] abbrev heapBlockHasNext : HeapBlockTableEntry := 0b10000000
@[simp] abbrev heapBlockIsFirst : HeapBlockTableEntry := 0b01000000

/-- `struct heap_table`. -/
structure HeapTable where
  entries : ℤ → HeapBlockTableEntry
  total : ℕ

/-- `struct heap`. -/
structure Heap where
  table : HeapTable
  saddr : ℕ

/-- The heap with other table entries. -/
def Heap.withEntries (heap : Heap) (entries : ℤ → HeapBlockTableEntry) : Heap :=
  { heap with table := { heap.table with entries } }

@[simp] lemma Heap.withEntries_entries (heap : Heap) (entries : ℤ → HeapBlockTableEntry) :
    (heap.withEntries entries).table.entries = entries := rfl

@[simp] lemma Heap.withEntries_total (heap : Heap) (entries : ℤ → HeapBlockTableEntry) :
    (heap.withEntries entries).table.total = heap.table.total := rfl

@[simp] lemma Heap.withEntries_saddr (heap : Heap) (entries : ℤ → HeapBlockTableEntry) :
    (heap.withEntries entries).saddr = heap.saddr := rfl

/-- A live pointer into a heap and the size it was asked for. -/
structure Alloc where
  ptr : ℕ
  size : ℕ
deriving DecidableEq, Repr

/-! ## Creation -/

def heapValidateTable (ptr «end» : ℕ) (table : HeapTable) : ℤ :=
  let tableSize := u32 («end» - ptr)
  let totalBlocks := tableSize / marrowosHeapBlockSize
  if table.total ≠ totalBlocks then -einvarg else 0

def heapValidateAlignment (ptr : ℕ) : Bool := ptr % marrowosHeapBlockSize == 0

/-- Returns the status and the structure `heap` points to afterwards. -/
def heapCreate (heap : Heap) (ptr «end» : ℕ) (table : HeapTable) : ℤ × Heap :=
  if !heapValidateAlignment ptr || !heapValidateAlignment «end» then (-einvarg, heap)
  else
    let heap : Heap := { saddr := ptr, table }
    let res := heapValidateTable ptr «end» table
    if res < 0 then (res, heap)
    else
      (res, heap.withEntries fun i =>
        if 0 ≤ i ∧ i < table.total then heapBlockTableEntryFree else table.entries i)

/-! ## Allocation -/

def heapAlignValueToUpper (val : ℕ) : ℕ :=
  if val % marrowosHeapBlockSize = 0 then val
  else u32 (val - (val % marrowosHeapBlockSize : ℕ) + marrowosHeapBlockSize)

def heapGetEntryType (entry : HeapBlockTableEntry) : HeapBlockTableEntry := entry &&& 0x0f

/-- The loop of `heap_get_start_block` with `n` entries to go, at index `i`. -/
def heapGetStartBlockLoop (entries : ℤ → HeapBlockTableEntry) (totalBlocks : ℕ) :
    (n i : ℕ) → (blockCurrent blockStart : ℤ) → ℤ
  | 0, _, _, blockStart => blockStart
  | n + 1, i, blockCurrent, blockStart =>
    if heapGetEntryType (entries i) ≠ heapBlockTableEntryFree then
      heapGetStartBlockLoop entries totalBlocks n (i + 1) 0 (-1)
    else
      let blockStart := if blockStart = -1 then i32 i else blockStart
      let blockCurrent := i32 (blockCurrent + 1)
      if u32 blockCurrent = totalBlocks then blockStart
      else heapGetStartBlockLoop entries totalBlocks n (i + 1) blockCurrent blockStart

def heapGetStartBlock (heap : Heap) (totalBlocks : ℕ) : ℤ :=
  let blockStart :=
    heapGetStartBlockLoop heap.table.entries totalBlocks heap.table.total 0 0 (-1)
  if blockStart = -1 then -enomem else blockStart

def heapBlockToAddress (heap : Heap) (block : ℤ) : ℕ :=
  u32 (heap.saddr + i32 (block * marrowosHeapBlockSize))

/-- The loop of `heap_mark_blocks_taken` with `n` blocks to go, at index `i`. -/
def heapMarkBlocksTakenLoop (endBlock : ℤ) :
    (n : ℕ) → (i : ℤ) → HeapBlockTableEntry → (ℤ → HeapBlockTableEntry) →
      (ℤ → HeapBlockTableEntry)
  | 0, _, _, entries => entries
  | n + 1, i, entry, entries =>
    let entries := Function.update entries i entry
    let entry := heapBlockTableEntryTaken
    let entry := if i ≠ endBlock - 1 then entry ||| heapBlockHasNext else entry
    heapMarkBlocksTakenLoop endBlock n (i + 1) entry entries

def heapMarkBlocksTaken (heap : Heap) (startBlock totalBlocks : ℤ) : Heap :=
  let endBlock := startBlock + totalBlocks - 1
  let entry := heapBlockTableEntryTaken ||| heapBlockIsFirst
  let entry := if totalBlocks > 1 then entry ||| heapBlockHasNext else entry
  heap.withEntries (heapMarkBlocksTakenLoop endBlock (endBlock + 1 - startBlock).toNat startBlock
    entry heap.table.entries)

/-- Returns the address of the first block, null when `heap_get_start_block` fails. -/
def heapMallocBlocks (heap : Heap) (totalBlocks : ℕ) : ℕ × Heap :=
  let startBlock := heapGetStartBlock heap totalBlocks
  if startBlock < 0 then (0, heap)
  else
    (heapBlockToAddress heap startBlock,
      heapMarkBlocksTaken heap startBlock (i32 totalBlocks))

/-- The number of blocks `heap_malloc` asks for. -/
def heapTotalBlocks (size : ℕ) : ℕ := heapAlignValueToUpper size / marrowosHeapBlockSize

def heapMalloc (heap : Heap) (size : ℕ) : ℕ × Heap :=
  heapMallocBlocks heap (heapTotalBlocks size)

/-! ## Freeing -/

/-- The loop of `heap_mark_blocks_free` with `n` entries to go, at index `i`. -/
def heapMarkBlocksFreeLoop :
    (n : ℕ) → (i : ℤ) → (ℤ → HeapBlockTableEntry) → (ℤ → HeapBlockTableEntry)
  | 0, _, entries => entries
  | n + 1, i, entries =>
    let entry := entries i
    let entries := Function.update entries i heapBlockTableEntryFree
    if entry &&& heapBlockHasNext = 0 then entries
    else heapMarkBlocksFreeLoop n (i + 1) entries

def heapMarkBlocksFree (heap : Heap) (startingBlock : ℤ) : Heap :=
  heap.withEntries (heapMarkBlocksFreeLoop (heap.table.total - startingBlock).toNat startingBlock
    heap.table.entries)

def heapAddressToBlock (heap : Heap) (address : ℕ) : ℤ :=
  (i32 (address - heap.saddr)).tdiv marrowosHeapBlockSize

def heapFree (heap : Heap) (ptr : ℕ) : Heap :=
  heapMarkBlocksFree heap (heapAddressToBlock heap ptr)

/-! ## The kernel heap (`kheap.c`) -/

/-- `kheap_init` hands the heap a pool of 100 MB. -/
def kheapInit (entries : ℤ → HeapBlockTableEntry) : ℤ × Heap :=
  heapCreate ⟨⟨entries, 0⟩, 0⟩ marrowosHeapAddress (marrowosHeapAddress + marrowosHeapSizeBytes)
    ⟨entries, marrowosHeapSizeBytes / marrowosHeapBlockSize⟩

end MarrowOS
