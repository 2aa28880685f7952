import MarrowOS.Memory.Machine

/-!
# Page tables (`paging.c`)

A directory is an array of 1024 words in physical memory, each the address of a page table
with flags in its low twelve bits; a table is an array of 1024 words of the same shape. The
functions read and write these words in the memory of a `Machine`.
-/

namespace MarrowOS

open ByteMem CInt

@[simp] abbrev pagingAccessFromAll : ℕ := 0b00000100
@[simp] abbrev pagingIsWritable : ℕ := 0b00000010
@[simp] abbrev pagingIsPresent : ℕ := 0b00000001

@[simp] abbrev pagingTotalEntriesPerTable : ℕ := 1024
@[simp] abbrev pagingPageSize : ℕ := 4096

/-- `struct paging_4gb_chunk`, with the address it was allocated at. The structure is never
written after `paging_new_4gb`. -/
structure Paging4gbChunk where
  addr : ℕ
  directoryEntry : ℕ
deriving DecidableEq, Repr

/-- The address part of a directory or table entry, `entry & 0xfffff000`. -/
def entryAddress (entry : ℕ) : ℕ := entry &&& 0xfffff000

def pagingIsAligned (addr : ℕ) : Bool := addr % pagingPageSize == 0

/-- The directory and the table index; on an unaligned address the outputs stay `0`, as
the callers initialised them. -/
def pagingGetIndexes (virtualAddress : ℕ) : ℤ × ℕ × ℕ :=
  if !pagingIsAligned virtualAddress then (-einvarg, 0, 0)
  else (0, virtualAddress / (pagingTotalEntriesPerTable * pagingPageSize),
    virtualAddress % (pagingTotalEntriesPerTable * pagingPageSize) / pagingPageSize)

def pagingAlignAddress (ptr : ℕ) : ℕ :=
  if ptr % pagingPageSize ≠ 0 then u32 (ptr + pagingPageSize - (ptr % pagingPageSize : ℕ)) else ptr

def pagingAlignToLowerPage (addr : ℕ) : ℕ := addr - addr % pagingPageSize

def pagingSet (mem : Mem) (directory virt val : ℕ) : ℤ × Mem :=
  if !pagingIsAligned virt then (-einvarg, mem)
  else
    let (res, directoryIndex, tableIndex) := pagingGetIndexes virt
    if res < 0 then (res, mem)
    else
      let entry := readU32 mem (directory + 4 * directoryIndex)
      let table := entryAddress entry
      (0, writeU32 mem (table + 4 * tableIndex) val)

def pagingGet (mem : Mem) (directory virt : ℕ) : ℕ :=
  let (_, directoryIndex, tableIndex) := pagingGetIndexes virt
  let entry := readU32 mem (directory + 4 * directoryIndex)
  let table := entryAddress entry
  readU32 mem (table + 4 * tableIndex)

def pagingGetPhysicalAddress (mem : Mem) (directory virt : ℕ) : ℕ :=
  let virtAddrNew := pagingAlignToLowerPage virt
  let difference := virt - virtAddrNew
  u32 (entryAddress (pagingGet mem directory virtAddrNew) + difference)

def pagingMap (directory : Paging4gbChunk) (virt phys flags : ℕ) (mem : Mem) : ℤ × Mem :=
  if virt % pagingPageSize ≠ 0 ∨ phys % pagingPageSize ≠ 0 then (-einvarg, mem)
  else pagingSet mem directory.directoryEntry virt (phys ||| flags)

/-- The loop of `paging_map_range` with `count` pages to go and result `res` so far. -/
def pagingMapRangeLoop (directory : Paging4gbChunk) (flags : ℕ) :
    (count : ℕ) → (virt phys : ℕ) → (res : ℤ) → Mem → ℤ × Mem
  | 0, _, _, res, mem => (res, mem)
  | count + 1, virt, phys, _, mem =>
    let (res, mem) := pagingMap directory virt phys flags mem
    if res < 0 then (res, mem)
    else pagingMapRangeLoop directory flags count (u32 (virt + pagingPageSize))
      (u32 (phys + pagingPageSize)) res mem

def pagingMapRange (directory : Paging4gbChunk) (virt phys : ℕ) (count : ℤ) (flags : ℕ)
    (mem : Mem) : ℤ × Mem :=
  pagingMapRangeLoop directory flags count.toNat virt phys 0 mem

def pagingMapTo (directory : Paging4gbChunk) (virt phys physEnd : ℕ) (flags : ℕ)
    (mem : Mem) : ℤ × Mem :=
  if virt % pagingPageSize ≠ 0 then (-einvarg, mem)
  else if phys % pagingPageSize ≠ 0 then (-einvarg, mem)
  else if physEnd % pagingPageSize ≠ 0 then (-einvarg, mem)
  else if physEnd < phys then (-einvarg, mem)
  else
    let totalBytes := physEnd - phys
    let totalPages := totalBytes / pagingPageSize
    pagingMapRange directory virt phys totalPages flags mem

/-! ## Creating and freeing an address space -/

variable {σ : Type} (A : Allocator σ)

/-- The inner loop of `paging_new_4gb`: fill a table with identity entries from `offset` on. -/
def pagingFillTable (entry : ℕ) (offset : ℤ) (flags : ℕ) (mem : Mem) : Mem :=
  (List.range pagingTotalEntriesPerTable).foldl
    (fun mem b => writeU32 mem (entry + 4 * b) (u32 (offset + b * pagingPageSize) ||| flags)) mem

/-- The outer loop of `paging_new_4gb` with `n` tables to go; `entry` and `directory` are
dereferenced without a check. -/
def pagingNew4gbLoop (directory : ℕ) (flags : ℕ) :
    (n i : ℕ) → (offset : ℤ) → Machine σ → Except Fault (Machine σ)
  | 0, _, _, m => .ok m
  | n + 1, i, offset, m => do
    let (entry, m) ← kzalloc A (4 * pagingTotalEntriesPerTable) m
    if entry = 0 ∨ directory = 0 then .error .nullPointer
    else
      let mem := pagingFillTable entry offset flags m.mem
      let mem := writeU32 mem (directory + 4 * i) (entry ||| flags ||| pagingIsWritable)
      pagingNew4gbLoop directory flags n (i + 1)
        (i32 (offset + pagingTotalEntriesPerTable * pagingPageSize)) { m with mem }

def pagingNew4gb (flags : ℕ) (m : Machine σ) : Except Fault (Paging4gbChunk × Machine σ) := do
  let (directory, m) ← kzalloc A (4 * pagingTotalEntriesPerTable) m
  let m ← pagingNew4gbLoop A directory flags pagingTotalEntriesPerTable 0 0 m
  let (chunk4gb, m) ← kzalloc A 4 m
  if chunk4gb = 0 then throw .nullPointer
  return (⟨chunk4gb, directory⟩, m)

def pagingFree4gb (chunk : Paging4gbChunk) (m : Machine σ) : Machine σ :=
  let m := (List.range 1024).foldl
    (fun m i => kfree A (entryAddress (readU32 m.mem (chunk.directoryEntry + 4 * i))) m) m
  kfree A chunk.addr (kfree A chunk.directoryEntry m)

end MarrowOS
