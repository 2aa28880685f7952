import MarrowOS.Memory.AddressSpace
import MarrowOS.Task.Process

/-!
# Strings of a task (`task.c`, `string.c`)

`copy_string_from_task` reads a string through the page directory of a task, into a block that it
maps there for the time being, and copies it on when the kernel's own directory is active again. An
access of the kernel goes through the directory that is active.
-/

namespace MarrowOS

open ByteMem CInt

/-- The page directory that is active: the kernel's, which maps every page to itself, or a task's,
whose 1024 tables are always present. -/
inductive ActivePage
  | kernel
  | task (directory : ℕ)

/-- Where an access goes to; a page that is not present faults. -/
def ActivePage.physical (page : ActivePage) (mem : Mem) (virt : ℕ) : Option ℕ :=
  match page with
  | .kernel => some virt
  | .task directory =>
    if pageEntry mem directory virt &&& pagingIsPresent ≠ 0 then
      some (translate mem directory virt)
    else none

def ActivePage.load (page : ActivePage) (mem : Mem) (virt : ℕ) : Option UInt8 := do
  let phys ← page.physical mem virt
  return mem phys

def ActivePage.store (page : ActivePage) (mem : Mem) (virt : ℕ) (c : UInt8) : Option Mem := do
  let phys ← page.physical mem virt
  return Function.update mem phys c

/-- The loop of `strncpy` with at most `n` bytes to go, at byte `i`. -/
def strncpyLoop (page : ActivePage) (dest src : ℕ) : (n i : ℕ) → Mem → Option (ℕ × Mem)
  | 0, i, mem => some (i, mem)
  | n + 1, i, mem => do
    let c ← page.load mem (u32 (src + i))
    if c = 0 then return (i, mem)
    let mem ← page.store mem (u32 (dest + i)) c
    strncpyLoop page dest src n (i + 1) mem

def strncpy (page : ActivePage) (dest src : ℕ) (count : ℤ) (mem : Mem) : Option Mem := do
  let (i, mem) ← strncpyLoop page dest src (count - 1).toNat 0 mem
  page.store mem (u32 (dest + i)) 0

/-- `none` when an access faults. The `paging_switch` before the first copy and the `kernel_page`
after it are the active directories of the two copies. -/
def copyStringFromTask (task virtual phys : ℕ) (max : ℤ) (k : Kernel) : Option (ℤ × Kernel) := do
  if max ≥ pagingPageSize then return (-einvarg, k)
  let (tmp, m) ← (kzalloc kernelAllocator (u32 max) k.machine).toOption
  let k := k.withMachine m
  if tmp = 0 then return (-enomem, k)
  let pageDirectory := (k.tasks.tasks task).pageDirectory
  let taskDirectory := pageDirectory.directoryEntry
  let oldEntry := pagingGet k.machine.mem taskDirectory tmp
  let mapped := pagingMap pageDirectory tmp tmp
    (pagingIsWritable ||| pagingIsPresent ||| pagingAccessFromAll) k.machine.mem
  let mem ← strncpy (.task taskDirectory) tmp virtual max mapped.2
  let (res, mem) := pagingSet mem taskDirectory tmp oldEntry
  let k := k.withMem mem
  if res < 0 then return (-eio, k.withMachine (kfree kernelAllocator tmp k.machine))
  let mem ← strncpy .kernel phys tmp max k.machine.mem
  let k := k.withMem mem
  return (res, k.withMachine (kfree kernelAllocator tmp k.machine))

end MarrowOS
