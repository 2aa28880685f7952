import MarrowOS.Memory.Paging
import MarrowOS.Task.TaskList

/-!
# System calls on processes (`isr80h/process.c`)

A system call runs on the kernel's page directory, which maps every page to itself, so that the
addresses it stores to are physical ones. What it stores is a list of bytes with their addresses,
in the order of the stores.
-/

namespace MarrowOS

open ByteMem CInt

/-- `struct process_arguments`. -/
structure ProcessArguments where
  argc : ℕ
  argv : ℕ
deriving DecidableEq, Repr

/-- A byte that is stored. -/
structure ByteStore where
  addr : ℕ
  val : UInt8
deriving DecidableEq, Repr

/-- A 32-bit store, byte by byte; addresses wrap at the end of the address space. -/
def storeU32 (ptr word : ℕ) : List ByteStore :=
  (List.range 4).map fun (k : ℕ) => ⟨u32 (ptr + k), byteOf word k⟩

/-- Perform the stores. -/
def applyStores (stores : List ByteStore) (mem : Mem) : Mem :=
  stores.foldl (fun mem s => Function.update mem s.addr s.val) mem

def taskVirtualAddressToPhysical (s : TaskList) (task virtualAddress : ℕ) (mem : Mem) : ℕ :=
  pagingGetPhysicalAddress mem (s.tasks task).pageDirectory.directoryEntry virtualAddress

/-- `process_get_arguments`, into `*argc` and `*argv`. -/
def processGetArguments (arguments : ProcessArguments) (argc argv : ℕ) : List ByteStore :=
  storeU32 argc arguments.argc ++ storeU32 argv arguments.argv

/-- `virtualAddress` is the user's pointer, the first item on the stack of the current task, and
`arguments` those of its process. -/
def isr80hCommand8GetProgramArguments (arguments : ProcessArguments) (virtualAddress : ℕ)
    (s : TaskList) (mem : Mem) : List ByteStore :=
  let ptr := taskVirtualAddressToPhysical s s.currentTask virtualAddress mem
  processGetArguments arguments ptr (u32 (ptr + 4))

end MarrowOS
