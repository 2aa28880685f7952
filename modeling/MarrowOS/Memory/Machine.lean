import MarrowOS.Config
import MarrowOS.Lib.ByteMem
import MarrowOS.Lib.Fallible

/-!
# The kernel's memory (`kheap.c`, `memory.c`)

The kernel allocates through `kmalloc`/`kzalloc`/`kfree` only. The code above the heap is
modelled over an `Allocator`, so that it can be run on the kernel heap of `heap.c`, on a heap
instrumented with its history, or on one that fails on purpose. A `Machine` is the
allocator's state and the physical memory, which holds the page tables and the loaded files.
-/

namespace MarrowOS

open ByteMem

/-- `kmalloc` and `kfree` over an allocator state `σ`; `kmalloc` answers `0` on failure. -/
structure Allocator (σ : Type) where
  kmalloc : ℕ → σ → ℕ × σ
  kfree : ℕ → σ → σ

/-- The allocator's state and physical memory. -/
structure Machine (σ : Type) where
  heap : σ
  mem : Mem

variable {σ : Type}

/-- A `memset` past the end of the address space would go on at address `0` and overwrite the
kernel. -/
def memset (ptr : ℕ) (c : UInt8) (size : ℕ) (mem : Mem) : Except Fault Mem :=
  if 2 ^ 32 < ptr + size then .error .outOfBounds else .ok (fill mem ptr size c)

/-- `kzalloc`: allocate and clear. -/
def kzalloc (A : Allocator σ) (size : ℕ) (m : Machine σ) : Except Fault (ℕ × Machine σ) := do
  let (ptr, heap) := A.kmalloc size m.heap
  if ptr = 0 then return (0, { m with heap })
  else
    let mem ← memset ptr 0 size m.mem
    return (ptr, { heap, mem })

def kfree (A : Allocator σ) (ptr : ℕ) (m : Machine σ) : Machine σ :=
  { m with heap := A.kfree ptr m.heap }

@[simp] lemma kfree_mem (A : Allocator σ) (ptr : ℕ) (m : Machine σ) :
    (kfree A ptr m).mem = m.mem := rfl

@[simp] lemma kfree_heap (A : Allocator σ) (ptr : ℕ) (m : Machine σ) :
    (kfree A ptr m).heap = A.kfree ptr m.heap := rfl

end MarrowOS
