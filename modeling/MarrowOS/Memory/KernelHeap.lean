import MarrowOS.Memory.HeapTheorems

/-!
# The kernel heap (`kheap.c`)

`kmalloc` and `kfree` on the kernel's heap. A request for more blocks than the longest run of
free ones is sometimes answered with a shorter run; a history variable says whether that ever
happened.
-/

namespace MarrowOS

/-- The kernel heap, and whether it ever answered a request it could not satisfy. -/
structure KernelHeap where
  heap : Heap
  overdrawn : Bool

/-- `kmalloc` and `kfree`. -/
def kernelAllocator : Allocator KernelHeap where
  kmalloc size h :=
    let (ptr, heap) := heapMalloc h.heap size
    let fits := decide (HasFreeRun h.heap.table (heapTotalBlocks size))
    (ptr, ⟨heap, h.overdrawn || (ptr != 0 && !fits)⟩)
  kfree ptr h := { h with heap := heapFree h.heap ptr }

end MarrowOS
