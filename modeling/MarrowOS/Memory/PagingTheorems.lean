import MarrowOS.Memory.HeapTheorems
import MarrowOS.Memory.Paging

/-!
# What the paging functions compute

`pagingMapTo` succeeds on aligned addresses; it then writes one entry for each page of the
physical range.
-/

namespace MarrowOS

open ByteMem CInt Fallible

variable {mem : Mem} {directory virt phys physEnd val size : ℕ}

/-! ## Alignment -/

/-- Rounding up the end of `size` bytes from a page on gives the end of their blocks. -/
lemma pagingAlignAddress_end (hphys : phys % 4096 = 0)
    (hend : phys + 4096 * blocksFor size < 2 ^ 32) :
    pagingAlignAddress (u32 (phys + size)) = phys + 4096 * blocksFor size := by
  have hsize := le_blocksFor_mul size
  have hblocks : blocksFor size = (size + 4095) / 4096 := rfl
  have hu : u32 ((phys : ℤ) + size) = phys + size := by
    rw [u32_of_lt (by omega) (by omega)]
    omega
  rw [hu, pagingAlignAddress]
  simp only [pagingPageSize]
  split
  · rw [u32_of_lt (by omega) (by omega)]
    omega
  · omega

lemma pagingAlignAddress_mod {ptr : ℕ} : pagingAlignAddress ptr % 4096 = 0 := by
  unfold pagingAlignAddress
  simp only [pagingPageSize]
  split
  · simp only [u32]
    omega
  · omega

/-! ## One entry -/

/-- The address of the table entry that a directory has for a virtual address. -/
def entrySlot (mem : Mem) (directory virt : ℕ) : ℕ :=
  entryAddress (readU32 mem (directory + 4 * (virt / 4194304))) + 4 * (virt % 4194304 / 4096)

lemma pagingSet_eq (hvirt : virt % 4096 = 0) :
    pagingSet mem directory virt val = (0, writeU32 mem (entrySlot mem directory virt) val) := by
  simp [pagingSet, pagingGetIndexes, pagingIsAligned, hvirt, entrySlot]

lemma pagingGet_eq (hvirt : virt % 4096 = 0) :
    pagingGet mem directory virt = readU32 mem (entrySlot mem directory virt) := by
  simp [pagingGet, pagingGetIndexes, pagingIsAligned, hvirt, entrySlot]

variable {chunk : Paging4gbChunk} {flags : ℕ}

lemma pagingMap_eq (hvirt : virt % 4096 = 0) (hphys : phys % 4096 = 0) :
    pagingMap chunk virt phys flags mem =
      (0, writeU32 mem (entrySlot mem chunk.directoryEntry virt) (phys ||| flags)) := by
  rw [pagingMap, if_neg (by simp [hvirt, hphys]), pagingSet_eq hvirt]

/-! ## Ranges -/

lemma pagingMapRangeLoop_fst : ∀ (count virt phys : ℕ) (mem : Mem), virt % 4096 = 0 →
    phys % 4096 = 0 → (pagingMapRangeLoop chunk flags count virt phys 0 mem).1 = 0 := by
  intro count
  induction count with
  | zero => exact fun _ _ _ _ _ => rfl
  | succ count ih =>
    intro virt phys mem hvirt hphys
    rw [pagingMapRangeLoop, pagingMap_eq hvirt hphys]
    simp only [pagingPageSize]
    rw [if_neg (by omega)]
    exact ih _ _ _ (by simp only [u32]; omega) (by simp only [u32]; omega)

lemma pagingMapTo_eq (hvirt : virt % 4096 = 0) (hphys : phys % 4096 = 0)
    (hend : physEnd % 4096 = 0) (hle : phys ≤ physEnd) :
    pagingMapTo chunk virt phys physEnd flags mem =
      pagingMapRangeLoop chunk flags ((physEnd - phys) / 4096) virt phys 0 mem := by
  rw [pagingMapTo, if_neg (by simp [hvirt]), if_neg (by simp [hphys]), if_neg (by simp [hend]),
    if_neg (by omega)]
  simp only [pagingMapRange, pagingPageSize]
  rfl

/-- Mapping an aligned range succeeds. -/
lemma pagingMapTo_fst (hvirt : virt % 4096 = 0) (hphys : phys % 4096 = 0)
    (hend : physEnd % 4096 = 0) (hle : phys ≤ physEnd) :
    (pagingMapTo chunk virt phys physEnd flags mem).1 = 0 := by
  rw [pagingMapTo_eq hvirt hphys hend hle]
  exact pagingMapRangeLoop_fst _ _ _ _ hvirt hphys

/-- A directory that was not allocated is dereferenced. -/
lemma pagingNew4gbLoop_null {σ : Type} {A : Allocator σ} {m m' : Machine σ} {n i : ℕ} {offset : ℤ} :
    pagingNew4gbLoop A 0 flags (n + 1) i offset m ≠ .ok m' := by
  intro hloop
  rw [pagingNew4gbLoop] at hloop
  rcases bind_eq_ok.mp hloop with ⟨⟨e, m₁⟩, -, hloop⟩
  simp at hloop

end MarrowOS
