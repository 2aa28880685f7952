import MarrowOS.Memory.PagingTheorems

/-!
# Address spaces as the processor sees them

The processor walks a page directory by itself: the entry of a virtual address, the physical
address it translates to, and who may write there. `paging_get_physical_address` computes the
same translation.
-/

namespace MarrowOS

open ByteMem CInt

variable {mem mem' : Mem} {directory virt phys flags entry : ℕ}

/-! ## Entries -/

/-- The address part of a word is the word without its low twelve bits. -/
lemma entryAddress_eq (h : entry < 2 ^ 32) : entryAddress entry = entry / 4096 * 4096 := by
  have hmask : (0xfffff000 : ℕ) = (2 ^ 20 - 1) <<< 12 := by decide
  have hshift : entry / 4096 * 4096 = (entry >>> 12) <<< 12 := by
    rw [Nat.shiftLeft_eq, Nat.shiftRight_eq_div_pow]
  have hhigh : ∀ i, 32 ≤ i → entry.testBit i = false := by
    intro i hi
    apply Nat.testBit_lt_two_pow
    exact lt_of_lt_of_le h (Nat.pow_le_pow_right (by decide) hi)
  rw [entryAddress, hmask, hshift]
  apply Nat.eq_of_testBit_eq
  intro i
  rw [Nat.testBit_and, Nat.testBit_shiftLeft, Nat.testBit_shiftLeft, Nat.testBit_two_pow_sub_one,
    Nat.testBit_shiftRight]
  by_cases hlow : i ≥ 12
  · rw [Nat.add_sub_cancel' hlow]
    by_cases hi : i < 32
    · simp [hlow, show i - 12 < 20 by omega]
    · simp [hhigh i (by omega)]
  · simp [hlow]

lemma entryAddress_lt (h : entry < 2 ^ 32) : entryAddress entry < 2 ^ 32 := by
  rw [entryAddress_eq h]
  omega

lemma entryAddress_mod (h : entry < 2 ^ 32) : entryAddress entry % 4096 = 0 := by
  rw [entryAddress_eq h]
  omega

/-- A page address with flags. -/
lemma or_flags (hphys : phys % 4096 = 0) (hflags : flags < 4096) :
    phys ||| flags = phys + flags := by
  have hmul : phys = 2 ^ 12 * (phys / 4096) := by omega
  rw [hmul]
  exact (Nat.two_pow_add_eq_or_of_lt hflags _).symm

lemma entryAddress_or (hphys : phys % 4096 = 0) (hlt : phys < 2 ^ 32) (hflags : flags < 4096) :
    entryAddress (phys ||| flags) = phys := by
  rw [or_flags hphys hflags, entryAddress_eq (by omega)]
  omega

/-! ## Translation -/

/-- The table entry the processor finds for a virtual address. -/
def pageEntry (mem : Mem) (directory virt : ℕ) : ℕ := readU32 mem (entrySlot mem directory virt)

/-- The physical address the processor goes to. -/
def translate (mem : Mem) (directory virt : ℕ) : ℕ :=
  entryAddress (pageEntry mem directory virt) + virt % 4096

/-- Present, accessible to the user and writable. -/
def UserWritable (entry : ℕ) : Prop :=
  entry &&& pagingIsPresent ≠ 0 ∧ entry &&& pagingAccessFromAll ≠ 0 ∧ entry &&& pagingIsWritable ≠ 0

instance : DecidablePred UserWritable := fun _ => inferInstanceAs (Decidable (_ ∧ _ ∧ _))

lemma pageEntry_lt (mem : Mem) (directory virt : ℕ) : pageEntry mem directory virt < 2 ^ 32 :=
  readU32_lt _ _

/-- All addresses of a page have one entry. -/
lemma pageEntry_congr {virt' : ℕ} (h : virt' / 4096 = virt / 4096) :
    pageEntry mem directory virt' = pageEntry mem directory virt := by
  have hdirectory : virt' / 4194304 = virt / 4194304 := by omega
  have htable : virt' % 4194304 / 4096 = virt % 4194304 / 4096 := by omega
  unfold pageEntry entrySlot
  rw [hdirectory, htable]

lemma translate_lt (mem : Mem) (directory virt : ℕ) : translate mem directory virt < 2 ^ 32 := by
  have hlt := entryAddress_lt (pageEntry_lt mem directory virt)
  have hmod := entryAddress_mod (pageEntry_lt mem directory virt)
  unfold translate
  omega

/-- The kernel's translation is the processor's. -/
lemma pagingGetPhysicalAddress_eq (mem : Mem) (directory virt : ℕ) :
    pagingGetPhysicalAddress mem directory virt = translate mem directory virt := by
  have hlower : pagingAlignToLowerPage virt = virt - virt % 4096 := rfl
  have haligned : (virt - virt % 4096) % 4096 = 0 := by omega
  have hentry : pagingGet mem directory (virt - virt % 4096) = pageEntry mem directory virt := by
    rw [pagingGet_eq haligned]
    exact pageEntry_congr (by omega)
  have hlt := translate_lt mem directory virt
  unfold pagingGetPhysicalAddress
  simp only [hlower, hentry]
  rw [show virt - (virt - virt % 4096) = virt % 4096 by omega]
  unfold translate at hlt ⊢
  rw [← Nat.cast_add, u32_natCast_of_lt hlt]

end MarrowOS
