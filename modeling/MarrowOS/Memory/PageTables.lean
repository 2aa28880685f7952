import MarrowOS.Lib.Overlay
import MarrowOS.Memory.AddressSpace
import Mathlib.Data.List.GetD

/-!
# What mapping does to an address space

An `AddressSpace` is a directory whose 1024 tables are known and lie apart from it and from each
other. `pagingMapTo_pageEntry` says which pages `paging_map_to` maps where, and
`pagingMapTo_outside` that it writes nothing but tables.
-/

namespace MarrowOS

open ByteMem CInt

/-- The directory at `directory` has the tables `tables`. -/
structure AddressSpace (mem : Mem) (directory : ℕ) (tables : List ℕ) : Prop where
  length : tables.length = 1024
  entry : ∀ (i : ℕ) t, tables[i]? = some t → entryAddress (readU32 mem (directory + 4 * i)) = t
  apart : tables.Pairwise fun s t => s + 4096 ≤ t ∨ t + 4096 ≤ s
  directoryApart : ∀ t ∈ tables, directory + 4096 ≤ t ∨ t + 4096 ≤ directory

/-- The byte belongs to one of the tables. -/
def InTables (tables : List ℕ) (x : ℕ) : Prop := ∃ t ∈ tables, t ≤ x ∧ x < t + 4096

/-- The address of the entry of a page. -/
def tableSlot (tables : List ℕ) (page : ℕ) : ℕ := tables.getD (page / 1024) 0 + 4 * (page % 1024)

/-- The entry of a page. -/
def pageAt (mem : Mem) (directory page : ℕ) : ℕ := pageEntry mem directory (4096 * page)

variable {mem mem' : Mem} {directory page p q phys physEnd virt flags val count x : ℕ}
  {tables : List ℕ}

lemma pageEntry_eq_pageAt (mem : Mem) (directory virt : ℕ) :
    pageEntry mem directory virt = pageAt mem directory (virt / 4096) :=
  (pageEntry_congr (by omega)).symm

/-- Only the directory says where the tables are. -/
lemma AddressSpace.congr (h : AddressSpace mem directory tables)
    (hsame : ∀ x, directory ≤ x → x < directory + 4096 → mem' x = mem x) :
    AddressSpace mem' directory tables := by
  refine ⟨h.length, fun i t hi => ?_, h.apart, h.directoryApart⟩
  have hlt := (List.getElem?_eq_some_iff.mp hi).1
  rw [h.length] at hlt
  rw [readU32_congr fun x h₀ h₁ => hsame x (by omega) (by omega)]
  exact h.entry i t hi

lemma AddressSpace.getElem? (h : AddressSpace mem directory tables) (hp : p < 2 ^ 20) :
    tables[p / 1024]? = some (tables.getD (p / 1024) 0) := by
  have hlt : p / 1024 < tables.length := by
    rw [h.length]
    omega
  rw [List.getElem?_eq_getElem hlt, List.getD_eq_getElem _ _ hlt]

lemma AddressSpace.getD_mem (h : AddressSpace mem directory tables) (hp : p < 2 ^ 20) :
    tables.getD (p / 1024) 0 ∈ tables := List.mem_of_getElem? (h.getElem? hp)

lemma AddressSpace.entrySlot_eq (h : AddressSpace mem directory tables) (hvirt : virt < 2 ^ 32) :
    entrySlot mem directory virt = tableSlot tables (virt / 4096) := by
  have hget := h.getElem? (show virt / 4096 < 2 ^ 20 by omega)
  have hdirectory : virt / 4096 / 1024 = virt / 4194304 := by omega
  have htable : virt / 4096 % 1024 = virt % 4194304 / 4096 := by omega
  rw [hdirectory] at hget
  rw [entrySlot, tableSlot, h.entry _ _ hget, hdirectory, htable]

lemma AddressSpace.pageAt_eq (h : AddressSpace mem directory tables) (hp : p < 2 ^ 20) :
    pageAt mem directory p = readU32 mem (tableSlot tables p) := by
  have hpage : 4096 * p / 4096 = p := by omega
  rw [pageAt, pageEntry, h.entrySlot_eq (by omega), hpage]

/-- Different pages have entries apart from each other. -/
lemma AddressSpace.slot_apart (h : AddressSpace mem directory tables) (hp : p < 2 ^ 20)
    (hq : q < 2 ^ 20) (hne : p ≠ q) :
    tableSlot tables p + 4 ≤ tableSlot tables q ∨ tableSlot tables q + 4 ≤ tableSlot tables p := by
  unfold tableSlot
  by_cases hsame : p / 1024 = q / 1024
  · rw [hsame]
    omega
  · have hsymm : Std.Symm fun s t : ℕ => s + 4096 ≤ t ∨ t + 4096 ≤ s := ⟨fun _ _ h => h.symm⟩
    rcases List.getElem?_eq_some_iff.mp (h.getElem? hp) with ⟨hpl, hpe⟩
    rcases List.getElem?_eq_some_iff.mp (h.getElem? hq) with ⟨hql, hqe⟩
    have hapart : tables[p / 1024] + 4096 ≤ tables[q / 1024] ∨
        tables[q / 1024] + 4096 ≤ tables[p / 1024] := by
      rcases Nat.lt_or_gt_of_ne hsame with hlt | hlt
      · exact List.pairwise_iff_getElem.mp h.apart _ _ hpl hql hlt
      · exact (List.pairwise_iff_getElem.mp h.apart _ _ hql hpl hlt).symm
    rw [hpe, hqe] at hapart
    omega

/-- A byte of an entry belongs to a table. -/
lemma AddressSpace.slot_inTables (h : AddressSpace mem directory tables) (hp : p < 2 ^ 20)
    (h₀ : tableSlot tables p ≤ x) (h₁ : x < tableSlot tables p + 4) : InTables tables x := by
  refine ⟨_, h.getD_mem hp, ?_, ?_⟩ <;> unfold tableSlot at h₀ h₁ <;> omega

/-- Writing tables only leaves the directory alone. -/
lemma AddressSpace.write (h : AddressSpace mem directory tables)
    (hout : ∀ x, ¬ InTables tables x → mem' x = mem x) : AddressSpace mem' directory tables := by
  apply h.congr
  intro x h₀ h₁
  apply hout
  rintro ⟨t, ht, ht₀, ht₁⟩
  have hapart := h.directoryApart t ht
  omega

/-- The entries are those that the tables hold. -/
lemma AddressSpace.pageAt_congr (h : AddressSpace mem directory tables)
    (h' : AddressSpace mem' directory tables) (hsame : ∀ x, InTables tables x → mem' x = mem x)
    (hp : p < 2 ^ 20) : pageAt mem' directory p = pageAt mem directory p := by
  rw [h.pageAt_eq hp, h'.pageAt_eq hp]
  exact readU32_congr fun x h₀ h₁ => hsame x (h.slot_inTables hp h₀ h₁)

/-! ## Mapping -/

/-- How far behind page `q` page `p` lies, around the end of the address space. -/
def pagesBehind (q p : ℕ) : ℕ := (p + 2 ^ 20 - q % 2 ^ 20) % 2 ^ 20

/-- One page. -/
lemma AddressSpace.pagingMap (h : AddressSpace mem directory tables) {chunk : Paging4gbChunk}
    (hchunk : chunk.directoryEntry = directory) (hvirt : virt % 4096 = 0) (hlt : virt < 2 ^ 32)
    (hphys : phys % 4096 = 0) :
    MarrowOS.pagingMap chunk virt phys flags mem =
      (0, writeU32 mem (tableSlot tables (virt / 4096)) (phys ||| flags)) := by
  rw [pagingMap_eq hvirt hphys, hchunk, h.entrySlot_eq hlt]

/-- The word of a page is written. -/
lemma AddressSpace.writeSlot_outside (h : AddressSpace mem directory tables) (hp : p < 2 ^ 20)
    (hx : ¬ InTables tables x) : writeU32 mem (tableSlot tables p) val x = mem x := by
  apply writeU32_of_outside
  by_contra hin
  exact hx (h.slot_inTables hp (by omega) (by omega))

/-- `paging_set` writes tables only. -/
lemma AddressSpace.pagingSet_outside (h : AddressSpace mem directory tables) (hvirt : virt < 2 ^ 32)
    (hx : ¬ InTables tables x) : (pagingSet mem directory virt val).2 x = mem x := by
  by_cases haligned : virt % 4096 = 0
  · rw [pagingSet_eq haligned, h.entrySlot_eq hvirt]
    exact h.writeSlot_outside (by omega) hx
  · have hbad : pagingIsAligned virt = false := by simp [pagingIsAligned, haligned]
    rw [pagingSet, hbad]
    rfl

/-- The loop writes tables only, whatever the words are. -/
lemma AddressSpace.pagingMapRangeLoop_outside {chunk : Paging4gbChunk}
    (hchunk : chunk.directoryEntry = directory) (hx : ¬ InTables tables x) :
    ∀ (count virt phys : ℕ) (mem : Mem), AddressSpace mem directory tables → virt % 4096 = 0 →
      virt < 2 ^ 32 → phys % 4096 = 0 →
      (pagingMapRangeLoop chunk flags count virt phys 0 mem).2 x = mem x := by
  intro count
  induction count with
  | zero => exact fun _ _ _ _ _ _ _ => rfl
  | succ count ih =>
    intro virt phys mem h hvirt hlt hphys
    have hpage : virt / 4096 < 2 ^ 20 := by omega
    rw [MarrowOS.pagingMapRangeLoop, h.pagingMap hchunk hvirt hlt hphys]
    simp only [pagingPageSize]
    rw [if_neg (by omega), ih _ _ _ (h.write fun y hy => h.writeSlot_outside hpage hy)
      (by simp only [u32]; omega) (u32_lt _) (by simp only [u32]; omega)]
    exact h.writeSlot_outside hpage hx

/-- The loop maps `count` pages from `virt` on. -/
lemma AddressSpace.pagingMapRangeLoop {chunk : Paging4gbChunk}
    (hchunk : chunk.directoryEntry = directory) (hflags : flags < 4096) :
    ∀ (count virt phys : ℕ) (mem : Mem), AddressSpace mem directory tables → virt % 4096 = 0 →
      virt < 2 ^ 32 → phys % 4096 = 0 → phys + 4096 * count < 2 ^ 32 →
      ∀ p, p < 2 ^ 20 →
        pageAt (pagingMapRangeLoop chunk flags count virt phys 0 mem).2 directory p =
        if pagesBehind (virt / 4096) p < count then
          phys + 4096 * pagesBehind (virt / 4096) p ||| flags
        else pageAt mem directory p := by
  intro count
  -- on the pages that are left; the virtual address may wrap around
  induction count with
  | zero =>
    intro virt phys mem _ _ _ _ _ p _
    rw [if_neg (Nat.not_lt_zero _)]
    rfl
  | succ count ih =>
    intro virt phys mem h hvirt hlt hphys hend
    have hpage : virt / 4096 < 2 ^ 20 := by omega
    have hfits : phys + 4096 < 2 ^ 32 :=
      lt_of_le_of_lt (Nat.add_le_add_left (Nat.le_mul_of_pos_right 4096 count.succ_pos) phys) hend
    rw [MarrowOS.pagingMapRangeLoop, h.pagingMap hchunk hvirt hlt hphys]
    simp only [pagingPageSize]
    rw [if_neg (by omega)]
    -- the first entry is written, the others are not touched by that
    have hnext : AddressSpace (writeU32 mem (tableSlot tables (virt / 4096)) (phys ||| flags))
        directory tables := h.write fun x hx => h.writeSlot_outside hpage hx
    have hword : phys ||| flags < 2 ^ 32 := by
      rw [or_flags hphys hflags]
      omega
    have hentry : ∀ p, p < 2 ^ 20 →
        pageAt (writeU32 mem (tableSlot tables (virt / 4096)) (phys ||| flags)) directory p =
          if p = virt / 4096 then phys ||| flags else pageAt mem directory p := by
      intro p hp
      rw [hnext.pageAt_eq hp]
      by_cases heq : p = virt / 4096
      · rw [if_pos heq, heq, readU32_writeU32_self hword]
      · rw [if_neg heq, h.pageAt_eq hp,
          readU32_writeU32_of_apart (h.slot_apart hp hpage heq)]
    have hphysNext : u32 (phys + (4096 : ℕ)) = phys + 4096 := by
      rw [← Nat.cast_add]
      exact u32_natCast_of_lt hfits
    have hvirtNext : u32 (virt + (4096 : ℕ)) = (virt + 4096) % 2 ^ 32 := u32_natCast (virt + 4096)
    rw [hphysNext, hvirtNext]
    have hrest := ih ((virt + 4096) % 2 ^ 32) (phys + 4096) _ hnext (by omega) (by omega)
      (by omega) (by omega)
    intro p hp
    rw [hrest p hp, hentry p hp]
    by_cases heq : p = virt / 4096
    · -- the first page comes up again only after all the others
      have h0 : pagesBehind (virt / 4096) p = 0 := by
        unfold pagesBehind
        omega
      have hlast : pagesBehind ((virt + 4096) % 2 ^ 32 / 4096) p = 2 ^ 20 - 1 := by
        unfold pagesBehind
        omega
      rw [h0, hlast, if_neg (by omega), if_pos heq, if_pos (by omega)]
      rfl
    · have hsucc : pagesBehind (virt / 4096) p =
          pagesBehind ((virt + 4096) % 2 ^ 32 / 4096) p + 1 := by
        unfold pagesBehind
        omega
      rw [hsucc, if_neg heq]
      by_cases hin : pagesBehind ((virt + 4096) % 2 ^ 32 / 4096) p < count
      · have hphys' : phys + 4096 + 4096 * pagesBehind ((virt + 4096) % 2 ^ 32 / 4096) p =
            phys + 4096 * (pagesBehind ((virt + 4096) % 2 ^ 32 / 4096) p + 1) := by ring
        rw [if_pos hin, if_pos (Nat.succ_lt_succ hin), hphys']
      · rw [if_neg hin, if_neg (by omega)]

variable {chunk : Paging4gbChunk}

/-- Whether `paging_map_to` succeeds. -/
def MapsTo (virt phys physEnd : ℕ) : Prop :=
  virt % 4096 = 0 ∧ phys % 4096 = 0 ∧ physEnd % 4096 = 0 ∧ phys ≤ physEnd

instance : Decidable (MapsTo virt phys physEnd) :=
  inferInstanceAs (Decidable (_ ∧ _ ∧ _ ∧ _))

lemma pagingMapTo_of_not_mapsTo (h : ¬ MapsTo virt phys physEnd) :
    pagingMapTo chunk virt phys physEnd flags mem = (-einvarg, mem) := by
  unfold pagingMapTo
  simp only [pagingPageSize]
  by_cases h₁ : virt % 4096 = 0
  · by_cases h₂ : phys % 4096 = 0
    · by_cases h₃ : physEnd % 4096 = 0
      · have h₄ : physEnd < phys := by
          by_contra hle
          exact h ⟨h₁, h₂, h₃, by omega⟩
        rw [if_neg (not_not.mpr h₁), if_neg (not_not.mpr h₂), if_neg (not_not.mpr h₃), if_pos h₄]
      · rw [if_neg (not_not.mpr h₁), if_neg (not_not.mpr h₂), if_pos h₃]
    · rw [if_neg (not_not.mpr h₁), if_pos h₂]
  · rw [if_pos h₁]

/-- The result of `paging_map_to`. -/
lemma pagingMapTo_res : (pagingMapTo chunk virt phys physEnd flags mem).1 =
    if MapsTo virt phys physEnd then 0 else -einvarg := by
  by_cases h : MapsTo virt phys physEnd
  · rw [if_pos h]
    exact pagingMapTo_fst h.1 h.2.1 h.2.2.1 h.2.2.2
  · rw [if_neg h, pagingMapTo_of_not_mapsTo h]

/-- `paging_map_to` writes tables only. -/
lemma AddressSpace.pagingMapTo_outside (h : AddressSpace mem directory tables)
    (hchunk : chunk.directoryEntry = directory) (hvirt : virt < 2 ^ 32)
    (hx : ¬ InTables tables x) :
    (pagingMapTo chunk virt phys physEnd flags mem).2 x = mem x := by
  by_cases hmaps : MapsTo virt phys physEnd
  · rcases hmaps with ⟨h₁, h₂, h₃, h₄⟩
    rw [pagingMapTo_eq h₁ h₂ h₃ h₄]
    exact AddressSpace.pagingMapRangeLoop_outside hchunk hx _ _ _ _ h h₁ hvirt h₂
  · rw [pagingMapTo_of_not_mapsTo hmaps]

lemma AddressSpace.pagingMapTo (h : AddressSpace mem directory tables)
    (hchunk : chunk.directoryEntry = directory) (hvirt : virt < 2 ^ 32) :
    AddressSpace (pagingMapTo chunk virt phys physEnd flags mem).2 directory tables :=
  h.write fun _ hx => h.pagingMapTo_outside hchunk hvirt hx

/-- The pages that a successful `paging_map_to` maps, and where. -/
theorem AddressSpace.pagingMapTo_pageAt (h : AddressSpace mem directory tables)
    (hchunk : chunk.directoryEntry = directory) (hflags : flags < 4096) (hvirt : virt < 2 ^ 32)
    (hend : physEnd < 2 ^ 32) (hmaps : MapsTo virt phys physEnd) (hp : p < 2 ^ 20) :
    pageAt (MarrowOS.pagingMapTo chunk virt phys physEnd flags mem).2 directory p =
      if pagesBehind (virt / 4096) p < (physEnd - phys) / 4096 then
        phys + 4096 * pagesBehind (virt / 4096) p ||| flags
      else pageAt mem directory p := by
  rcases hmaps with ⟨h₁, h₂, h₃, h₄⟩
  rw [pagingMapTo_eq h₁ h₂ h₃ h₄]
  exact AddressSpace.pagingMapRangeLoop hchunk hflags _ _ _ _ h h₁ hvirt h₂ (by omega) p hp

/-- Mapping pages to themselves, below the end of the address space. -/
lemma AddressSpace.pagingMapTo_self (h : AddressSpace mem directory tables)
    (hchunk : chunk.directoryEntry = directory) (hflags : flags < 4096) (hvirt : virt % 4096 = 0)
    (hend : virt + 4096 * count < 2 ^ 32) (hp : p < 2 ^ 20) :
    pageAt (MarrowOS.pagingMapTo chunk virt virt (virt + 4096 * count) flags mem).2 directory p =
      if virt / 4096 ≤ p ∧ p < virt / 4096 + count then 4096 * p ||| flags
      else pageAt mem directory p := by
  have hmaps : MapsTo virt virt (virt + 4096 * count) := ⟨hvirt, hvirt, by omega, by omega⟩
  rw [h.pagingMapTo_pageAt hchunk hflags (by omega) hend hmaps hp]
  have hcount : (virt + 4096 * count - virt) / 4096 = count := by omega
  rw [hcount]
  by_cases hin : virt / 4096 ≤ p ∧ p < virt / 4096 + count
  · have hbehind : pagesBehind (virt / 4096) p = p - virt / 4096 := by
      unfold pagesBehind
      omega
    have htarget : virt + 4096 * (p - virt / 4096) = 4096 * p := by omega
    rw [if_pos hin, hbehind, if_pos (by omega), htarget]
  · rw [if_neg hin, if_neg]
    intro hlt
    apply hin
    unfold pagesBehind at hlt
    omega

/-! ## Mappings -/

/-- The arguments of a call of `paging_map_to`. -/
structure Mapping where
  virt : ℕ
  phys : ℕ
  physEnd : ℕ
  flags : ℕ

/-- The page is one of those that are mapped. -/
def Mapping.Covers (m : Mapping) (p : ℕ) : Prop :=
  pagesBehind (m.virt / 4096) p < (m.physEnd - m.phys) / 4096

instance (m : Mapping) (p : ℕ) : Decidable (m.Covers p) := Nat.decLt _ _

/-- The physical page that a page is mapped to. -/
def Mapping.target (m : Mapping) (p : ℕ) : ℕ := m.phys + 4096 * pagesBehind (m.virt / 4096) p

/-- The entries that are written. -/
def Mapping.patch (m : Mapping) (p : ℕ) : Option ℕ :=
  if m.Covers p then some (m.target p ||| m.flags) else none

/-- The call of `paging_map_to` succeeds. -/
def Mapping.Valid (m : Mapping) : Prop := MapsTo m.virt m.phys m.physEnd

instance (m : Mapping) : Decidable m.Valid := inferInstanceAs (Decidable (MapsTo _ _ _))

/-- The arguments are words. -/
structure Mapping.InRange (m : Mapping) : Prop where
  virt : m.virt < 2 ^ 32
  physEnd : m.physEnd < 2 ^ 32
  flags : m.flags < 4096

def Mapping.pagingMapTo (m : Mapping) (chunk : Paging4gbChunk) (mem : Mem) : ℤ × Mem :=
  MarrowOS.pagingMapTo chunk m.virt m.phys m.physEnd m.flags mem

variable {m : Mapping}

/-- A covered page is mapped to a page below the end of the mapping. -/
lemma Mapping.target_lt (hvalid : m.Valid) (hcovers : m.Covers p) :
    m.target p % 4096 = 0 ∧ m.phys ≤ m.target p ∧ m.target p + 4096 ≤ m.physEnd := by
  rcases hvalid with ⟨-, hphys, hend, hle⟩
  unfold Mapping.Covers at hcovers
  unfold Mapping.target
  omega

/-- What one call does to an address space. -/
lemma AddressSpace.mapping (h : AddressSpace mem directory tables)
    (hchunk : chunk.directoryEntry = directory) (hrange : m.InRange) :
    (m.pagingMapTo chunk mem).1 = (if m.Valid then 0 else -einvarg) ∧
    AddressSpace (m.pagingMapTo chunk mem).2 directory tables ∧
    (∀ x, ¬ InTables tables x → (m.pagingMapTo chunk mem).2 x = mem x) ∧
    ∀ p < 2 ^ 20, pageAt (m.pagingMapTo chunk mem).2 directory p =
      if m.Valid then Overlay.patched (pageAt mem directory) m.patch p
      else pageAt mem directory p := by
  refine ⟨pagingMapTo_res, h.pagingMapTo hchunk hrange.virt,
    fun x hx => h.pagingMapTo_outside hchunk hrange.virt hx, fun p hp => ?_⟩
  by_cases hvalid : m.Valid
  · rw [if_pos hvalid, Mapping.pagingMapTo,
      h.pagingMapTo_pageAt hchunk hrange.flags hrange.virt hrange.physEnd hvalid hp]
    by_cases hcovers : m.Covers p
    · have hpatch : m.patch p = some (m.target p ||| m.flags) := if_pos hcovers
      rw [Overlay.patched_of_some hpatch]
      exact if_pos hcovers
    · have hpatch : m.patch p = none := if_neg hcovers
      rw [Overlay.patched_of_none hpatch]
      exact if_neg hcovers
  · rw [if_neg hvalid, Mapping.pagingMapTo, pagingMapTo_of_not_mapsTo hvalid]

end MarrowOS
