import MarrowOS.Fs.Fat16ReadTheorems
import Mathlib.Tactic.IntervalCases

/-!
# Reading a file from its start

Read in one call from position `0`, a chained file is the data of its clusters in chain order,
however they lie on the disk (`fat16Read_wholeFile`). A call that asks for more than the
clusters hold fails where the chain ends.
-/

namespace MarrowOS

open CInt Fallible Slice

/-- The data of cluster `cluster`. -/
def clusterData (disk : Disk) (cluster : ℕ) : List UInt8 :=
  slice disk.device.byte (disk.clusterPos cluster) (sizeOfClusterBytes disk)

/-- The data of the clusters `c 0, …, c (k - 1)`, one after the other. -/
def chainData (disk : Disk) (c : ℕ → ℕ) (k : ℕ) : List UInt8 :=
  (List.range k).flatMap fun i => clusterData disk (c i)

/-- Byte `j` of the file: cluster `j / size` of the chain, `j % size` bytes into it. -/
def fileByte (disk : Disk) (c : ℕ → ℕ) (j : ℕ) : UInt8 :=
  disk.device.byte (disk.clusterPos (c (j / sizeOfClusterBytes disk)) +
    j % sizeOfClusterBytes disk)

/-- The clusters of the chain end below position `2 ^ 31` of the disk. -/
def ClustersFit (disk : Disk) (c : ℕ → ℕ) (k : ℕ) : Prop :=
  ∀ i < k, disk.clusterPos (c i) + sizeOfClusterBytes disk < 2 ^ 31

variable {disk : Disk} {c : ℕ → ℕ} {k : ℕ}

lemma clusterData_eq (hC : 0 < sizeOfClusterBytes disk) (i : ℕ) :
    clusterData disk (c i) =
      slice (fileByte disk c) (i * sizeOfClusterBytes disk) (sizeOfClusterBytes disk) := by
  refine slice_congr fun t ht => ?_
  unfold fileByte
  rw [Nat.add_comm (i * _), Nat.add_mul_div_right _ _ hC, Nat.div_eq_of_lt ht,
    Nat.add_mul_mod_self_right, Nat.mod_eq_of_lt ht, Nat.zero_add]

/-- The data of the chain is the file, byte by byte. -/
lemma chainData_eq (hC : 0 < sizeOfClusterBytes disk) (c : ℕ → ℕ) (k : ℕ) :
    chainData disk c k = slice (fileByte disk c) 0 (k * sizeOfClusterBytes disk) := by
  induction k with
  | zero => rw [Nat.zero_mul]; rfl
  | succ k ih =>
    have hdata := clusterData_eq (c := c) hC k
    unfold chainData at ih ⊢
    rw [List.range_succ, List.flatMap_append, ih, Nat.succ_mul, slice_add, Nat.zero_add,
      List.flatMap_singleton, hdata]

lemma pieceByte_zero (disk : Disk) (c : ℕ → ℕ) (t : ℕ) :
    pieceByte disk c 0 t = fileByte disk c t := by
  unfold pieceByte fileByte
  rw [Nat.zero_div, Nat.zero_mod, Nat.zero_add, Nat.add_zero]

lemma ClustersFit.piecesFit (h : ClustersFit disk c k) {total : ℕ}
    (hk : total ≤ k * sizeOfClusterBytes disk) :
    PiecesFit disk c 0 total := by
  intro j hj
  have hjk : j < k := lt_of_mul_lt_mul_right (hj.trans_le hk) (Nat.zero_le _)
  have hfit := h j hjk
  rw [Nat.zero_div, Nat.zero_mod, Nat.zero_add, Nat.add_zero]
  have hmin := min_le_left (sizeOfClusterBytes disk) (total - j * sizeOfClusterBytes disk)
  omega

/-! ## Past the end of the chain -/

lemma fat16GetClusterForOffset_end (hchain : FatChain disk c k)
    (hC : 0 < sizeOfClusterBytes disk)
    (hend : disk.fat (c (k - 1)) = 0 ∨ disk.fat (c (k - 1)) = 0xFFF8 ∨
      disk.fat (c (k - 1)) = 0xFFFF) :
    fat16GetClusterForOffset disk (c 0 : ℕ) (k * sizeOfClusterBytes disk : ℕ) = .ok (-eio) := by
  unfold fat16GetClusterForOffset
  rw [if_neg hC.ne', ← Int.ofNat_tdiv, Nat.mul_div_cancel _ hC]
  exact fat16GetClusterForOffsetLoop_end hchain hend k 0 hchain.pos (by omega)

/-- With `n` clusters to go, a read of more than they hold fails. -/
lemma fat16ReadInternalFromStream_end (hchain : FatChain disk c k)
    (hroot : 0 ≤ disk.fsPrivate.rootDirectory.endingSectorPos)
    (hC : 0 < sizeOfClusterBytes disk) (hfit : ClustersFit disk c k)
    (hend : disk.fat (c (k - 1)) = 0 ∨ disk.fat (c (k - 1)) = 0xFFF8 ∨
      disk.fat (c (k - 1)) = 0xFFFF) :
    ∀ n i total : ℕ, i + n = k → n * sizeOfClusterBytes disk < total →
      i * sizeOfClusterBytes disk + total < 2 ^ 31 →
      ∃ out, fat16ReadInternalFromStream disk (c 0 : ℕ) (i * sizeOfClusterBytes disk : ℕ) total =
        .ok (-eio, out) := by
  intro n
  induction n with
  | zero =>
    intro i total hi _ _
    obtain rfl : i = k := by omega
    rw [fat16ReadInternalFromStream, fat16GetClusterForOffset_end hchain hC hend]
    exact ⟨[], rfl⟩
  | succ n ih =>
    intro i total hi htotal hint
    rw [Nat.succ_mul] at htotal
    have hlt : sizeOfClusterBytes disk < total := by omega
    have hdiv : i * sizeOfClusterBytes disk / sizeOfClusterBytes disk = i :=
      Nat.mul_div_cancel _ hC
    have hfiti : disk.clusterPos (c i) + 0 + sizeOfClusterBytes disk < 2 ^ 31 := by
      rw [Nat.add_zero]
      exact hfit i (by omega)
    obtain ⟨read, hread, -⟩ := exists_clusterRead (hchain.two_le i (by omega)) hroot
      (sectorsPerCluster_pos hC) hfiti
    obtain ⟨out, hout⟩ := ih (i + 1) (total - sizeOfClusterBytes disk) (by omega) (by omega)
      (by rw [Nat.succ_mul]; omega)
    rw [fat16ReadInternalFromStream_step hchain hC (by rw [hdiv]; omega), hdiv,
      Nat.mul_mod_left, min_eq_left hlt.le, hread, ok_bind, if_pos hlt,
      checkedInt_of_range (by omega) (by omega), ok_bind, ← Nat.succ_mul, hout, ok_bind]
    exact ⟨_, rfl⟩

/-! ## One call -/

/-- A call for one item from the start of the file. -/
lemma fat16Read_one {descriptor : FatFileDescriptor} {ptr : Addr} {item : FatDirectoryItem}
    (hitem : descriptor.item.payload = .item ptr item) (hptr : ptr ≠ 0)
    (hpos : descriptor.pos = 0) {first size : ℕ} (hfirst : fat16GetFirstCluster item = first)
    (hlt : first < 2 ^ 31) (hsize : size < 2 ^ 31) {res : ℤ} {out : List UInt8}
    (hread : fat16ReadInternalFromStream disk first 0 size = .ok (res, out)) :
    fat16Read disk descriptor size 1 =
      .ok (if res < 0 then ⟨res, [out], 0⟩ else ⟨1, [out], size⟩) := by
  have hread' : fat16ReadInternal disk (i32 (fat16GetFirstCluster item))
      (i32 descriptor.pos) (i32 size) = .ok (res, out) := by
    unfold fat16ReadInternal
    rw [hfirst, hpos, i32_of_lt (by omega) (by omega), i32_of_lt (by omega) (by omega),
      i32_of_lt (by omega) (by omega)]
    exact hread
  unfold fat16Read
  rw [hitem]
  simp only [hptr, false_and, if_false]
  rw [fat16ReadLoop, hread', ok_bind]
  by_cases hres : res < 0
  · simp only [if_pos hres, pure_eq_ok, ok_bind, hpos]
  · simp only [if_neg hres, fat16ReadLoop, pure_eq_ok, ok_bind, hpos]
    rw [if_neg (lt_irrefl 0), i32_of_lt (x := ((0 : ℕ) : ℤ)) (by omega) (by omega),
      i32_of_lt (x := ((1 : ℕ) : ℤ)) (by omega) (by omega), Nat.cast_zero, zero_add,
      i32_of_lt (by omega) (by omega), u32_natCast_of_lt (by omega)]
    rfl

/-- **Whole-file read.** -/
theorem fat16Read_wholeFile {descriptor : FatFileDescriptor} {ptr : Addr}
    {item : FatDirectoryItem} (hitem : descriptor.item.payload = .item ptr item)
    (hptr : ptr ≠ 0) (hpos : descriptor.pos = 0) (hfirst : fat16GetFirstCluster item = c 0)
    (hspc : 1 ≤ disk.fsPrivate.header.sectorsPerCluster)
    (hroot : 0 ≤ disk.fsPrivate.rootDirectory.endingSectorPos)
    (hchain : FatChain disk c k) (hfit : ClustersFit disk c k) {size : ℕ} (hone : 1 ≤ size)
    (hsize : size < 2 ^ 31) :
    (size ≤ k * sizeOfClusterBytes disk →
      fat16Read disk descriptor size 1 = .ok ⟨1, [(chainData disk c k).take size], size⟩) ∧
    (k * sizeOfClusterBytes disk < size → (disk.fat (c (k - 1)) = 0 ∨
        disk.fat (c (k - 1)) = 0xFFF8 ∨ disk.fat (c (k - 1)) = 0xFFFF) →
      ∃ r, fat16Read disk descriptor size 1 = .ok r ∧ r.res < 0 ∧ r.pos = descriptor.pos) := by
  have hC : 0 < sizeOfClusterBytes disk := Nat.mul_pos hspc (by decide)
  have hlt : c 0 < 2 ^ 31 := by
    have h := hchain.fatPos_lt 0 hchain.pos
    unfold Disk.fatPos at h
    omega
  constructor
  · intro hk
    have hread := (fat16ReadInternalFromStream_ok_iff hchain hroot hC size 0 hone (by omega)
      (by omega)).mpr ⟨hfit.piecesFit hk, rfl⟩
    have hdata : (chainData disk c k).take size = slice (pieceByte disk c 0) 0 size := by
      rw [chainData_eq hC, take_slice _ _ hk]
      exact slice_congr fun t _ => (pieceByte_zero disk c _).symm
    rw [fat16Read_one hitem hptr hpos hfirst hlt hsize hread, if_neg (lt_irrefl 0), hdata]
  · intro hk hend
    obtain ⟨out, hread⟩ := fat16ReadInternalFromStream_end hchain hroot hC hfit hend k 0 size
      (by omega) hk (by omega)
    rw [Nat.zero_mul] at hread
    refine ⟨_, fat16Read_one hitem hptr hpos hfirst hlt hsize hread, ?_⟩
    rw [if_pos (by decide), hpos]
    exact ⟨(by decide : -eio < 0), rfl⟩

/-! ## A fragmented file -/

/-- A volume of one-sector clusters. The table in sector 1 links cluster 2 to 4 and 4 to 3;
every other sector is filled with its number. -/
def fragmentedDisk : Disk where
  device.sector lba i :=
    if lba = 1 then
      if i = 4 then 4 else if i = 8 then 3 else if i = 6 ∨ i = 7 then 0xFF else 0
    else UInt8.ofNat lba.toNat
  fsPrivate :=
    { header := ⟨1, 1, 1, 16, 1⟩
      rootDirectory := ⟨0, [], 0, 2, 3⟩ }

/-- The clusters of the file, in chain order. -/
def fragmentedChain (i : ℕ) : ℕ := if i = 0 then 2 else if i = 1 then 4 else 3

lemma fragmentedChain_fatChain : FatChain fragmentedDisk fragmentedChain 3 where
  pos := by decide
  two_le := by decide
  fatPos_lt := by decide
  next i hi := by
    have : i < 2 := by omega
    interval_cases i <;> rfl
  not_mark i hi := by
    unfold IsFatMark
    have : i < 2 := by omega
    interval_cases i <;> decide

/-- A descriptor of the file, opened just now. -/
def fragmentedDescriptor : FatFileDescriptor :=
  ⟨⟨4096, .item 8192 ⟨#v[0x41, 0x20, 0x20, 0x20, 0x20, 0x20, 0x20, 0x20], #v[0x20, 0x20, 0x20], 0,
    0, 2, 1536⟩⟩, 0⟩

theorem fat16Read_wholeFile_fragmented :
    fat16Read fragmentedDisk fragmentedDescriptor 1300 1 =
      .ok ⟨1, [(chainData fragmentedDisk fragmentedChain 3).take 1300], 1300⟩ ∧
    ∃ r, fat16Read fragmentedDisk fragmentedDescriptor 1537 1 = .ok r ∧ r.res < 0 ∧
      r.pos = fragmentedDescriptor.pos := by
  have hfit : ClustersFit fragmentedDisk fragmentedChain 3 := by
    unfold ClustersFit
    decide
  constructor
  · exact (fat16Read_wholeFile rfl (by decide) rfl rfl (by decide) (by decide)
      fragmentedChain_fatChain hfit (by decide) (by decide)).1 (by decide)
  · exact (fat16Read_wholeFile rfl (by decide) rfl rfl (by decide) (by decide)
      fragmentedChain_fatChain hfit (by decide) (by decide)).2 (by decide) (by decide)

end MarrowOS
