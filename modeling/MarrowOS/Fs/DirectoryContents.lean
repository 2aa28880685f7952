import MarrowOS.Fs.DirectoryLoads
import MarrowOS.Fs.DirectoryScan
import MarrowOS.Fs.WholeFileRead

/-!
# What a load of a subdirectory holds

The entries of a subdirectory are counted in consecutive sectors, from its first cluster on, and
then read along the chain. `loadsChain_iff` says when the two agree: when the sectors behind the
first cluster hold, in front of a terminator, as many live entries as the chain does. So it is for
the clusters that lie one behind the other (`countsChain_of_consecutive`).
-/

namespace MarrowOS

open CInt Fallible Slice

variable {σ : Type} {A : Allocator σ} {disk : Disk} {item : FatDirectoryItem} {c : ℕ → ℕ}
  {k t : ℕ} {s : σ}

/-! ## The two ways to the entries -/

/-- Entry `i` of the directory, in the order of the chain. -/
def chainEntry (disk : Disk) (c : ℕ → ℕ) (i : ℕ) : FatDirectoryItem :=
  fatDirectoryItemOf (slice (fileByte disk c) (32 * i) 32)

/-- The directory in the `k` clusters of the chain has `t` entries, none of them deleted: they end
at a terminator, or fill the clusters. -/
structure ChainEntries (disk : Disk) (c : ℕ → ℕ) (k t : ℕ) : Prop where
  fits : 32 * t ≤ k * sizeOfClusterBytes disk
  before : ∀ i < t, (chainEntry disk c i).filename[0] ≠ 0x00
  live : ∀ i < t, ¬ IsDeleted (chainEntry disk c i)
  ends : 32 * t = k * sizeOfClusterBytes disk ∨ (chainEntry disk c t).filename[0] = 0x00

/-- The sectors from the first cluster on hold `t` live entries before the first terminator. -/
def CountsChain (disk : Disk) (c : ℕ → ℕ) (t : ℕ) : Prop :=
  ∃ m, Terminated disk.device (disk.clusterPos (c 0)) m ∧
    disk.clusterPos (c 0) + 32 * (m + 1) < 2 ^ 31 ∧
    liveCount disk.device (disk.clusterPos (c 0)) m = t

/-- The load succeeds with the first `t` entries of the chain. -/
def LoadsChain (A : Allocator σ) (disk : Disk) (item : FatDirectoryItem) (s : σ) (c : ℕ → ℕ)
    (t : ℕ) : Prop :=
  ∃ ptr directory s', fat16LoadFatDirectoryStatus A disk item s = .ok ((0, ptr, directory), s') ∧
    directory.total = t ∧ directory.entries = slice (chainEntry disk c) 0 t

/-! ## Counting -/

lemma FatChain.first_lt (hchain : FatChain disk c k) : c 0 < 2 ^ 31 := by
  have hpos := hchain.fatPos_lt 0 hchain.pos
  unfold Disk.fatPos at hpos
  omega

/-- A count from a cluster in the `int` range ends as `CountsChain` says. -/
lemma fat16GetTotalItemsForDirectory_cluster {sector total : ℕ}
    (hsector : sector * 512 = disk.clusterPos (c 0)) (hlt : disk.clusterPos (c 0) < 2 ^ 31) :
    fat16GetTotalItemsForDirectory disk sector = .ok (total : ℤ) ↔ CountsChain disk c total := by
  have hexamined := @fat16GetTotalItemsExamined_eq disk sector (by omega)
  have hcount := @fat16GetTotalItemsExamined_fst disk sector
  rw [← hcount, hexamined, hsector, map_eq_ok]
  constructor
  · rintro ⟨⟨total', examined⟩, hloop, htotal⟩
    rcases fat16GetTotalItemsExaminedLoop_iff.mp hloop with ⟨m, hterm, hm, hlive, -⟩
    refine ⟨m, hterm, hm, ?_⟩
    have hsame : total' = total := htotal
    omega
  · rintro ⟨m, hterm, hm, hlive⟩
    refine ⟨(total, m + 1), fat16GetTotalItemsExaminedLoop_iff.mpr ⟨m, hterm, hm, ?_, rfl⟩, rfl⟩
    rw [hlive]

/-- The count of a load is that of its first cluster. -/
lemma fat16CountEntries_iff (hchain : FatChain disk c k)
    (hfirst : fat16GetFirstCluster item = c 0)
    (hroot : 0 ≤ disk.fsPrivate.rootDirectory.endingSectorPos)
    (hC : 0 < sizeOfClusterBytes disk) (hlt : disk.clusterPos (c 0) < 2 ^ 31) :
    fat16CountEntries disk item = .ok (t : ℤ) ↔ CountsChain disk c t := by
  have htwo := hchain.two_le 0 hchain.pos
  have hcluster : i32 (fat16GetFirstCluster item) = (c 0 : ℕ) := by
    rw [hfirst, i32_of_lt (by omega) (by exact_mod_cast hchain.first_lt)]
  -- the sector is one of the disk
  rcases exists_clusterRead (r := 0) (n := 0) htwo hroot (sectorsPerCluster_pos hC) (by omega) with
    ⟨read, hread, -⟩
  rcases bind_eq_ok.mp hread with ⟨sector, hsector, -⟩
  have hpos := fat16ClusterToSector_ok htwo hroot hsector
  rcases Int.eq_ofNat_of_zero_le (show 0 ≤ sector by omega) with ⟨n, hn⟩
  rw [hn] at hsector hpos
  unfold fat16CountEntries
  rw [hcluster, hsector, ok_bind, u32_natCast_of_lt (by omega)]
  exact fat16GetTotalItemsForDirectory_cluster (by omega) hlt

/-! ## Reading -/

/-- The read from the start of a chain; for no bytes too, the position is computed. -/
lemma fat16ReadInternalFromStream_start_iff (hchain : FatChain disk c k)
    (hroot : 0 ≤ disk.fsPrivate.rootDirectory.endingSectorPos)
    (hC : 0 < sizeOfClusterBytes disk) {x : ℤ × List UInt8} {total : ℕ} (hint : total < 2 ^ 31)
    (hk : total ≤ k * sizeOfClusterBytes disk) :
    fat16ReadInternalFromStream disk (c 0 : ℕ) 0 total = .ok x ↔
      disk.clusterPos (c 0) < 2 ^ 31 ∧ PiecesFit disk c 0 total ∧
        x = (0, slice (fileByte disk c) 0 total) := by
  have hbytes : slice (pieceByte disk c 0) 0 total = slice (fileByte disk c) 0 total :=
    slice_congr fun i _ => pieceByte_zero disk c _
  rcases Nat.eq_zero_or_pos total with hzero | hpos
  · -- the read of nothing still asks for the first cluster
    have htwo := hchain.two_le 0 hchain.pos
    have hfits : PiecesFit disk c 0 total := fun j hj => by omega
    have hstep : fat16ReadInternalFromStream disk (c 0 : ℕ) 0 ((0 : ℕ) : ℤ) = (do
        let read ← clusterRead disk (c 0 : ℕ) ((0 : ℕ) : ℤ) ((0 : ℕ) : ℤ)
        return (0, read.out)) := by
      have h := @fat16ReadInternalFromStream_step _ _ _ hchain hC 0 0
        (by rw [Nat.zero_div]; exact hchain.pos)
      rw [Nat.zero_div, Nat.zero_mod, Nat.min_zero] at h
      simp only [if_neg (Nat.not_lt_zero _)] at h
      exact h
    rw [hzero] at hfits ⊢
    rw [hstep]
    constructor
    · intro h
      rcases bind_eq_ok.mp h with ⟨read, hread, hret⟩
      have hout := clusterRead_out htwo hroot hread
      refine ⟨by omega, hfits, ?_⟩
      rw [← Except.ok.inj hret, hout.2, slice_zero, slice_zero]
    · rintro ⟨hlt, -, hx⟩
      rcases exists_clusterRead (r := 0) (n := 0) htwo hroot (sectorsPerCluster_pos hC)
        (by omega) with ⟨read, hread, hout⟩
      rw [hread, ok_bind, hout, hx, slice_zero, slice_zero]
      rfl
  · rw [← hbytes]
    have hiff := fat16ReadInternalFromStream_ok_iff hchain hroot hC (x := x) total 0 hpos
      (by omega) (by omega)
    rw [Nat.cast_zero] at hiff
    rw [hiff]
    constructor
    · rintro ⟨hfits, hx⟩
      have hfirst := hfits 0 (by omega)
      simp only [Nat.zero_div, Nat.zero_mod, Nat.add_zero] at hfirst
      exact ⟨by omega, hfits, hx⟩
    · exact fun h => h.2

/-- **Counting and loading.** A load whose requests are granted holds the entries of the chain
exactly when the sectors behind the first cluster count as many, and the clusters lie in the `int`
range of the disk. -/
theorem loadsChain_iff (hsub : IsSubdirectory item) (hchain : FatChain disk c k)
    (hfirst : fat16GetFirstCluster item = c 0)
    (hroot : 0 ≤ disk.fsPrivate.rootDirectory.endingSectorPos)
    (hC : 0 < sizeOfClusterBytes disk) (hentries : ChainEntries disk c k t)
    (hstructure : (A.kmalloc sizeofFatDirectory s).1 ≠ 0)
    (harray : (A.kmalloc (32 * t) (A.kmalloc sizeofFatDirectory s).2).1 ≠ 0) :
    LoadsChain A disk item s c t ↔ CountsChain disk c t ∧ PiecesFit disk c 0 (32 * t) := by
  have hcluster : i32 (fat16GetFirstCluster item) = (c 0 : ℕ) := by
    rw [hfirst, i32_of_lt (by omega) (by exact_mod_cast hchain.first_lt)]
  have hread : ∀ {res out}, 32 * t < 2 ^ 31 →
      (fat16ReadEntries disk item t = .ok (res, out) ↔ disk.clusterPos (c 0) < 2 ^ 31 ∧
        PiecesFit disk c 0 (32 * t) ∧ (res, out) = (0, slice (fileByte disk c) 0 (32 * t))) := by
    intro res out hint
    unfold fat16ReadEntries fat16ReadInternal
    rw [hcluster, fat16DirectorySize_eq hint]
    exact fat16ReadInternalFromStream_start_iff hchain hroot hC hint hentries.fits
  have hitems : fatDirectoryItemsOf (slice (fileByte disk c) 0 (32 * t)) t =
      slice (chainEntry disk c) 0 t := by
    rw [Nat.mul_comm, fatDirectoryItemsOf_eq]
    simp only [Nat.zero_add]
    rfl
  constructor
  · rintro ⟨ptr, directory, s', hload, htotal, -⟩
    cases fat16LoadFatDirectoryStatus_outcome hload with
    | unread _ _ _ _ _ _ _ hres => exact absurd rfl hres
    | @loaded _ _ _ _ total _ _ _ _ hcount _ _ hentriesRead =>
      have hsame : total = t := htotal
      rw [hsame] at hcount hentriesRead
      have hint : 32 * t < 2 ^ 31 := by
        rcases bind_eq_ok.mp hcount with ⟨sector, -, hloop⟩
        have hbounds := fat16GetTotalItemsForDirectory_bounds hloop
        omega
      rcases (hread hint).mp hentriesRead with ⟨hlt, hfits, -⟩
      exact ⟨(fat16CountEntries_iff hchain hfirst hroot hC hlt).mp hcount, hfits⟩
  · rintro ⟨hcounts, hfits⟩
    have hlt : disk.clusterPos (c 0) < 2 ^ 31 := by
      rcases hcounts with ⟨m, -, hm, -⟩
      omega
    have hcount := (fat16CountEntries_iff hchain hfirst hroot hC hlt).mpr hcounts
    have hint : 32 * t < 2 ^ 31 := by
      rcases hcounts with ⟨m, -, hm, hlive⟩
      have hle := liveCount_le disk.device (disk.clusterPos (c 0)) m
      omega
    have hentriesRead := (hread hint).mpr ⟨hlt, hfits, rfl⟩
    have hsize : u32 (fat16DirectorySize t) = 32 * t := by
      rw [fat16DirectorySize_eq hint, u32_natCast_of_lt (by omega)]
    refine ⟨_, _, _, fat16LoadFatDirectoryStatus_loaded hsub rfl hstructure hcount
      rfl (by rw [hsize]; exact harray) hentriesRead, rfl, ?_⟩
    rw [Int.toNat_natCast]
    exact hitems

/-! ## Consecutive clusters -/

lemma Disk.clusterPos_add {first : ℕ} (htwo : 2 ≤ first) (q : ℕ) :
    disk.clusterPos (first + q) = disk.clusterPos first + q * sizeOfClusterBytes disk := by
  unfold Disk.clusterPos sizeOfClusterBytes
  rw [show first + q - 2 = first - 2 + q by omega]
  simp only [marrowosSectorSize]
  ring

/-- In consecutive clusters the entries of the chain are the slots of a table. -/
lemma slotEntry_of_consecutive (hchain : FatChain disk c k) (hC : 0 < sizeOfClusterBytes disk)
    (hconsecutive : ∀ i < k, c i = c 0 + i) {i : ℕ}
    (hi : 32 * (i + 1) ≤ k * sizeOfClusterBytes disk) :
    slotEntry disk.device (disk.clusterPos (c 0)) i = chainEntry disk c i := by
  apply congrArg fatDirectoryItemOf
  apply slice_congr
  intro j hj
  have hq : (32 * i + j) / sizeOfClusterBytes disk < k :=
    (Nat.div_lt_iff_lt_mul hC).mpr (by omega)
  have hsplit := Nat.div_add_mod' (32 * i + j) (sizeOfClusterBytes disk)
  show disk.device.byte _ = disk.device.byte _
  rw [hconsecutive _ hq, Disk.clusterPos_add (hchain.two_le 0 hchain.pos)]
  congr 1
  omega

/-- A directory in consecutive clusters that has a terminator is counted right. -/
theorem countsChain_of_consecutive (hchain : FatChain disk c k) (hC : 0 < sizeOfClusterBytes disk)
    (hconsecutive : ∀ i < k, c i = c 0 + i) (hentries : ChainEntries disk c k t)
    (hroom : 32 * (t + 1) ≤ k * sizeOfClusterBytes disk)
    (hlt : disk.clusterPos (c 0) + 32 * (t + 1) < 2 ^ 31) : CountsChain disk c t := by
  have hslot : ∀ i ≤ t, slotEntry disk.device (disk.clusterPos (c 0)) i = chainEntry disk c i :=
    fun i hi => slotEntry_of_consecutive hchain hC hconsecutive (by omega)
  refine ⟨t, ⟨fun i hi => ?_, ?_⟩, hlt, ?_⟩
  · rw [hslot i hi.le]
    exact hentries.before i hi
  · rw [hslot t le_rfl]
    exact hentries.ends.resolve_left (by omega)
  · have hlive : ∀ e ∈ slice (slotEntry disk.device (disk.clusterPos (c 0))) 0 t,
        decide (¬ IsDeleted e) = true := by
      intro e he
      rcases List.mem_iff_getElem?.mp he with ⟨i, hi⟩
      rcases getElem?_slice_eq_some.mp hi with ⟨hit, heq⟩
      rw [Nat.zero_add, hslot i hit.le] at heq
      rw [← heq, decide_eq_true_iff]
      exact hentries.live i hit
    rw [liveCount, List.countP_eq_length.mpr hlive, length_slice]

/-! ## Seventeen entries -/

/-- A volume of one-sector clusters with a directory of 17 entries: 16 in cluster 2, and one in the
cluster `second`, to which the table links cluster 2. -/
def twoClusterDisk (second : ℕ) : Disk where
  device.sector lba i :=
    if lba = 1 then
      if i = 4 then UInt8.ofNat second
      else if i = 2 * second ∨ i = 2 * second + 1 then 0xFF else 0
    else if lba = 3 ∨ (lba = second + 1 ∧ i < 32) then 0x41
    else 0
  fsPrivate :=
    { header := ⟨1, 1, 1, 16, 1⟩
      rootDirectory := ⟨4096, [emptyDirectoryEntry], 1, 2, 3⟩ }

/-- The clusters of the directory. -/
def twoClusterChain (second i : ℕ) : ℕ := if i = 0 then 2 else second

/-- The directory lies in the clusters 2 and 3, or 2 and 4. -/
lemma twoClusterChain_fatChain {second : ℕ} (h : second = 3 ∨ second = 4) :
    FatChain (twoClusterDisk second) (twoClusterChain second) 2 := by
  rcases h with rfl | rfl
  · exact ⟨by decide, by decide, by decide, fun i hi => by
      rw [show i = 0 by omega]; rfl, fun i hi => by rw [show i = 0 by omega]; decide⟩
  · exact ⟨by decide, by decide, by decide, fun i hi => by
      rw [show i = 0 by omega]; rfl, fun i hi => by rw [show i = 0 by omega]; decide⟩

lemma twoClusterChain_chainEntries {second : ℕ} (h : second = 3 ∨ second = 4) :
    ChainEntries (twoClusterDisk second) (twoClusterChain second) 2 17 := by
  rcases h with rfl | rfl
  · exact ⟨by decide, by decide +kernel, by decide +kernel, Or.inr (by decide +kernel)⟩
  · exact ⟨by decide, by decide +kernel, by decide +kernel, Or.inr (by decide +kernel)⟩

/-- In the clusters 2 and 3 the directory is loaded whole. -/
theorem loadsChain_consecutive :
    LoadsChain constAllocator (twoClusterDisk 3) emptyDirectoryEntry () (twoClusterChain 3) 17 := by
  have hchain := twoClusterChain_fatChain (Or.inl rfl)
  have hentries := twoClusterChain_chainEntries (Or.inl rfl)
  refine (loadsChain_iff (by decide) hchain rfl (by decide) (by decide) hentries
    (constAllocator_kmalloc_ne _ _) (constAllocator_kmalloc_ne _ _)).mpr ⟨?_, ?_⟩
  · exact countsChain_of_consecutive hchain (by decide) (by decide) hentries (by decide) (by decide)
  · have hfit : ClustersFit (twoClusterDisk 3) (twoClusterChain 3) 2 := by
      unfold ClustersFit
      decide
    exact hfit.piecesFit (by decide)

/-- In the clusters 2 and 4 the last entry is not counted. -/
theorem not_loadsChain_fragmented :
    ¬ ∀ (σ : Type) (A : Allocator σ) (disk : Disk) (item : FatDirectoryItem) (s : σ) (c : ℕ → ℕ)
      (k t : ℕ), IsSubdirectory item → FatChain disk c k → fat16GetFirstCluster item = c 0 →
      0 ≤ disk.fsPrivate.rootDirectory.endingSectorPos → 0 < sizeOfClusterBytes disk →
      ChainEntries disk c k t → (∀ n s, (A.kmalloc n s).1 ≠ 0) → LoadsChain A disk item s c t := by
  intro h
  have hloads := h Unit constAllocator (twoClusterDisk 4) emptyDirectoryEntry () (twoClusterChain 4)
    2 17 (by decide) (twoClusterChain_fatChain (Or.inr rfl)) rfl (by decide) (by decide)
    (twoClusterChain_chainEntries (Or.inr rfl)) constAllocator_kmalloc_ne
  rcases hloads with ⟨ptr, directory, s', hload, htotal, -⟩
  have hcount : (fat16LoadFatDirectoryStatus constAllocator (twoClusterDisk 4) emptyDirectoryEntry
      ()).toOption.map (·.1.2.2.total) = some 16 := by decide +kernel
  rw [hload] at hcount
  have hsixteen : directory.total = 16 := Option.some.inj hcount
  rw [htotal] at hsixteen
  exact absurd hsixteen (by decide)

end MarrowOS
