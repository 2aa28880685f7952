import MarrowOS.Fs.Fat16ReadTheorems
import MarrowOS.Lib.Chains

/-!
# The walk along a cluster chain

An entry of the file allocation table is a cluster number (`IsCluster`) or a mark. The driver
compares it with six values and follows every other one (`IsFollowed`): of the eight marks for the
end of a chain it knows two, the marks for bad and reserved clusters are those of a 12-bit table,
and there `0x0FF0`, `0x0FF6` and `0x0FF7` are cluster numbers. `walksChain_iff` says which walks
are right nevertheless.
-/

namespace MarrowOS

open CInt Chains Fallible Slice

/-! ## The values of the table -/

/-- The entry is the number of a cluster. -/
def IsCluster (entry : ℕ) : Prop := 0x0002 ≤ entry ∧ entry ≤ 0xFFEF

/-- `fat16_get_cluster_for_offset` goes on with the entry. -/
def IsFollowed (entry : ℕ) : Prop := ¬ IsFatMark entry ∧ entry ≠ 0

instance (entry : ℕ) : Decidable (IsCluster entry) := inferInstanceAs (Decidable (_ ∧ _))

instance (entry : ℕ) : Decidable (IsFollowed entry) := inferInstanceAs (Decidable (_ ∧ _))

/-- The entries that are taken for what they are not. -/
theorem isFollowed_iff_isCluster {entry : ℕ} (h : entry < 2 ^ 16) :
    (IsFollowed entry ↔ IsCluster entry) ↔
      entry ≠ 0x0001 ∧ entry ≠ 0x0FF0 ∧ entry ≠ 0x0FF6 ∧ entry ≠ 0x0FF7 ∧
        (entry < 0xFFF0 ∨ entry = 0xFFF8 ∨ entry = 0xFFFF) := by
  unfold IsFollowed IsFatMark IsCluster
  omega

/-! ## The walk and its reads -/

/-- The loop of `fat16_get_cluster_for_offset`, with the clusters whose entries it reads. -/
def fat16GetClusterForOffsetReadsLoop (disk : Disk) :
    (n : ℕ) → (clusterToUse : ℤ) → Except Fault (List ℤ × ℤ)
  | 0, clusterToUse => return ([], clusterToUse)
  | n + 1, clusterToUse => do
    let entry ← fat16GetFatEntry disk clusterToUse
    if entry = 0xFFF8 ∨ entry = 0xFFFF then
      return ([clusterToUse], -eio)
    else if entry = marrowosFat16BadSector then
      return ([clusterToUse], -eio)
    else if entry = 0xFF0 ∨ entry = 0xFF6 then
      return ([clusterToUse], -eio)
    else if entry = 0x00 then
      return ([clusterToUse], -eio)
    else
      let (reads, res) ← fat16GetClusterForOffsetReadsLoop disk n entry
      return (clusterToUse :: reads, res)

def fat16GetClusterForOffsetReads (disk : Disk) (startingCluster offset : ℤ) :
    Except Fault (List ℤ × ℤ) :=
  if sizeOfClusterBytes disk = 0 then .error .divisionByZero
  else
    let clustersAhead := offset.tdiv (sizeOfClusterBytes disk)
    fat16GetClusterForOffsetReadsLoop disk clustersAhead.toNat startingCluster

variable {disk : Disk}

lemma fat16GetClusterForOffsetReadsLoop_snd (n : ℕ) (cluster : ℤ) :
    (fat16GetClusterForOffsetReadsLoop disk n cluster).map Prod.snd =
      fat16GetClusterForOffsetLoop disk n cluster := by
  induction n generalizing cluster with
  | zero => rfl
  | succ n ih =>
    rw [fat16GetClusterForOffsetReadsLoop, fat16GetClusterForOffsetLoop]
    cases fat16GetFatEntry disk cluster with
    | error fault => rfl
    | ok entry =>
      rw [ok_bind, ok_bind, ← ih]
      split_ifs
      · rfl
      · rfl
      · rfl
      · rfl
      · cases fat16GetClusterForOffsetReadsLoop disk n entry <;> rfl

/-- Forgetting the reads gives the function. -/
theorem fat16GetClusterForOffsetReads_snd (startingCluster offset : ℤ) :
    (fat16GetClusterForOffsetReads disk startingCluster offset).map Prod.snd =
      fat16GetClusterForOffset disk startingCluster offset := by
  unfold fat16GetClusterForOffsetReads fat16GetClusterForOffset
  split
  · rfl
  · exact fat16GetClusterForOffsetReadsLoop_snd _ _

/-! ## The chain -/

lemma Disk.fat_lt (disk : Disk) (c : ℕ) : disk.fat c < 2 ^ 16 := by
  unfold Disk.fat leU16
  have hlow := ((slice disk.device.byte (disk.fatPos c) 2)[0]?.getD 0).toNat_lt
  have hhigh := ((slice disk.device.byte (disk.fatPos c) 2)[1]?.getD 0).toNat_lt
  omega

/-- Every entry of the table lies in the `int` range of the disk. -/
lemma Disk.fatPos_lt (disk : Disk) {c : ℕ} (h : c < 2 ^ 16) : disk.fatPos c + 2 < 2 ^ 31 := by
  have hreserved := disk.fsPrivate.header.reservedSectors.toNat_lt
  unfold Disk.fatPos
  omega

/-- What the walk returns: the cluster it gets to, or an error. -/
def walkResult : Option ℕ → ℤ
  | some cluster => cluster
  | none => -eio

/-- The walk follows the entries that are followed. -/
lemma fat16GetClusterForOffsetReadsLoop_eq (n : ℕ) {c : ℕ} (hc : c < 2 ^ 16) :
    fat16GetClusterForOffsetReadsLoop disk n c =
      .ok ((consulted disk.fat IsFollowed n c).map Nat.cast,
        walkResult (chainAt disk.fat IsFollowed n c)) := by
  induction n generalizing c with
  | zero => rfl
  | succ n ih =>
    have hlt := disk.fat_lt c
    rw [fat16GetClusterForOffsetReadsLoop, fat16GetFatEntry_eq (disk.fatPos_lt hc), ok_bind, ih hlt,
      consulted]
    by_cases hfollowed : IsFollowed (disk.fat c)
    · rw [if_pos hfollowed, chainAt_succ_of_link hfollowed]
      unfold IsFollowed IsFatMark at hfollowed
      rw [if_neg (by omega), if_neg (by simp only [marrowosFat16BadSector]; omega),
        if_neg (by omega), if_neg (by omega)]
      rfl
    · rw [if_neg hfollowed, chainAt_succ_of_not_link hfollowed]
      unfold IsFollowed IsFatMark at hfollowed
      simp only [marrowosFat16BadSector]
      -- the four tests have one outcome
      split_ifs
      · rfl
      · rfl
      · rfl
      · rfl
      · omega

/-- The walk from `start` to the cluster of the offset returns it, or an error where the chain does
not go so far, and reads the entries of clusters only. -/
def WalksChain (disk : Disk) (start offset : ℕ) : Prop :=
  ∃ reads res, fat16GetClusterForOffsetReads disk start offset = .ok (reads, res) ∧
    (match chainAt disk.fat IsCluster (offset / sizeOfClusterBytes disk) start with
      | some cluster => res = cluster
      | none => res < 0) ∧
    ∀ c ∈ reads, ∃ cluster : ℕ, c = cluster ∧ IsCluster cluster

/-- A walk that gets somewhere returns that, and nothing else is an error. -/
lemma walkResult_iff (got expected : Option ℕ) :
    (match expected with
      | some cluster => walkResult got = cluster
      | none => walkResult got < 0) ↔ got = expected := by
  cases got with
  | none =>
    cases expected with
    | none => exact iff_of_true (by decide) rfl
    | some cluster =>
      apply iff_of_false
      · show ¬ -eio = (cluster : ℤ)
        simp only [eio]
        omega
      · exact fun h => by cases h
  | some b =>
    cases expected with
    | none =>
      apply iff_of_false
      · show ¬ (b : ℤ) < 0
        omega
      · exact fun h => by cases h
    | some cluster =>
      show (b : ℤ) = cluster ↔ some b = some cluster
      rw [Nat.cast_inj, Option.some.injEq]

/-- **Cluster walk.** The walk is right exactly when it takes no mark on its way for a cluster, and
stops at a cluster only if the chain ends before the one that is asked for. -/
theorem walksChain_iff (hsize : 0 < sizeOfClusterBytes disk) {start : ℕ} (hstart : IsCluster start)
    (offset : ℕ) :
    WalksChain disk start offset ↔
      ReadAlike disk.fat IsCluster IsFollowed (offset / sizeOfClusterBytes disk) start := by
  have hwalk : fat16GetClusterForOffsetReads disk start offset =
      .ok ((consulted disk.fat IsFollowed (offset / sizeOfClusterBytes disk) start).map Nat.cast,
        walkResult (chainAt disk.fat IsFollowed (offset / sizeOfClusterBytes disk) start)) := by
    unfold fat16GetClusterForOffsetReads
    rw [if_neg hsize.ne', ← Int.ofNat_tdiv]
    apply fat16GetClusterForOffsetReadsLoop_eq
    unfold IsCluster at hstart
    omega
  have hreads : ∀ l : List ℕ, (∀ c ∈ l.map (Nat.cast : ℕ → ℤ), ∃ cluster : ℕ, c = cluster ∧
      IsCluster cluster) ↔ ∀ c ∈ l, IsCluster c := by
    intro l
    rw [List.forall_mem_map]
    apply forall₂_congr
    intro c _
    exact ⟨fun ⟨d, hd, hcluster⟩ => by rwa [Nat.cast_inj.mp hd], fun h => ⟨c, rfl, h⟩⟩
  rw [← follows_iff hstart, ← hreads, ← walkResult_iff, WalksChain, hwalk]
  constructor
  · rintro ⟨reads, res, heq, hres, hplaces⟩
    rcases Prod.mk.inj (Except.ok.inj heq) with ⟨rfl, rfl⟩
    exact ⟨hres, hplaces⟩
  · rintro ⟨hres, hplaces⟩
    exact ⟨_, _, rfl, hres, hplaces⟩

/-! ## A chain of two clusters -/

/-- A volume whose table, in sector 1, has an entry for cluster 2. -/
def oneEntryDisk (low high : UInt8) : Disk where
  device.sector lba i := if lba = 1 ∧ i = 4 then low else if lba = 1 ∧ i = 5 then high else 0
  fsPrivate :=
    { header := ⟨1, 1, 1, 16, 1⟩
      rootDirectory := ⟨0, [], 0, 2, 3⟩ }

/-- The second cluster of the chain is 3. -/
theorem walksChain_next : WalksChain (oneEntryDisk 0x03 0x00) 2 512 := by
  apply (walksChain_iff (by decide) (by decide) 512).mpr
  show if IsFollowed ((oneEntryDisk 0x03 0x00).fat 2) then _ else _
  rw [if_pos (by decide)]
  exact ⟨by decide, trivial⟩

/-- The end mark `0xFFF9` is returned as the second cluster of a chain of one. -/
theorem not_walksChain_endMark :
    ¬ ∀ (disk : Disk) (start offset : ℕ), 0 < sizeOfClusterBytes disk → IsCluster start →
      WalksChain disk start offset := by
  intro h
  rcases h (oneEntryDisk 0xF9 0xFF) 2 512 (by decide) (by decide) with ⟨reads, res, hwalk, hres, -⟩
  have hval : (fat16GetClusterForOffsetReads (oneEntryDisk 0xF9 0xFF) (2 : ℕ) (512 : ℕ)).toOption =
      some ([2], 0xFFF9) := by decide +kernel
  have hend : chainAt (oneEntryDisk 0xF9 0xFF).fat IsCluster
      (512 / sizeOfClusterBytes (oneEntryDisk 0xF9 0xFF)) 2 = none := by decide +kernel
  rw [hwalk] at hval
  have hmark : res = 0xFFF9 := congrArg Prod.snd (Option.some.inj hval)
  rw [hend, hmark] at hres
  exact absurd hres (by decide)

end MarrowOS
