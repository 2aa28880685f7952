import MarrowOS.Fs.WholeFileRead
import Mathlib.Algebra.BigOperators.Group.List.Basic
import Mathlib.Algebra.Module.NatInt
import Mathlib.Algebra.Order.BigOperators.Group.List
import Mathlib.Data.Nat.ModEq

/-!
# Reading a file in chunks

`fat16_read_internal_from_stream` asks for up to a whole cluster's size at every step, also
when the step starts inside a cluster. Such a step runs past the end of its cluster and
delivers what lies behind it on the disk. Reads in chunks therefore deliver the file exactly
when each such run finds what the next cluster of the chain starts with
(`fat16ReadAll_eq_one_iff`).
-/

namespace MarrowOS

open CInt Fallible Slice

/-- A sequence of calls on one descriptor, each a size and a number of items, as long as they
succeed: their output in order. -/
def fat16ReadAll (disk : Disk) : FatFileDescriptor → List (ℕ × ℕ) → Option (List UInt8)
  | _, [] => some []
  | descriptor, (size, nmemb) :: reads =>
    match fat16Read disk descriptor size nmemb with
    | .error _ => none
    | .ok r =>
      if r.res < 0 then none
      else (fat16ReadAll disk { descriptor with pos := r.pos } reads).map (r.items.flatten ++ ·)

/-- The sizes of the items of the calls. -/
def itemSizes (reads : List (ℕ × ℕ)) : List ℕ :=
  reads.flatMap fun read => List.replicate read.2 read.1

/-- The `size` bytes at offset `o` are read as the file has them: where the read is past the
end of a cluster, the disk goes on as the next cluster of the chain begins. -/
def CrossingsAgree (disk : Disk) (c : ℕ → ℕ) (o size : ℕ) : Prop :=
  ∀ t < size,
    let i := o / sizeOfClusterBytes disk + t / sizeOfClusterBytes disk
    let r := o % sizeOfClusterBytes disk + t % sizeOfClusterBytes disk
    sizeOfClusterBytes disk ≤ r →
      disk.device.byte (disk.clusterPos (c i) + r) =
        disk.device.byte (disk.clusterPos (c (i + 1)) + (r - sizeOfClusterBytes disk))

/-- The condition under which reads in chunks deliver the file. From `2 ^ 31` bytes on the
one call transfers nothing, its size being a negative `int`. -/
def ChunksFollowFile (disk : Disk) (c : ℕ → ℕ) (reads : List (ℕ × ℕ)) : Prop :=
  if (itemSizes reads).sum < 2 ^ 31 then
    PiecesFit disk c 0 (itemSizes reads).sum ∧
      ∀ t ∈ tiles 0 (itemSizes reads), CrossingsAgree disk c t.1 t.2
  else ∀ read ∈ reads, 2 ^ 31 ≤ read.1

variable {disk : Disk} {c : ℕ → ℕ} {k : ℕ}

/-- An item that ends in the cluster it starts in crosses nothing. -/
lemma crossingsAgree_of_le {o size : ℕ}
    (h : o % sizeOfClusterBytes disk + size ≤ sizeOfClusterBytes disk) :
    CrossingsAgree disk c o size := by
  intro t ht i r hr
  have hmod := Nat.mod_le t (sizeOfClusterBytes disk)
  have hlt : r < sizeOfClusterBytes disk := by
    change o % _ + t % _ < _
    omega
  omega

/-! ## One item -/

lemma pieceByte_eq_iff (hC : 0 < sizeOfClusterBytes disk) (o t : ℕ) :
    pieceByte disk c o t = fileByte disk c (o + t) ↔
      (let i := o / sizeOfClusterBytes disk + t / sizeOfClusterBytes disk
       let r := o % sizeOfClusterBytes disk + t % sizeOfClusterBytes disk
       sizeOfClusterBytes disk ≤ r →
        disk.device.byte (disk.clusterPos (c i) + r) =
          disk.device.byte (disk.clusterPos (c (i + 1)) + (r - sizeOfClusterBytes disk))) := by
  unfold pieceByte fileByte
  rw [Nat.add_div hC, Nat.add_assoc (disk.clusterPos _)]
  by_cases hr : sizeOfClusterBytes disk ≤ o % sizeOfClusterBytes disk + t % sizeOfClusterBytes disk
  · have hmod := Nat.add_mod_add_of_le_add_mod hr
    have hrest : (o + t) % sizeOfClusterBytes disk =
        o % sizeOfClusterBytes disk + t % sizeOfClusterBytes disk - sizeOfClusterBytes disk := by
      omega
    rw [if_pos hr, hrest]
    exact ⟨fun h _ => h, fun h => h hr⟩
  · rw [if_neg hr, Nat.add_mod_of_add_mod_lt (by omega), Nat.add_zero]
    exact ⟨fun _ h => absurd h hr, fun _ => rfl⟩

lemma slice_pieceByte_eq_iff (hC : 0 < sizeOfClusterBytes disk) (o size : ℕ) :
    slice (pieceByte disk c o) 0 size = slice (fileByte disk c) o size ↔
      CrossingsAgree disk c o size := by
  rw [slice_eq_iff]
  refine forall₂_congr fun t _ => ?_
  rw [Nat.zero_add]
  exact pieceByte_eq_iff hC o t

/-- A successful read delivers as many bytes as it was asked for. -/
lemma length_fat16ReadInternalFromStream {cluster offset total res : ℤ} {out : List UInt8}
    (h : fat16ReadInternalFromStream disk cluster offset total = .ok (res, out))
    (hres : 0 ≤ res) : out.length = total.toNat := by
  induction hn : total.toNat using Nat.strong_induction_on generalizing offset total out with
  | _ n ih =>
    subst hn
    rw [fat16ReadInternalFromStream] at h
    simp only [bind_eq_ok] at h
    obtain ⟨clusterToUse, -, h⟩ := h
    split at h
    · obtain ⟨rfl, -⟩ := Prod.mk.inj (Except.ok.inj h)
      omega
    split at h
    · cases h
    rename_i hsize
    simp only [bind_eq_ok] at h
    obtain ⟨_, _, _, _, _, _, read, hread, h⟩ := h
    have hlen := length_diskStreamerRead _ hread
    by_cases hlarge : total > (sizeOfClusterBytes disk : ℤ)
    · simp only [if_pos hlarge] at h hlen
      rw [dif_pos (by omega)] at h
      simp only [bind_eq_ok] at h
      obtain ⟨_, -, ⟨res', out'⟩, hrec, h⟩ := h
      obtain ⟨rfl, rfl⟩ := Prod.mk.inj (Except.ok.inj h)
      have hlen' := ih _ (by omega) hrec rfl
      rw [List.length_append, hlen, hlen']
      omega
    · simp only [if_neg hlarge] at h hlen
      rw [dif_neg (by omega)] at h
      obtain ⟨-, rfl⟩ := Prod.mk.inj (Except.ok.inj h)
      exact hlen

/-! ## The items of a call -/

lemma length_fat16ReadLoop {item : FatDirectoryItem} {size : ℕ} {res off : ℤ}
    {items : List (List UInt8)} (hres : 0 ≤ res) :
    ∀ (n : ℕ) (offset : ℤ), fat16ReadLoop disk item size n offset = .ok (res, items, off) →
      items.flatten.length = n * (i32 size).toNat := by
  intro n
  induction n generalizing items with
  | zero =>
    intro offset h
    obtain ⟨-, rfl, -⟩ : 0 = res ∧ [] = items ∧ offset = off := by
      simpa [fat16ReadLoop] using h
    simp
  | succ n ih =>
    intro offset h
    rw [fat16ReadLoop] at h
    simp only [bind_eq_ok] at h
    obtain ⟨⟨res', out⟩, hread, h⟩ := h
    split at h
    · obtain ⟨rfl, -⟩ := Prod.mk.inj (Except.ok.inj h)
      rename_i hneg
      exact absurd hneg (by simpa using hres)
    · rename_i hnonneg
      simp only [bind_eq_ok] at h
      obtain ⟨⟨res'', items', off'⟩, hrec, h⟩ := h
      obtain ⟨rfl, heq⟩ := Prod.mk.inj (Except.ok.inj h)
      obtain ⟨rfl, rfl⟩ := Prod.mk.inj heq
      have hlen := length_fat16ReadInternalFromStream hread (by simpa using hnonneg)
      have hlen' := ih _ hrec
      rw [List.flatten_cons, List.length_append, hlen, hlen', Nat.succ_mul, Nat.add_comm]

/-- On a chained file the items are the slices their pieces give. -/
lemma fat16ReadLoop_ok (hchain : FatChain disk c k)
    (hroot : 0 ≤ disk.fsPrivate.rootDirectory.endingSectorPos)
    (hC : 0 < sizeOfClusterBytes disk) {item : FatDirectoryItem}
    (hfirst : fat16GetFirstCluster item = c 0) {size : ℕ} (hone : 1 ≤ size) {res off : ℤ}
    {items : List (List UInt8)} :
    ∀ n o : ℕ, o + n * size < 2 ^ 31 → o + n * size ≤ k * sizeOfClusterBytes disk →
      fat16ReadLoop disk item size n o = .ok (res, items, off) →
      res = 0 ∧ off = (o + n * size : ℕ) ∧
        items.flatten = (tiles o (List.replicate n size)).flatMap fun t =>
          slice (pieceByte disk c t.1) 0 t.2 := by
  have hlt : c 0 < 2 ^ 31 := by
    have h := hchain.fatPos_lt 0 hchain.pos
    unfold Disk.fatPos at h
    omega
  intro n
  -- on the items that are left; the offset is that of the next one
  induction n generalizing items with
  | zero =>
    intro o _ _ h
    obtain ⟨rfl, rfl, rfl⟩ : 0 = res ∧ [] = items ∧ (o : ℤ) = off := by
      simpa [fat16ReadLoop] using h
    simp [tiles]
  | succ n ih =>
    intro o hint hk h
    rw [Nat.succ_mul] at hint hk
    rw [fat16ReadLoop, fat16ReadInternal, hfirst, i32_of_lt (by omega) (by omega),
      i32_of_lt (by omega) (by omega)] at h
    simp only [bind_eq_ok] at h
    obtain ⟨x, hread, h⟩ := h
    obtain ⟨-, rfl⟩ := (fat16ReadInternalFromStream_ok_iff hchain hroot hC size o hone (by omega)
      (by omega)).mp hread
    simp only [lt_irrefl, if_false, bind_eq_ok] at h
    obtain ⟨⟨res', items', off'⟩, hrec, h⟩ := h
    obtain ⟨rfl, heq⟩ := Prod.mk.inj (Except.ok.inj h)
    obtain ⟨rfl, rfl⟩ := Prod.mk.inj heq
    rw [i32_of_lt (by omega) (by omega), ← Nat.cast_add] at hrec
    obtain ⟨rfl, rfl, hitems⟩ := ih (o + size) (by omega) (by omega) hrec
    refine ⟨rfl, ?_, ?_⟩
    · rw [Nat.succ_mul, Nat.add_assoc, Nat.add_comm size]
    · rw [List.replicate_succ, tiles, List.flatMap_cons, List.flatten_cons, hitems]

/-! ## Calls -/

variable {descriptor : FatFileDescriptor} {ptr : Addr} {item : FatDirectoryItem}

/-- A successful call is a successful loop. -/
lemma fat16Read_ok (hitem : descriptor.item.payload = .item ptr item) {size nmemb : ℕ}
    {r : Fat16Read} (h : fat16Read disk descriptor size nmemb = .ok r) (hres : 0 ≤ r.res) :
    ∃ res off, fat16ReadLoop disk item size nmemb (i32 descriptor.pos) = .ok (res, r.items, off) ∧
      0 ≤ res ∧ r.pos = u32 off := by
  unfold fat16Read at h
  rw [hitem] at h
  simp only at h
  split at h
  · cases h
  · simp only [bind_eq_ok] at h
    obtain ⟨⟨res, items, off⟩, hloop, h⟩ := h
    simp only at h
    split at h
    · rename_i hneg
      rw [← Except.ok.inj h] at hres
      exact absurd hneg (by simpa using hres)
    · rename_i hnonneg
      rw [← Except.ok.inj h]
      exact ⟨res, off, hloop, by omega, rfl⟩

/-- The first item of a successful call was read successfully. -/
lemma fat16Read_first (hitem : descriptor.item.payload = .item ptr item) {size n : ℕ}
    {r : Fat16Read} (h : fat16Read disk descriptor size (n + 1) = .ok r) (hres : 0 ≤ r.res) :
    ∃ res out, fat16ReadInternal disk (i32 (fat16GetFirstCluster item))
        (i32 descriptor.pos) (i32 size) = .ok (res, out) ∧ 0 ≤ res ∧
      (n = 0 → r.items = [out]) := by
  obtain ⟨res, off, hloop, hres, -⟩ := fat16Read_ok hitem h hres
  rw [fat16ReadLoop] at hloop
  simp only [bind_eq_ok] at hloop
  obtain ⟨⟨res', out⟩, hread, hloop⟩ := hloop
  refine ⟨res', out, hread, ?_, ?_⟩
  · by_contra hneg
    simp only [if_pos (not_le.mp hneg)] at hloop
    obtain ⟨rfl, -⟩ := Prod.mk.inj (Except.ok.inj hloop)
    exact hneg hres
  · rintro rfl
    simp only at hloop
    split at hloop
    · obtain ⟨-, heq⟩ := Prod.mk.inj (Except.ok.inj hloop)
      exact (Prod.mk.inj heq).1.symm
    · obtain ⟨-, heq⟩ := Prod.mk.inj (Except.ok.inj hloop)
      exact (Prod.mk.inj heq).1.symm

/-- Once the first cluster can be read, so can a negative number of bytes of it. -/
lemma fat16ReadInternalFromStream_negative (hchain : FatChain disk c k)
    (hroot : 0 ≤ disk.fsPrivate.rootDirectory.endingSectorPos)
    (hC : 0 < sizeOfClusterBytes disk) {total n res : ℤ} {out : List UInt8}
    (h : fat16ReadInternalFromStream disk (c 0 : ℕ) 0 total = .ok (res, out))
    (hmin : -2 ^ 31 ≤ n) (hneg : n < 0) :
    fat16ReadInternalFromStream disk (c 0 : ℕ) 0 n = .ok (0, []) := by
  have hcluster : fat16GetClusterForOffset disk (c 0 : ℕ) 0 = .ok (c 0 : ℕ) := by
    have h₀ := fat16GetClusterForOffset_eq hchain hC (o := 0)
      (by rw [Nat.zero_div]; exact hchain.pos)
    rwa [Nat.zero_div] at h₀
  have hne : ¬ ((sizeOfClusterBytes disk : ℕ) : ℤ) = 0 := by omega
  have hstart : ¬ ((c 0 : ℕ) : ℤ) < 0 := by omega
  rw [fat16ReadInternalFromStream, hcluster, ok_bind, if_neg hstart, dif_neg hne] at h ⊢
  simp only [bind_eq_ok] at h
  obtain ⟨s, hs, b, hb, p, hp, -⟩ := h
  have hpos : p = (disk.clusterPos (c 0) : ℕ) := by
    rw [← fat16ClusterToSector_ok (hchain.two_le 0 hchain.pos) hroot hs, (checkedInt_ok hp).1,
      (checkedInt_ok hb).1, Int.zero_tmod, add_zero]
    rfl
  obtain ⟨-, -, hlt⟩ := checkedInt_ok hp
  rw [← (checkedInt_ok hp).1, hpos] at hlt
  obtain ⟨r, hr, hout⟩ := diskStreamerRead_negative disk.device (disk.clusterPos (c 0))
    (by omega) hmin hneg
  rw [hs, ok_bind, hb, ok_bind, hp, ok_bind, hpos]
  simp only [if_neg (show ¬ n > ((sizeOfClusterBytes disk : ℕ) : ℤ) by omega)]
  rw [hr, ok_bind, dif_neg (by omega), hout]
  rfl

lemma itemSizes_cons (size n : ℕ) (reads : List (ℕ × ℕ)) :
    itemSizes ((size, n) :: reads) = List.replicate n size ++ itemSizes reads := rfl

lemma itemSizes_sum_cons (size n : ℕ) (reads : List (ℕ × ℕ)) :
    (itemSizes ((size, n) :: reads)).sum = n * size + (itemSizes reads).sum := by
  rw [itemSizes_cons, List.sum_append, List.sum_replicate, smul_eq_mul]

/-- The calls deliver their pieces, one after the other. -/
lemma fat16ReadAll_ok (hchain : FatChain disk c k)
    (hroot : 0 ≤ disk.fsPrivate.rootDirectory.endingSectorPos)
    (hC : 0 < sizeOfClusterBytes disk) (hfirst : fat16GetFirstCluster item = c 0) :
    ∀ (reads : List (ℕ × ℕ)) (descriptor : FatFileDescriptor) (out : List UInt8),
      descriptor.item.payload = .item ptr item → (∀ read ∈ reads, 1 ≤ read.1) →
      descriptor.pos + (itemSizes reads).sum < 2 ^ 31 →
      descriptor.pos + (itemSizes reads).sum ≤ k * sizeOfClusterBytes disk →
      fat16ReadAll disk descriptor reads = some out →
      out = (tiles descriptor.pos (itemSizes reads)).flatMap fun t =>
        slice (pieceByte disk c t.1) 0 t.2 := by
  intro reads
  -- on the reads; each starts where the one before it ended
  induction reads with
  | nil =>
    intro descriptor out _ _ _ _ h
    exact (Option.some.inj h).symm
  | cons read reads ih =>
    obtain ⟨size, n⟩ := read
    intro descriptor out hitem hone hint hk h
    rw [itemSizes_sum_cons] at hint hk
    rw [fat16ReadAll] at h
    split at h
    · cases h
    rename_i r hr
    split at h
    · cases h
    rename_i hnonneg
    obtain ⟨out', hall, rfl⟩ := Option.map_eq_some_iff.mp h
    obtain ⟨res, off, hloop, -, hoff⟩ := fat16Read_ok hitem hr (by omega)
    rw [i32_of_lt (by omega) (by omega)] at hloop
    have hsize : 1 ≤ size := hone (size, n) List.mem_cons_self
    obtain ⟨-, rfl, hitems⟩ := fat16ReadLoop_ok hchain hroot hC hfirst hsize n descriptor.pos
      (by omega) (by omega) hloop
    have hpos : r.pos = descriptor.pos + n * size := by
      rw [hoff, u32_natCast_of_lt (by omega)]
    -- so the rest of the reads goes on behind its tiles
    have hrest := ih { descriptor with pos := r.pos } out' hitem
      (fun read hread => hone read (List.mem_cons_of_mem _ hread))
      (by simp only [hpos]; omega) (by simp only [hpos]; omega) hall
    rw [hitems, hrest, itemSizes_cons, tiles_append, List.flatMap_append, List.sum_replicate,
      smul_eq_mul, hpos]

/-- A call with a size from `2 ^ 31` on transfers nothing, any other as much as it asks for. -/
lemma length_fat16ReadAll :
    ∀ (reads : List (ℕ × ℕ)) (descriptor : FatFileDescriptor) (out : List UInt8),
      descriptor.item.payload = .item ptr item → fat16ReadAll disk descriptor reads = some out →
      out.length = (reads.map fun read => read.2 * (i32 read.1).toNat).sum := by
  intro reads
  induction reads with
  | nil =>
    intro descriptor out _ h
    rw [← Option.some.inj h]
    rfl
  | cons read reads ih =>
    obtain ⟨size, n⟩ := read
    intro descriptor out hitem h
    rw [fat16ReadAll] at h
    split at h
    · cases h
    rename_i r hr
    split at h
    · cases h
    rename_i hnonneg
    obtain ⟨out', hall, rfl⟩ := Option.map_eq_some_iff.mp h
    obtain ⟨res, off, hloop, hres, -⟩ := fat16Read_ok hitem hr (by omega)
    rw [List.length_append, length_fat16ReadLoop hres n _ hloop, List.map_cons, List.sum_cons,
      ih { descriptor with pos := r.pos } out' hitem hall]

/-- One call below `2 ^ 31` bytes: it succeeds exactly when its steps fit. -/
lemma fat16Read_one_iff (hitem : descriptor.item.payload = .item ptr item) (hptr : ptr ≠ 0)
    (hpos : descriptor.pos = 0) (hfirst : fat16GetFirstCluster item = c 0) (hlt : c 0 < 2 ^ 31)
    (hroot : 0 ≤ disk.fsPrivate.rootDirectory.endingSectorPos)
    (hC : 0 < sizeOfClusterBytes disk) (hchain : FatChain disk c k) {size : ℕ} (hone : 1 ≤ size)
    (hsize : size < 2 ^ 31) (hk : size ≤ k * sizeOfClusterBytes disk) {out : List UInt8} :
    (∃ r, fat16Read disk descriptor size 1 = .ok r ∧ 0 ≤ r.res ∧ r.items.flatten = out) ↔
      PiecesFit disk c 0 size ∧ slice (fileByte disk c) 0 size = out := by
  have hread := fun x => fat16ReadInternalFromStream_ok_iff hchain hroot hC (x := x) size 0 hone
    (by omega) (by omega)
  have hfile : slice (pieceByte disk c 0) 0 size = slice (fileByte disk c) 0 size :=
    slice_congr fun t _ => pieceByte_zero disk c _
  rw [hfile] at hread
  constructor
  · rintro ⟨r, hr, hres, rfl⟩
    obtain ⟨res, out, hfirstRead, -, hitems⟩ := fat16Read_first hitem hr hres
    rw [fat16ReadInternal, hfirst, hpos, i32_of_lt (by omega) (by omega),
      i32_of_lt (by omega) (by omega), i32_of_lt (by omega) (by omega)] at hfirstRead
    obtain ⟨hfit, hx⟩ := (hread _).mp hfirstRead
    rw [hitems rfl, ← (Prod.mk.inj hx).2]
    exact ⟨hfit, by simp⟩
  · rintro ⟨hfit, rfl⟩
    have hok := (hread (0, slice (fileByte disk c) 0 size)).mpr ⟨hfit, rfl⟩
    refine ⟨_, fat16Read_one hitem hptr hpos hfirst hlt hsize hok, ?_⟩
    rw [if_neg (lt_irrefl 0)]
    exact ⟨zero_le_one, by simp⟩

/-- One call from `2 ^ 31` bytes on succeeds when any call does, and delivers nothing. -/
lemma fat16Read_one_large (hitem : descriptor.item.payload = .item ptr item) (hptr : ptr ≠ 0)
    (hpos : descriptor.pos = 0) (hfirst : fat16GetFirstCluster item = c 0) (hlt : c 0 < 2 ^ 31)
    (hroot : 0 ≤ disk.fsPrivate.rootDirectory.endingSectorPos)
    (hC : 0 < sizeOfClusterBytes disk) (hchain : FatChain disk c k) {size size' n : ℕ}
    (hlarge : 2 ^ 31 ≤ size) (hsize : size < 2 ^ 32) {r' : Fat16Read}
    (hr' : fat16Read disk descriptor size' (n + 1) = .ok r') (hres' : 0 ≤ r'.res) :
    ∃ r, fat16Read disk descriptor size 1 = .ok r ∧ 0 ≤ r.res ∧ r.items.flatten = [] := by
  obtain ⟨res, out, hread, -, -⟩ := fat16Read_first hitem hr' hres'
  have hneg : i32 size = (size : ℤ) - 2 ^ 32 := i32_of_large (by omega) (by omega)
  rw [fat16ReadInternal, hfirst, hpos, i32_of_lt (by omega) (by omega),
    i32_of_lt (by omega) (by omega)] at hread
  have hnone := fat16ReadInternalFromStream_negative hchain hroot hC hread
    (n := i32 size) (by omega) (by omega)
  unfold fat16Read
  rw [hitem]
  simp only [hptr, false_and, if_false]
  rw [fat16ReadLoop, fat16ReadInternal, hfirst, hpos, i32_of_lt (by omega) (by omega),
    i32_of_lt (x := ((0 : ℕ) : ℤ)) (by omega) (by omega)]
  rw [Nat.cast_zero, hnone]
  exact ⟨_, rfl, (by decide : 0 ≤ i32 ((1 : ℕ) : ℤ)), rfl⟩

lemma fat16ReadAll_first {size n : ℕ} {reads : List (ℕ × ℕ)} {out : List UInt8}
    (h : fat16ReadAll disk descriptor ((size, n) :: reads) = some out) :
    ∃ r, fat16Read disk descriptor size n = .ok r ∧ 0 ≤ r.res := by
  rw [fat16ReadAll] at h
  split at h
  · cases h
  rename_i r hr
  split at h
  · cases h
  · exact ⟨r, hr, by omega⟩

/-- Calls deliver nothing exactly when all of their sizes are negative `int`s. -/
lemma fat16ReadAll_eq_nil_iff (hitem : descriptor.item.payload = .item ptr item)
    {reads : List (ℕ × ℕ)} (hone : ∀ read ∈ reads, 1 ≤ read.1 ∧ 1 ≤ read.2)
    (hsizes : ∀ read ∈ reads, read.1 < 2 ^ 32) {out : List UInt8}
    (hall : fat16ReadAll disk descriptor reads = some out) :
    out = [] ↔ ∀ read ∈ reads, 2 ^ 31 ≤ read.1 := by
  rw [← List.length_eq_zero_iff, length_fat16ReadAll reads descriptor out hitem hall]
  constructor
  · intro hsum read hread
    have hle := List.le_sum_of_mem (List.mem_map_of_mem
      (f := fun read : ℕ × ℕ => read.2 * (i32 read.1).toNat) hread)
    obtain ⟨hsize, hn⟩ := hone read hread
    by_contra hsmall
    have hpos : 0 < read.2 * (i32 read.1).toNat := by
      rw [i32_of_lt (by omega) (by omega)]
      exact Nat.mul_pos hn (by omega)
    omega
  · intro hlarge
    refine List.sum_eq_zero fun x hx => ?_
    obtain ⟨read, hread, rfl⟩ := List.mem_map.mp hx
    have hlt := hsizes read hread
    have hge := hlarge read hread
    rw [i32_of_large (by omega) (by omega), Int.toNat_of_nonpos (by omega), Nat.mul_zero]

/-- **Chunking.** The calls of a successful sequence deliver together what one call delivers
exactly when the chunks follow the file. -/
theorem fat16ReadAll_eq_one_iff (hitem : descriptor.item.payload = .item ptr item)
    (hptr : ptr ≠ 0) (hpos : descriptor.pos = 0) (hfirst : fat16GetFirstCluster item = c 0)
    (hspc : 1 ≤ disk.fsPrivate.header.sectorsPerCluster)
    (hroot : 0 ≤ disk.fsPrivate.rootDirectory.endingSectorPos) (hchain : FatChain disk c k)
    {reads : List (ℕ × ℕ)} (hne : reads ≠ []) (hone : ∀ read ∈ reads, 1 ≤ read.1 ∧ 1 ≤ read.2)
    (hfile : (itemSizes reads).sum ≤ item.filesize.toNat)
    (hcover : item.filesize.toNat ≤ k * sizeOfClusterBytes disk) {out : List UInt8}
    (hall : fat16ReadAll disk descriptor reads = some out) :
    (∃ r, fat16Read disk descriptor (itemSizes reads).sum 1 = .ok r ∧ 0 ≤ r.res ∧
      r.items.flatten = out) ↔ ChunksFollowFile disk c reads := by
  have hC : 0 < sizeOfClusterBytes disk := Nat.mul_pos hspc (by decide)
  have hlt : c 0 < 2 ^ 31 := by
    have h := hchain.fatPos_lt 0 hchain.pos
    unfold Disk.fatPos at h
    omega
  obtain ⟨⟨size, n⟩, rest, rfl⟩ := List.exists_cons_of_ne_nil hne
  obtain ⟨hsize, hn⟩ := hone (size, n) List.mem_cons_self
  have hsum : size ≤ (itemSizes ((size, n) :: rest)).sum := by
    rw [itemSizes_sum_cons]
    exact (Nat.le_mul_of_pos_left size hn).trans (Nat.le_add_right _ _)
  -- whether all the reads together fit into an `int` decides what the one read does
  unfold ChunksFollowFile
  split
  · rename_i hsmall
    have hout := fat16ReadAll_ok hchain hroot hC hfirst _ descriptor out hitem
      (fun read hread => (hone read hread).1) (by omega) (by omega) hall
    rw [hpos] at hout
    have hlen : ∀ t ∈ tiles 0 (itemSizes ((size, n) :: rest)),
        (slice (fileByte disk c) t.1 t.2).length =
          (slice (pieceByte disk c t.1) 0 t.2).length := by
      intro t _
      rw [length_slice, length_slice]
    rw [fat16Read_one_iff hitem hptr hpos hfirst hlt hroot hC hchain (hsize.trans hsum) hsmall
      (hfile.trans hcover), hout, slice_sum, flatMap_eq_flatMap_iff hlen]
    refine and_congr_right fun _ => forall₂_congr fun t _ => ?_
    rw [eq_comm, slice_pieceByte_eq_iff hC]
  · rename_i hlarge
    have hfilesize := item.filesize.toNat_lt
    have hsizes : ∀ read ∈ (size, n) :: rest, read.1 < 2 ^ 32 := by
      intro read hread
      have hmem : read.1 ∈ itemSizes ((size, n) :: rest) :=
        List.mem_flatMap.mpr ⟨read, hread, List.mem_replicate.mpr
          ⟨Nat.pos_iff_ne_zero.mp (hone read hread).2, rfl⟩⟩
      have hle := List.le_sum_of_mem hmem
      omega
    obtain ⟨r', hr', hres'⟩ := fat16ReadAll_first hall
    obtain ⟨m, rfl⟩ : ∃ m, n = m + 1 := ⟨n - 1, by simp only at hn; omega⟩
    obtain ⟨r, hr, hres, hempty⟩ := fat16Read_one_large hitem hptr hpos hfirst hlt hroot hC hchain
      (not_lt.mp hlarge) (by omega) hr' hres'
    rw [← fat16ReadAll_eq_nil_iff hitem hone hsizes hall]
    constructor
    · rintro ⟨r₁, hr₁, -, rfl⟩
      rw [← hempty, Except.ok.inj (hr₁.symm.trans hr)]
    · rintro rfl
      exact ⟨r, hr, hres, hempty⟩

/-- A sector, then the next one in halves. -/
theorem fat16ReadAll_eq_one_aligned :
    ∃ out, fat16ReadAll fragmentedDisk fragmentedDescriptor [(512, 1), (256, 2)] = some out ∧
      ∃ r, fat16Read fragmentedDisk fragmentedDescriptor 1024 1 = .ok r ∧ 0 ≤ r.res ∧
        r.items.flatten = out := by
  obtain ⟨out, hout⟩ := Option.isSome_iff_exists.mp (by decide +kernel :
    (fat16ReadAll fragmentedDisk fragmentedDescriptor [(512, 1), (256, 2)]).isSome)
  have hfit : ClustersFit fragmentedDisk fragmentedChain 3 := by
    unfold ClustersFit
    decide
  have hcross : ∀ t ∈ tiles 0 [512, 256, 256],
      CrossingsAgree fragmentedDisk fragmentedChain t.1 t.2 := by
    intro t ht
    simp only [tiles, List.mem_cons, List.not_mem_nil, or_false] at ht
    rcases ht with rfl | rfl | rfl <;> exact crossingsAgree_of_le (by decide)
  exact ⟨out, hout, (fat16ReadAll_eq_one_iff rfl (by decide) rfl rfl (by decide) (by decide)
    fragmentedChain_fatChain (by decide) (by decide) (by decide) (by decide) hout).mpr
      ⟨hfit.piecesFit (by decide), hcross⟩⟩

/-- One byte, then a whole cluster's size from there: the last of its bytes is the one behind
the file's first cluster, not the first of its second. -/
theorem fat16ReadAll_fragmented_ne_one :
    ¬ ∀ (disk : Disk) (c : ℕ → ℕ) (k : ℕ) (descriptor : FatFileDescriptor) (ptr : Addr)
      (item : FatDirectoryItem) (reads : List (ℕ × ℕ)) (out : List UInt8),
      descriptor.item.payload = .item ptr item → ptr ≠ 0 → descriptor.pos = 0 →
      fat16GetFirstCluster item = c 0 → 1 ≤ disk.fsPrivate.header.sectorsPerCluster →
      0 ≤ disk.fsPrivate.rootDirectory.endingSectorPos → FatChain disk c k → reads ≠ [] →
      (∀ read ∈ reads, 1 ≤ read.1 ∧ 1 ≤ read.2) →
      (itemSizes reads).sum ≤ item.filesize.toNat →
      item.filesize.toNat ≤ k * sizeOfClusterBytes disk →
      fat16ReadAll disk descriptor reads = some out →
      ∃ r, fat16Read disk descriptor (itemSizes reads).sum 1 = .ok r ∧ 0 ≤ r.res ∧
        r.items.flatten = out := by
  intro h
  obtain ⟨out, hout⟩ := Option.isSome_iff_exists.mp (by decide +kernel :
    (fat16ReadAll fragmentedDisk fragmentedDescriptor [(1, 1), (512, 1)]).isSome)
  obtain ⟨r, hr, -, heq⟩ := h _ _ _ _ _ _ _ out rfl (by decide) rfl rfl (by decide) (by decide)
    fragmentedChain_fatChain (by decide) (by decide) (by decide) (by decide) hout
  have hne : (fat16Read fragmentedDisk fragmentedDescriptor 513 1).toOption.map
      (·.items.flatten) ≠ fat16ReadAll fragmentedDisk fragmentedDescriptor [(1, 1), (512, 1)] := by
    decide +kernel
  have hsum : (itemSizes [(1, 1), (512, 1)]).sum = 513 := rfl
  rw [hsum] at hr
  rw [hr, hout, ← heq] at hne
  exact hne rfl

end MarrowOS
