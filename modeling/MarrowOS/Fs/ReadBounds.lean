import MarrowOS.Fs.ChunkedReads
import MarrowOS.Fs.SeekPositions

/-!
# Reads and the end of the file

`fat16_read` follows the caller's counts and the cluster chain; the size in the directory entry,
which `fat16_seek` compares with, it does not look at. `readsInside_iff` says when a call delivers
bytes of the file only: when what is asked for ends in the file, and every item can be read. The
second part of it is about a file whose clusters hold its bytes, where the items inside the file
can be read.
-/

namespace MarrowOS

open CInt Fallible Slice

/-! ## Items -/

/-- `fat16_read_internal` succeeds for the `size` bytes at offset `o` of the file. -/
def ItemReadable (disk : Disk) (item : FatDirectoryItem) (size o : ℕ) : Prop :=
  ∃ res out, fat16ReadInternal disk (i32 (fat16GetFirstCluster item)) (i32 o) (i32 size) =
    .ok (res, out) ∧ 0 ≤ res

variable {disk : Disk} {item : FatDirectoryItem} {size : ℕ}

lemma i32_le_self (n : ℕ) : i32 n ≤ n := by
  rcases Nat.lt_or_ge n (2 ^ 31) with hlt | hge
  · rw [i32_of_lt (by omega) (by omega)]
  · have hrange := i32_range n
    omega

/-- The offset of the next item. -/
lemma i32_next (o size : ℕ) : i32 (i32 o + size) = i32 ((o + size : ℕ) : ℤ) := by
  rw [i32_i32_add, Nat.cast_add]

/-- What a loop that gets through has read: every item, each with at most its size. -/
lemma fat16ReadLoop_done {res off : ℤ} {items : List (List UInt8)} (hres : 0 ≤ res) :
    ∀ n o : ℕ, fat16ReadLoop disk item size n (i32 o) = .ok (res, items, off) →
      off = i32 ((o + n * size : ℕ) : ℤ) ∧ (∀ i < n, ItemReadable disk item size (o + i * size)) ∧
        ∀ (i : ℕ) (out : List UInt8), items[i]? = some out → i < n ∧ out.length ≤ size := by
  intro n
  -- on the items that are left
  induction n generalizing items off with
  | zero =>
    intro o h
    rcases Prod.mk.inj (Prod.mk.inj (Except.ok.inj h)).2 with ⟨hitems, hoff⟩
    rw [← hitems, ← hoff, Nat.zero_mul, Nat.add_zero]
    refine ⟨rfl, fun i hi => absurd hi (Nat.not_lt_zero i), fun i out hout => ?_⟩
    rw [List.getElem?_nil] at hout
    cases hout
  | succ n ih =>
    intro o h
    rw [fat16ReadLoop] at h
    rcases bind_eq_ok.mp h with ⟨⟨res₁, out₁⟩, hread, hrest⟩
    -- a read that fails ends the loop with its status
    by_cases hneg : res₁ < 0
    · simp only [if_pos hneg] at hrest
      have hsame : res₁ = res := (Prod.mk.inj (Except.ok.inj hrest)).1
      omega
    simp only [if_neg hneg] at hrest
    rcases bind_eq_ok.mp hrest with ⟨⟨res₂, items₂, off₂⟩, hloop, hret⟩
    rcases ok_triple_inj hret with ⟨hres₂, hitems, hoff⟩
    have hsame : res₂ = res := hres₂
    rw [hsame] at hloop
    rw [i32_next] at hloop
    rcases ih (o + size) hloop with ⟨hoff₂, hreadable, hlength⟩
    -- item `i` of the rest is item `i + 1`
    have hshift : ∀ i, o + size + i * size = o + (i + 1) * size := by
      intro i
      rw [Nat.succ_mul]
      omega
    refine ⟨?_, ?_, ?_⟩
    · rw [← hoff, hoff₂, hshift]
    · intro i hi
      cases i with
      | zero =>
        rw [Nat.zero_mul, Nat.add_zero]
        exact ⟨res₁, out₁, hread, by omega⟩
      | succ i =>
        rw [← hshift]
        exact hreadable i (by omega)
    · intro i out hout
      rw [← hitems] at hout
      cases i with
      | zero =>
        have hlen := length_fat16ReadInternalFromStream hread (not_lt.mp hneg)
        have hle := i32_le_self size
        rw [List.getElem?_cons_zero] at hout
        rw [← Option.some.inj hout, hlen]
        exact ⟨Nat.succ_pos n, Int.toNat_le.mpr hle⟩
      | succ i =>
        rw [List.getElem?_cons_succ] at hout
        rcases hlength i out hout with ⟨hi, hle⟩
        exact ⟨Nat.succ_lt_succ hi, hle⟩

/-- An item that is read, in front of the others. -/
lemma fat16ReadLoop_succ {n o : ℕ} {res off : ℤ} {out : List UInt8} {items : List (List UInt8)}
    (hread : fat16ReadInternal disk (i32 (fat16GetFirstCluster item)) (i32 o) (i32 size) =
      .ok (res, out)) (hres : 0 ≤ res)
    (hloop : fat16ReadLoop disk item size n (i32 ((o + size : ℕ) : ℤ)) = .ok (0, items, off)) :
    fat16ReadLoop disk item size (n + 1) (i32 o) = .ok (0, out :: items, off) := by
  rw [fat16ReadLoop, hread, ok_bind]
  simp only [if_neg (not_lt.mpr hres)]
  rw [i32_next, hloop, ok_bind]
  simp only [pure_eq_ok]

/-- Where every item can be read the loop gets through. -/
lemma fat16ReadLoop_of_readable : ∀ n o : ℕ,
    (∀ i < n, ItemReadable disk item size (o + i * size)) →
      ∃ items off, fat16ReadLoop disk item size n (i32 o) = .ok (0, items, off) := by
  intro n
  induction n with
  | zero => exact fun o _ => ⟨[], i32 o, rfl⟩
  | succ n ih =>
    intro o hreadable
    have hfirst := hreadable 0 (Nat.succ_pos n)
    rw [Nat.zero_mul, Nat.add_zero] at hfirst
    rcases hfirst with ⟨res, out, hread, hres⟩
    have hnext : ∀ i < n, ItemReadable disk item size (o + size + i * size) := by
      intro i hi
      rw [Nat.add_assoc, Nat.add_comm size, ← Nat.succ_mul]
      exact hreadable (i + 1) (by omega)
    rcases ih (o + size) hnext with ⟨items, off, hloop⟩
    exact ⟨out :: items, off, fat16ReadLoop_succ hread hres hloop⟩

/-! ## Calls -/

/-- The call writes no byte at an offset from `filesize` on, returns how many items it delivered
and moves the position behind them. -/
def ReadsInside (disk : Disk) (descriptor : FatFileDescriptor) (filesize size nmemb : ℕ) : Prop :=
  ∃ r, fat16Read disk descriptor size nmemb = .ok r ∧
    (∀ i out, r.items[i]? = some out → out ≠ [] →
      descriptor.pos + i * size + out.length ≤ filesize) ∧
    0 ≤ r.res ∧ descriptor.pos + r.res * size ≤ filesize ∧
    (r.pos : ℤ) = descriptor.pos + r.res * size

/-- What is asked for ends in the file, and can be read item by item. -/
structure AsksInside (disk : Disk) (descriptor : FatFileDescriptor) (itemPtr : Addr)
    (item : FatDirectoryItem) (size nmemb : ℕ) : Prop where
  allocated : itemPtr ≠ 0
  /-- the number of items is a result of type `int` -/
  countable : nmemb < 2 ^ 31
  inside : descriptor.pos + nmemb * size ≤ item.filesize.toNat
  readable : ∀ i < nmemb, ItemReadable disk item size (descriptor.pos + i * size)

variable {descriptor : FatFileDescriptor} {itemPtr : Addr} {nmemb : ℕ}

/-- A call that gets through its loop. -/
lemma fat16Read_of_loop (hitem : descriptor.item.payload = .item itemPtr item) (hptr : itemPtr ≠ 0)
    {items : List (List UInt8)} {off : ℤ}
    (hloop : fat16ReadLoop disk item size nmemb (i32 descriptor.pos) = .ok (0, items, off)) :
    fat16Read disk descriptor size nmemb = .ok ⟨i32 nmemb, items, u32 off⟩ := by
  unfold fat16Read
  rw [hitem]
  simp only
  rw [if_neg fun h => hptr h.1, hloop]
  rfl

/-- A call with items to read needs the item of its descriptor. -/
lemma fat16Read_null (hitem : descriptor.item.payload = .item 0 item) (hone : 1 ≤ nmemb) :
    fat16Read disk descriptor size nmemb = .error .nullPointer := by
  unfold fat16Read
  rw [hitem]
  exact if_pos ⟨rfl, hone⟩

/-- The result and the position of a call that succeeded. -/
lemma fat16Read_res (hitem : descriptor.item.payload = .item itemPtr item) {r : Fat16Read}
    (h : fat16Read disk descriptor size nmemb = .ok r) (hres : 0 ≤ r.res) : r.res = i32 nmemb := by
  unfold fat16Read at h
  rw [hitem] at h
  simp only at h
  by_cases hnull : itemPtr = 0 ∧ 0 < nmemb
  · rw [if_pos hnull] at h
    cases h
  rw [if_neg hnull] at h
  rcases bind_eq_ok.mp h with ⟨⟨res, items, off⟩, -, hret⟩
  by_cases hneg : res < 0
  · simp only [if_pos hneg] at hret
    rw [← Except.ok.inj hret] at hres
    exact absurd hneg (not_lt.mpr hres)
  · simp only [if_neg hneg] at hret
    rw [← Except.ok.inj hret]

lemma AsksInside.readsInside (hitem : descriptor.item.payload = .item itemPtr item)
    (h : AsksInside disk descriptor itemPtr item size nmemb) :
    ReadsInside disk descriptor item.filesize.toNat size nmemb := by
  have hsize := item.filesize.toNat_lt
  have hinside := h.inside
  have hcount : i32 nmemb = nmemb := i32_of_lt (by omega) (by exact_mod_cast h.countable)
  rcases fat16ReadLoop_of_readable nmemb descriptor.pos h.readable with ⟨items, off, hloop⟩
  rcases fat16ReadLoop_done le_rfl _ _ hloop with ⟨hoff, -, hitems⟩
  have hpos : u32 (i32 ((descriptor.pos + nmemb * size : ℕ) : ℤ)) =
      descriptor.pos + nmemb * size := by
    have hcut := u32_i32_add ((descriptor.pos + nmemb * size : ℕ) : ℤ) 0
    rw [add_zero, add_zero] at hcut
    rw [hcut, u32_natCast_of_lt (by omega)]
  have hread := fat16Read_of_loop hitem h.allocated hloop
  rw [hoff, hpos, hcount] at hread
  refine ⟨_, hread, ?_, Int.natCast_nonneg _, ?_, ?_⟩
  · intro i out hout _
    rcases hitems i out hout with ⟨hi, hle⟩
    -- the item ends where the next one starts, at the latest
    have hend : (i + 1) * size ≤ nmemb * size := Nat.mul_le_mul_right size hi
    rw [Nat.succ_mul] at hend
    omega
  · show (descriptor.pos : ℤ) + nmemb * size ≤ item.filesize.toNat
    exact_mod_cast hinside
  · show ((descriptor.pos + nmemb * size : ℕ) : ℤ) = descriptor.pos + nmemb * size
    push_cast
    rfl

lemma ReadsInside.asksInside (hitem : descriptor.item.payload = .item itemPtr item)
    (hone : 1 ≤ nmemb) (hmax : nmemb < 2 ^ 32)
    (h : ReadsInside disk descriptor item.filesize.toNat size nmemb) :
    AsksInside disk descriptor itemPtr item size nmemb := by
  rcases h with ⟨r, hread, -, hres, hinside, -⟩
  have heq := fat16Read_res hitem hread hres
  have hcount : nmemb < 2 ^ 31 := by
    by_contra hlarge
    have hwrap := i32_of_large (x := nmemb) (by omega) (by omega)
    omega
  rw [heq, i32_of_lt (by omega) (by omega)] at hinside
  rcases fat16Read_ok hitem hread hres with ⟨res, off, hloop, hnonneg, -⟩
  refine ⟨?_, hcount, by exact_mod_cast hinside, (fat16ReadLoop_done hnonneg _ _ hloop).2.1⟩
  intro hnull
  rw [hnull] at hitem
  rw [fat16Read_null hitem hone] at hread
  cases hread

/-! ## Files on the disk -/

/-- The clusters of the chain hold the file, and a read that starts in one of them and goes on for
the size of a cluster stays in the `int` range of the disk. -/
structure HoldsFile (disk : Disk) (c : ℕ → ℕ) (k : ℕ) (item : FatDirectoryItem) : Prop where
  chain : FatChain disk c k
  first : fat16GetFirstCluster item = c 0
  root : 0 ≤ disk.fsPrivate.rootDirectory.endingSectorPos
  cluster : 0 < sizeOfClusterBytes disk
  enough : item.filesize.toNat ≤ k * sizeOfClusterBytes disk
  small : item.filesize.toNat < 2 ^ 31
  fits : ∀ i < k, disk.clusterPos (c i) + 2 * sizeOfClusterBytes disk ≤ 2 ^ 31

/-- Inside the file every item can be read. -/
lemma HoldsFile.itemReadable {c : ℕ → ℕ} {k : ℕ} (h : HoldsFile disk c k item) (hsize : 1 ≤ size)
    {o : ℕ} (hinside : o + size ≤ item.filesize.toNat) : ItemReadable disk item size o := by
  have hsmall := h.small
  have henough := h.enough
  have hfirst := h.chain.fatPos_lt 0 h.chain.pos
  unfold Disk.fatPos at hfirst
  have hfit : PiecesFit disk c o size := by
    intro j hj
    have hC := h.cluster
    have hmod := Nat.mod_lt o hC
    have hmin := min_le_left (sizeOfClusterBytes disk) (size - j * sizeOfClusterBytes disk)
    have hindex : o / sizeOfClusterBytes disk + j < k := by
      rw [← Nat.add_mul_div_right o j hC]
      exact (Nat.div_lt_iff_lt_mul hC).mpr (by omega)
    have hpos := h.fits _ hindex
    omega
  refine ⟨0, slice (pieceByte disk c o) 0 size, ?_, le_rfl⟩
  rw [fat16ReadInternal, h.first, i32_of_lt (by omega) (by omega), i32_of_lt (by omega) (by omega),
    i32_of_lt (by omega) (by omega)]
  exact (fat16ReadInternalFromStream_ok_iff h.chain h.root h.cluster size o hsize (by omega)
    (by omega)).mpr ⟨hfit, rfl⟩

/-- **Reads and the end of the file.** A call delivers bytes of the file only, returns their number
and moves behind them, exactly when what it asks for ends in the file and can be read; on a file
that the disk holds, exactly when what it asks for ends in the file. -/
theorem readsInside_iff (hfile : descriptor.item.payload = .item itemPtr item)
    (size nmemb : UInt32) (hsize : 1 ≤ size.toNat) (hone : 1 ≤ nmemb.toNat) :
    (ReadsInside disk descriptor item.filesize.toNat size.toNat nmemb.toNat ↔
      AsksInside disk descriptor itemPtr item size.toNat nmemb.toNat) ∧
    ∀ c k, itemPtr ≠ 0 → HoldsFile disk c k item →
      (ReadsInside disk descriptor item.filesize.toNat size.toNat nmemb.toNat ↔
        descriptor.pos + nmemb.toNat * size.toNat ≤ item.filesize.toNat) := by
  have hiff : ReadsInside disk descriptor item.filesize.toNat size.toNat nmemb.toNat ↔
      AsksInside disk descriptor itemPtr item size.toNat nmemb.toNat :=
    ⟨ReadsInside.asksInside hfile hone nmemb.toNat_lt, AsksInside.readsInside hfile⟩
  refine ⟨hiff, ?_⟩
  intro c k hptr hholds
  rw [hiff]
  constructor
  · exact fun h => h.inside
  · intro hinside
    have hsmall := hholds.small
    have hcount := Nat.le_mul_of_pos_right nmemb.toNat hsize
    refine ⟨hptr, by omega, hinside, ?_⟩
    intro i hi
    apply hholds.itemReadable hsize
    have hend : (i + 1) * size.toNat ≤ nmemb.toNat * size.toNat := Nat.mul_le_mul_right _ hi
    rw [Nat.succ_mul] at hend
    omega

/-! ## A file of 100 bytes -/

/-- The file `A` lies in cluster 2. -/
lemma hundredBytesDisk_holdsFile : HoldsFile hundredBytesDisk (fun _ => 2) 1 hundredBytesEntry where
  chain :=
    { pos := by decide
      two_le := fun _ _ => le_rfl
      fatPos_lt := fun _ _ => by decide
      next := fun i hi => by omega
      not_mark := fun i hi => by omega }
  first := rfl
  root := by decide
  cluster := by decide
  enough := by decide
  small := by decide
  fits := fun _ _ => by decide

/-- Ten items of ten bytes. -/
theorem readsInside_hundredBytes :
    ReadsInside hundredBytesDisk hundredBytesDescriptor 100 10 10 := by
  have hiff := @readsInside_iff hundredBytesDisk hundredBytesEntry hundredBytesDescriptor 4096 rfl
    10 10 (by decide) (by decide)
  exact (hiff.2 _ 1 (by decide) hundredBytesDisk_holdsFile).mpr (by decide)

/-- One item of 200 bytes is delivered whole, and the position is 200. -/
theorem read_past_end :
    ¬ ∀ (disk : Disk) (descriptor : FatFileDescriptor) (itemPtr : Addr) (item : FatDirectoryItem)
      (size nmemb : UInt32) (c : ℕ → ℕ) (k : ℕ),
      descriptor.item.payload = .item itemPtr item → itemPtr ≠ 0 → HoldsFile disk c k item →
      descriptor.pos ≤ item.filesize.toNat → 1 ≤ size.toNat → 1 ≤ nmemb.toNat →
      ReadsInside disk descriptor item.filesize.toNat size.toNat nmemb.toNat := by
  intro h
  have hread := h hundredBytesDisk hundredBytesDescriptor 4096 hundredBytesEntry 200 1 _ 1 rfl
    (by decide) hundredBytesDisk_holdsFile (by decide) (by decide) (by decide)
  have hasks : AsksInside hundredBytesDisk hundredBytesDescriptor 4096 hundredBytesEntry 200 1 :=
    hread.asksInside rfl (by decide) (by decide)
  exact absurd hasks.inside (by decide)

end MarrowOS
