import MarrowOS.Fs.FatDirectory

/-!
# FAT16: mounting a volume (`fat16.c`)

`fat16_resolve` allocates the private data with its streams, reads the boot sector and accepts the
volume by its extended signature. No other field of the header is looked at before it is used.
-/

namespace MarrowOS

open CInt Fallible Slice

@[simp] abbrev marrowosFat16Signature : UInt8 := 0x29

/-- `sizeof(struct fat_h)`, `sizeof(struct fat_private)` and `sizeof(struct disk_stream)`. -/
@[simp] abbrev sizeofFatH : ℕ := 62
@[simp] abbrev sizeofFatPrivate : ℕ := 92
@[simp] abbrev sizeofDiskStream : ℕ := 8

/-- The primary header in the bytes of `struct fat_h`. Bytes that are missing read as `0`. -/
def fatHeaderOf (bytes : List UInt8) : FatHeader :=
  let byte (i : ℕ) : UInt8 := bytes[i]?.getD 0
  let word (i : ℕ) : UInt16 := UInt16.ofNat ((byte i).toNat + 2 ^ 8 * (byte (i + 1)).toNat)
  { sectorsPerCluster := byte 13
    reservedSectors := word 14
    fatCopies := byte 16
    rootDirEntries := word 17
    sectorsPerFat := word 22 }

/-- `signature` of the extended header. -/
def fatSignatureOf (bytes : List UInt8) : UInt8 := bytes[38]?.getD 0

variable {σ : Type}

/-- The request of `disk_streamer_new`. A stream that is not allocated is written to all the same.
-/
def diskStreamerAlloc (A : Allocator σ) (s : σ) : Except Fault (Addr × σ) :=
  let (streamer, s) := A.kmalloc sizeofDiskStream s
  if streamer = 0 then .error .nullPointer else .ok (streamer, s)

/-- Clears the private data and allocates its streams. -/
def fat16InitPrivate (A : Allocator σ) (fatPrivate : Addr) (s : σ) :
    Except Fault ((Addr × Addr × Addr) × σ) := do
  if fatPrivate = 0 then throw .nullPointer
  let (clusterReadStream, s) ← diskStreamerAlloc A s
  let (fatReadStream, s) ← diskStreamerAlloc A s
  let (directoryStream, s) ← diskStreamerAlloc A s
  return ((clusterReadStream, fatReadStream, directoryStream), s)

/-- Returns the status, and the disk if its private data was kept. -/
def fat16Resolve (A : Allocator σ) (device : Device) (s : σ) :
    Except Fault ((ℤ × Option Disk) × σ) := do
  let (fatPrivate, s) := A.kmalloc sizeofFatPrivate s
  let (_, s) ← fat16InitPrivate A fatPrivate s
  let (stream, s) ← diskStreamerAlloc A s
  let read ← diskStreamerRead device 0 (sizeofFatH : ℕ)
  let disk : Disk := ⟨device, fatHeaderOf read.out, ⟨0, [], 0, 0, 0⟩⟩
  if fatSignatureOf read.out ≠ marrowosFat16Signature then
    return ((-efsnotus, none), A.kfree fatPrivate (A.kfree stream s))
  else
    let ((res, rootDirectory), s) ← fat16GetRootDirectory A disk s
    if res ≠ marrowosAllOk then
      return ((-eio, none), A.kfree fatPrivate (A.kfree stream s))
    else
      return ((0, some { disk with fsPrivate := ⟨fatHeaderOf read.out, rootDirectory⟩ }),
        A.kfree stream s)

/-! ## Accepted volumes -/

variable {A : Allocator σ} {device : Device} {disk : Disk} {s s' : σ} {res : ℤ}

/-- The bytes of the boot sector that are read. -/
lemma diskStreamerRead_header (device : Device) :
    ∃ read, diskStreamerRead device 0 (sizeofFatH : ℕ) = .ok read ∧
      read.out = slice device.byte 0 sizeofFatH :=
  ⟨_, diskStreamerRead_eq device 0 sizeofFatH (by norm_num), rfl⟩

/-- A mount ends in one of three ways: the signature is missing, the root directory is not loaded,
or the volume has the header of the boot sector and the root directory that was loaded. -/
lemma fat16Resolve_cases {accepted : Option Disk}
    (h : fat16Resolve A device s = .ok ((res, accepted), s')) :
    (res = -efsnotus ∧ accepted = none) ∨ (res = -eio ∧ accepted = none) ∨
      (res = 0 ∧ device.byte 38 = marrowosFat16Signature ∧ ∃ rootDirectory s₁ s₂,
        fat16GetRootDirectory A
          ⟨device, fatHeaderOf (slice device.byte 0 sizeofFatH), ⟨0, [], 0, 0, 0⟩⟩ s₁ =
            .ok ((0, rootDirectory), s₂) ∧
        accepted = some ⟨device, fatHeaderOf (slice device.byte 0 sizeofFatH), rootDirectory⟩) := by
  unfold fat16Resolve at h
  rcases bind_eq_ok.mp h with ⟨⟨_, s₀⟩, -, h⟩
  rcases bind_eq_ok.mp h with ⟨⟨stream, s₁⟩, -, h⟩
  rcases bind_eq_ok.mp h with ⟨read, hread, h⟩
  rcases diskStreamerRead_header device with ⟨read', hread', hout⟩
  rw [← Except.ok.inj (hread'.symm.trans hread), hout] at h
  by_cases hsignature : fatSignatureOf (slice device.byte 0 sizeofFatH) ≠ marrowosFat16Signature
  · rcases Prod.mk.inj (Prod.mk.inj (Except.ok.inj ((if_pos hsignature).symm.trans h))).1 with
      ⟨hres, hnone⟩
    exact Or.inl ⟨hres.symm, hnone.symm⟩
  rcases bind_eq_ok.mp ((if_neg hsignature).symm.trans h) with ⟨⟨⟨r, rootDirectory⟩, s₂⟩, hroot, h⟩
  right
  by_cases hr : r ≠ marrowosAllOk
  · rcases Prod.mk.inj (Prod.mk.inj (Except.ok.inj ((if_pos hr).symm.trans h))).1 with
      ⟨hres, hnone⟩
    exact Or.inl ⟨hres.symm, hnone.symm⟩
  · rcases Prod.mk.inj (Prod.mk.inj (Except.ok.inj ((if_neg hr).symm.trans h))).1 with
      ⟨hres, hsome⟩
    rw [not_not.mp hr] at hroot
    exact Or.inr ⟨hres.symm, not_not.mp hsignature, rootDirectory, s₁, s₂, hroot, hsome.symm⟩

/-- A volume that is accepted has the header of the boot sector, and the root directory that
`fat16_get_root_directory` loads. -/
theorem fat16Resolve_ok {accepted : Option Disk}
    (h : fat16Resolve A device s = .ok ((0, accepted), s')) :
    device.byte 38 = marrowosFat16Signature ∧ ∃ rootDirectory s₁ s₂,
      fat16GetRootDirectory A
        ⟨device, fatHeaderOf (slice device.byte 0 sizeofFatH), ⟨0, [], 0, 0, 0⟩⟩ s₁ =
          .ok ((0, rootDirectory), s₂) ∧
      accepted = some ⟨device, fatHeaderOf (slice device.byte 0 sizeofFatH), rootDirectory⟩ := by
  rcases fat16Resolve_cases h with ⟨hres, -⟩ | ⟨hres, -⟩ | ⟨-, hsignature, hroot⟩
  · exact absurd hres (by decide)
  · exact absurd hres (by decide)
  · exact ⟨hsignature, hroot⟩

/-- A volume that is not accepted has no private data. -/
theorem fat16Resolve_failed {accepted : Option Disk}
    (h : fat16Resolve A device s = .ok ((res, accepted), s')) (hfail : res ≠ 0) :
    accepted = none := by
  rcases fat16Resolve_cases h with ⟨-, hnone⟩ | ⟨-, hnone⟩ | ⟨hres, -⟩
  · exact hnone
  · exact hnone
  · exact absurd hres hfail

end MarrowOS
