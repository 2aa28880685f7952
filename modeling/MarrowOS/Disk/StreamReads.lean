import MarrowOS.Disk.StreamerTheorems
import MarrowOS.Lib.ByteMem

/-!
# Reads from the disk into memory

`disk_streamer_read` with all that it touches: the stream, whose disk `disk_read_block` compares
with the only one there is, the status, and the memory behind `out`. `diskStreamerReadInto_eq`
connects it with `diskStreamerRead`, which only says which bytes are read and from which sectors.

* `diskStreamerReadInto_reads`: a read delivers the bytes of the disk from the stream's position on.
* `requestsNeeded_iff`: a read whose end is a sector boundary asks for one sector more than it
  needs.
-/

namespace MarrowOS

open ByteMem Fallible Slice

/-! ## The disk and its streams -/

/-- The variable `disk`, at address `addr`, and the drive it stands for. -/
structure DiskDrive where
  addr : Addr
  device : Device

/-- `struct disk_stream`. -/
structure DiskStream where
  pos : ℤ
  disk : Addr
deriving DecidableEq, Repr

/-- `disk_get`. -/
def diskGet (drive : DiskDrive) (index : ℤ) : Option Addr :=
  if index ≠ 0 then none else some drive.addr

/-- `disk_streamer_new`, for a stream that is allocated. -/
def diskStreamerNew (drive : DiskDrive) (diskId : ℤ) : Option DiskStream :=
  (diskGet drive diskId).map fun disk => ⟨0, disk⟩

/-- The status of `disk_read_block`; the drive always answers. -/
def diskReadBlock (drive : DiskDrive) (idisk : Addr) : ℤ :=
  if idisk ≠ drive.addr then -eio else 0

/-- Returns the status, the stream and the memory afterwards. -/
def diskStreamerReadInto (drive : DiskDrive) (stream : DiskStream) (out : ℕ) (total : ℤ)
    (mem : Mem) : Except Fault (ℤ × DiskStream × Mem) := do
  let sector := stream.pos.tdiv marrowosSectorSize
  let offset := stream.pos.tmod marrowosSectorSize
  let _ ← checkedInt (offset + total)
  let res := diskReadBlock drive stream.disk
  if _hoverflow : offset + total ≥ marrowosSectorSize then
    let totalToRead := total - ((offset + total) - marrowosSectorSize)
    if res < 0 then return (res, stream, mem)
    let buf ← copySector drive.device sector offset totalToRead
    let pos ← checkedInt (stream.pos + totalToRead)
    diskStreamerReadInto drive { stream with pos } (out + buf.length) (total - totalToRead)
      (writeBytes mem out buf)
  else
    if res < 0 then return (res, stream, mem)
    let buf ← copySector drive.device sector offset total
    let pos ← checkedInt (stream.pos + total)
    return (res, { stream with pos }, writeBytes mem out buf)
termination_by total.toNat
decreasing_by
  have hoffset := Int.tmod_lt_of_pos stream.pos (by decide : (0 : ℤ) < marrowosSectorSize)
  omega

/-! ## Reading -/

/-- A read through a stream of the disk delivers what `diskStreamerRead` reads. -/
theorem diskStreamerReadInto_eq (drive : DiskDrive) (pos total : ℤ) (out : ℕ) (mem : Mem) :
    diskStreamerReadInto drive ⟨pos, drive.addr⟩ out total mem =
      (diskStreamerRead drive.device pos total).map fun read =>
        (0, ⟨read.pos, drive.addr⟩, writeBytes mem out read.out) := by
  induction hn : total.toNat using Nat.strong_induction_on generalizing pos total out mem with
  | _ n ih =>
    subst hn
    have hoffset : pos.tmod marrowosSectorSize < 512 := Int.tmod_lt_of_pos pos (by decide)
    have hres : diskReadBlock drive drive.addr = 0 := if_neg (not_not.mpr rfl)
    rw [diskStreamerReadInto, diskStreamerRead]
    simp only [hres, lt_irrefl, if_false]
    cases checkedInt (pos.tmod marrowosSectorSize + total) with
    | error fault => rfl
    | ok sum =>
      rw [ok_bind, ok_bind]
      by_cases hover : pos.tmod marrowosSectorSize + total ≥ marrowosSectorSize
      · rw [dif_pos hover, dif_pos hover]
        cases copySector drive.device (pos.tdiv marrowosSectorSize) (pos.tmod marrowosSectorSize)
          (total - (pos.tmod marrowosSectorSize + total - (marrowosSectorSize : ℕ))) with
        | error fault => rfl
        | ok buf =>
          rw [ok_bind, ok_bind]
          cases hpos : checkedInt
            (pos + (total - (pos.tmod marrowosSectorSize + total - (marrowosSectorSize : ℕ)))) with
          | error fault => rfl
          | ok posNext =>
            rw [ok_bind, ok_bind, ih _ (by simp only [marrowosSectorSize] at *; omega) _ _ _ _ rfl]
            -- what the rest delivers goes behind what was written already
            cases diskStreamerRead drive.device posNext
              (total - (total - (pos.tmod marrowosSectorSize + total - (marrowosSectorSize : ℕ))))
              with
            | error fault => rfl
            | ok rest =>
              show Except.ok
                  (0, _, writeBytes (writeBytes mem out buf) (out + buf.length) rest.out) =
                Except.ok (0, _, writeBytes mem out (buf ++ rest.out))
              rw [writeBytes_append]
      · rw [dif_neg hover, dif_neg hover]
        cases copySector drive.device (pos.tdiv marrowosSectorSize) (pos.tmod marrowosSectorSize)
          total with
        | error fault => rfl
        | ok buf =>
          rw [ok_bind, ok_bind]
          cases checkedInt (pos + total) with
          | error fault => rfl
          | ok posNext => rfl

/-- A stream of the disk at a position. -/
def diskStream (drive : DiskDrive) (pos : ℕ) : DiskStream := ⟨pos, drive.addr⟩

/-- **Streamer read.** A read delivers the bytes of the disk from the stream's position on, and
advances the stream by as many; so two reads deliver what one of both lengths does. -/
theorem diskStreamerReadInto_reads (drive : DiskDrive) (pos total out : ℕ) (mem : Mem)
    (h : pos + total + 512 < 2 ^ 31) :
    diskStreamerReadInto drive (diskStream drive pos) out total mem =
      .ok (0, diskStream drive (pos + total),
        writeBytes mem out (slice drive.device.byte pos total)) ∧
    ∀ a b : ℕ, total = a + b → (do
      let (_, stream, mem) ← diskStreamerReadInto drive (diskStream drive pos) out a mem
      diskStreamerReadInto drive stream (out + a) b mem) =
        diskStreamerReadInto drive (diskStream drive pos) out total mem := by
  have hread : ∀ (pos total out : ℕ) (mem : Mem), pos + total < 2 ^ 31 →
      diskStreamerReadInto drive (diskStream drive pos) out total mem =
        .ok (0, diskStream drive (pos + total),
          writeBytes mem out (slice drive.device.byte pos total)) := by
    intro pos total out mem hlt
    rw [diskStream, diskStreamerReadInto_eq, diskStreamerRead_eq drive.device pos total hlt]
    rfl
  refine ⟨hread pos total out mem (by omega), ?_⟩
  intro a b htotal
  rw [hread pos a out mem (by omega), hread pos total out mem (by omega), ok_bind]
  show diskStreamerReadInto drive (diskStream drive (pos + a)) (out + a) b
    (writeBytes mem out (slice drive.device.byte pos a)) = _
  have happend := @writeBytes_append mem out (slice drive.device.byte pos a)
    (slice drive.device.byte (pos + a) b)
  rw [length_slice] at happend
  rw [hread (pos + a) b (out + a) _ (by omega), happend, ← slice_add, htotal, Nat.add_assoc]

/-- A drive whose byte `i` of sector `s` is `s + i`. -/
def countingDrive : DiskDrive where
  addr := 0x8000
  device.sector lba i := UInt8.ofNat (lba.toNat + i)

/-- The last two bytes of sector 0 and the first two of sector 1. -/
theorem diskStreamerReadInto_reads_across :
    diskStreamerReadInto countingDrive (diskStream countingDrive 510) 0 (4 : ℕ) (fun _ => 0) =
      .ok (0, diskStream countingDrive 514, writeBytes (fun _ => 0) 0 [254, 255, 1, 2]) :=
  (diskStreamerReadInto_reads countingDrive 510 4 0 (fun _ => 0) (by decide)).1

/-! ## Requests -/

variable {device : Device} {pos total : ℕ}

/-- The sectors asked for are those of the bytes that are read, in order. -/
def RequestsNeeded (device : Device) (pos total : ℕ) : Prop :=
  ∃ read, diskStreamerRead device pos total = .ok read ∧
    read.requested =
      slice (fun s => (s : ℤ)) (pos / 512) ((pos + total - 1) / 512 - pos / 512 + 1)

/-- **Requests.** A read asks exactly for the sectors it needs unless its end is the end of a
sector: then it asks for the next sector too. -/
theorem requestsNeeded_iff (htotal : 1 ≤ total) (h : pos + total < 2 ^ 31) :
    RequestsNeeded device pos total ↔ (pos + total) % 512 ≠ 0 := by
  have hread := diskStreamerRead_eq device pos total h
  constructor
  · rintro ⟨read, hok, hsectors⟩
    rw [hread] at hok
    rw [← Except.ok.inj hok] at hsectors
    have hlength := congrArg List.length hsectors
    rw [length_slice, length_slice] at hlength
    omega
  · intro hend
    refine ⟨_, hread, ?_⟩
    show slice _ _ _ = slice _ _ _
    rw [show (pos + total - 1) / 512 = (pos + total) / 512 by omega]

/-- The first 511 bytes of the disk. -/
theorem requestsNeeded_partial_sector : RequestsNeeded countingDrive.device 0 511 :=
  (requestsNeeded_iff (by decide) (by decide)).mpr (by decide)

/-- A read of the whole first sector, all there is on a disk of one sector, asks for the second
one. -/
theorem requestsNeeded_whole_sector :
    ¬ ∀ (device : Device) (pos total : ℕ), 1 ≤ total → pos + total < 2 ^ 31 →
      RequestsNeeded device pos total := by
  intro h
  rcases h countingDrive.device 0 512 (by decide) (by decide) with ⟨read, hok, hsectors⟩
  rw [diskStreamerRead_eq _ _ _ (by decide)] at hok
  rw [← Except.ok.inj hok] at hsectors
  have hlength := congrArg List.length hsectors
  rw [length_slice, length_slice] at hlength
  exact absurd hlength (by decide)

end MarrowOS
