import MarrowOS.Config
import Mathlib.Algebra.Group.Int.Defs
import Mathlib.Data.Int.Notation

/-!
# The disk and its streamer (`disk.c`, `streamer.c`)

The drive answers a sector number with 512 bytes. A stream is a byte position on the disk;
`disk_streamer_read` cuts a read at the sector boundaries. Every function that reads through
one of the kernel's streams seeks it first, so the model passes the position along and returns
the new one. A read also returns the sectors it requested, in order.
-/

namespace MarrowOS

/-- What the drive answers: byte `i` of sector `lba`. -/
structure Device where
  sector : (lba : ℤ) → (i : ℕ) → UInt8

/-- An `int` result; overflow is undefined. -/
def checkedInt (x : ℤ) : Except Fault ℤ :=
  if -2 ^ 31 ≤ x ∧ x < 2 ^ 31 then .ok x else .error .signedOverflow

/-- What `disk_streamer_read` leaves behind. The drive always answers, so its status is `0`. -/
structure StreamRead where
  /-- the bytes written from `out` on -/
  out : List UInt8
  /-- the sectors asked of `disk_read_block` -/
  requested : List ℤ
  /-- the position of the stream -/
  pos : ℤ
deriving DecidableEq, Repr

/-- The bytes `buf[offset], …, buf[offset + n - 1]` of a sector buffer. -/
def copySector (device : Device) (sector offset n : ℤ) : Except Fault (List UInt8) :=
  if offset < 0 ∧ 0 < n then .error .outOfBounds
  else .ok ((List.range n.toNat).map fun i => device.sector sector (offset.toNat + i))

def diskStreamerSeek (pos : ℤ) : ℤ × ℤ := (0, pos)

def diskStreamerRead (device : Device) (pos total : ℤ) : Except Fault StreamRead := do
  let sector := pos.tdiv marrowosSectorSize
  let offset := pos.tmod marrowosSectorSize
  let _ ← checkedInt (offset + total)
  if _hoverflow : offset + total ≥ marrowosSectorSize then
    let totalToRead := total - ((offset + total) - marrowosSectorSize)
    let out ← copySector device sector offset totalToRead
    let posNext ← checkedInt (pos + totalToRead)
    let rest ← diskStreamerRead device posNext (total - totalToRead)
    return ⟨out ++ rest.out, sector :: rest.requested, rest.pos⟩
  else
    let out ← copySector device sector offset total
    let pos ← checkedInt (pos + total)
    return ⟨out, [sector], pos⟩
termination_by total.toNat
decreasing_by
  have hoffset := Int.tmod_lt_of_pos pos (by decide : (0 : ℤ) < marrowosSectorSize)
  omega

end MarrowOS
