import MarrowOS.Disk.Streamer
import MarrowOS.Lib.CInt
import Mathlib.Data.UInt

/-!
# The disk driver and the drive (`disk.c`, `io.asm`, `boot.asm`)

The driver and the boot loader talk to the drive through ports. They run over the state `σ` of
whatever is behind the ports. `AtaDrive` is a drive that follows the protocol the comments of
`disk_read_sector` describe: a command takes the sector numbers from the registers, and each sector
is handed over word by word once the drive says that it is ready, which may take any time.

The loop that waits for the drive takes the number of its status reads: a wait that is still not
over when it has none left answers `none`.
-/

namespace MarrowOS

open CInt

/-- `outb`, `insb` and `insw` over the state of the devices. -/
structure Ports (σ : Type) where
  outb : (port : ℕ) → (val : UInt8) → σ → σ
  insb : (port : ℕ) → σ → UInt8 × σ
  insw : (port : ℕ) → σ → UInt16 × σ

/-- An argument of type `unsigned char`. -/
def u8 (x : ℤ) : UInt8 := UInt8.ofNat (u32 x)

variable {σ : Type} (P : Ports σ) (polls : ℕ)

/-! ## The driver -/

/-- The `while` loop of `disk_read_sector` with the status read before it. -/
def diskWait : (polls : ℕ) → σ → Option σ
  | 0, _ => none
  | polls + 1, s =>
    let (c, s) := P.insb 0x1F7 s
    if c &&& 0x08 = 0 then diskWait polls s else some s

/-- The loop that reads the words of a sector, with `n` of them to go: the bytes it stores. -/
def diskReadWords : (n : ℕ) → σ → List UInt8 × σ
  | 0, s => ([], s)
  | n + 1, s =>
    let (w, s) := P.insw 0x1F0 s
    let (out, s) := diskReadWords n s
    (w.toUInt8 :: (w >>> 8).toUInt8 :: out, s)

/-- A sector is 256 words. -/
@[irreducible] def diskReadWholeSector (s : σ) : List UInt8 × σ := diskReadWords P 256 s

/-- The loop of `disk_read_sector` with `n` sectors to go. -/
def diskReadSectorLoop : (n : ℕ) → σ → Option (List UInt8 × σ)
  | 0, s => some ([], s)
  | n + 1, s => do
    let s ← diskWait P polls s
    let (sector, s) := diskReadWholeSector P s
    let (out, s) ← diskReadSectorLoop n s
    return (sector ++ out, s)

/-- Returns the status and the bytes stored from `buf` on. -/
def diskReadSector (lba total : ℤ) (s : σ) : Option ((ℤ × List UInt8) × σ) := do
  -- the top bits of the address share a register with the selection of the drive
  let s := P.outb 0x1F6 (u8 (lba >>> (24 : ℕ)) ||| 0xE0) s
  let s := P.outb 0x1F2 (u8 total) s
  let s := P.outb 0x1F3 (u8 lba) s
  let s := P.outb 0x1F4 (u8 (lba >>> (8 : ℕ))) s
  let s := P.outb 0x1F5 (u8 (lba >>> (16 : ℕ))) s
  let s := P.outb 0x1F7 0x20 s
  let (out, s) ← diskReadSectorLoop P polls total.toNat s
  return ((0, out), s)

/-- There is one disk, at address `disk`. -/
def diskReadBlockAta (disk idisk : Addr) (lba : ℕ) (total : ℤ) (s : σ) :
    Option ((ℤ × List UInt8) × σ) :=
  if idisk ≠ disk then some ((-eio, []), s) else diskReadSector P polls (i32 lba) total s

/-- The bytes `buf[offset], …, buf[offset + n - 1]`. -/
def copyBuffer (buf : List UInt8) (offset n : ℤ) : Except Fault (List UInt8) :=
  if offset < 0 ∧ 0 < n then .error .outOfBounds
  else .ok ((List.range n.toNat).map fun i => buf.getD (offset.toNat + i) 0)

/-- `disk_streamer_read` with the driver below it: the status, and what it leaves behind. -/
def diskStreamerReadBlocks (disk streamDisk : Addr) (pos total : ℤ) (s : σ) :
    Option (Except Fault ((ℤ × StreamRead) × σ)) :=
  let sector := pos.tdiv marrowosSectorSize
  let offset := pos.tmod marrowosSectorSize
  match checkedInt (offset + total) with
  | .error fault => some (.error fault)
  | .ok _ =>
    match diskReadBlockAta P polls disk streamDisk (u32 sector) 1 s with
    | none => none
    | some ((res, buf), s) =>
      if res < 0 then some (.ok ((res, ⟨[], [sector], pos⟩), s))
      else if _hoverflow : offset + total ≥ marrowosSectorSize then
        let totalToRead := total - ((offset + total) - marrowosSectorSize)
        match copyBuffer buf offset totalToRead, checkedInt (pos + totalToRead) with
        | .error fault, _ => some (.error fault)
        | _, .error fault => some (.error fault)
        | .ok out, .ok posNext =>
          match diskStreamerReadBlocks disk streamDisk posNext (total - totalToRead) s with
          | none => none
          | some (.error fault) => some (.error fault)
          | some (.ok ((res, rest), s)) =>
            some (.ok ((res, ⟨out ++ rest.out, sector :: rest.requested, rest.pos⟩), s))
      else
        match copyBuffer buf offset total, checkedInt (pos + total) with
        | .error fault, _ => some (.error fault)
        | _, .error fault => some (.error fault)
        | .ok out, .ok pos => some (.ok ((res, ⟨out, [sector], pos⟩), s))
termination_by total.toNat
decreasing_by
  have hoffset := Int.tmod_lt_of_pos pos (by decide : (0 : ℤ) < marrowosSectorSize)
  omega

/-! ## The boot loader -/

/-- The loop `.next_sector` with at most `n` rounds to go; `loop` counts `ecx` down before it looks
at it. -/
def ataNextSector : (n : ℕ) → (ecx : ℕ) → σ → Option (List UInt8 × σ)
  | 0, _, _ => none
  | n + 1, ecx, s => do
    -- `.try_again`
    let s ← diskWait P polls s
    -- `rep insw`
    let (sector, s) := diskReadWholeSector P s
    let ecx := u32 (ecx - 1)
    if ecx = 0 then return (sector, s)
    else
      let (out, s) ← ataNextSector n ecx s
      return (sector ++ out, s)

/-- `ata_lba_read`, with the sector in `eax` and the number of sectors in `ecx`: the bytes stored
from `edi` on. -/
def ataLbaRead (eax ecx : ℕ) (s : σ) : Option (List UInt8 × σ) :=
  let ebx := eax
  let eax := ebx >>> 24 ||| 0xE0
  let s := P.outb 0x1F6 (u8 eax) s
  let eax := ecx
  let s := P.outb 0x1F2 (u8 eax) s
  let eax := ebx
  let s := P.outb 0x1F3 (u8 eax) s
  let s := P.outb 0x1F4 (u8 (eax >>> 8 : ℕ)) s
  let s := P.outb 0x1F5 (u8 (eax >>> 16 : ℕ)) s
  let s := P.outb 0x1F7 0x20 s
  ataNextSector P polls (2 ^ 32) ecx s

/-! ## The drive -/

/-- The first drive of the bus, and no second one. The registers are those of the next command;
`busy k` is the number of status reads for which sector `k`, counted from power on, lets the host
wait, and the last four fields are the transfer. -/
structure AtaDrive where
  device : Device
  busy : ℕ → ℕ
  driveHead : UInt8 := 0
  sectorCount : UInt8 := 0
  lbaLow : UInt8 := 0
  lbaMid : UInt8 := 0
  lbaHigh : UInt8 := 0
  /-- sectors handed over so far -/
  served : ℕ := 0
  /-- the sector that is handed over -/
  lba : ℕ := 0
  /-- sectors of the command that are not handed over yet -/
  remaining : ℕ := 0
  /-- status reads until the sector is ready -/
  wait : ℕ := 0
  /-- words of the sector that were read -/
  word : ℕ := 0

namespace AtaDrive

/-- The sector number in the registers; the head register holds four bits of it. -/
def address (d : AtaDrive) : ℕ :=
  d.lbaLow.toNat + d.lbaMid.toNat * 2 ^ 8 + d.lbaHigh.toNat * 2 ^ 16 +
    d.driveHead.toNat % 2 ^ 4 * 2 ^ 24

/-- The command `0x20`; the count `0` stands for 256 sectors. A command for the other drive is not
answered. -/
def readSectors (d : AtaDrive) : AtaDrive :=
  if d.driveHead.toNat / 2 ^ 4 % 2 = 1 then d
  else
    { d with
      lba := d.address
      remaining := if d.sectorCount = 0 then 256 else d.sectorCount.toNat
      wait := d.busy d.served
      word := 0 }

/-- A drive that transfers takes no registers. -/
def outb (port : ℕ) (val : UInt8) (d : AtaDrive) : AtaDrive :=
  if d.remaining ≠ 0 then d
  else match port with
    | 0x1F2 => { d with sectorCount := val }
    | 0x1F3 => { d with lbaLow := val }
    | 0x1F4 => { d with lbaMid := val }
    | 0x1F5 => { d with lbaHigh := val }
    | 0x1F6 => { d with driveHead := val }
    | 0x1F7 => if val = 0x20 then d.readSectors else d
    | _ => d

/-- The status register. Bit 3 says that a sector is ready, bit 7 that the drive is busy with it. -/
def insb (port : ℕ) (d : AtaDrive) : UInt8 × AtaDrive :=
  match port with
  | 0x1F7 =>
    if d.remaining = 0 then (0x50, d)
    else if d.wait = 0 then (0x58, d)
    else (0x80, { d with wait := d.wait - 1 })
  | _ => (0xFF, d)

/-- The next word of the sector that is ready. -/
def insw (port : ℕ) (d : AtaDrive) : UInt16 × AtaDrive :=
  match port with
  | 0x1F0 =>
    if d.remaining = 0 ∨ d.wait ≠ 0 then (0xFFFF, d)
    else
      let byte (i : ℕ) : ℕ := (d.device.sector d.lba i).toNat
      let val := UInt16.ofNat (byte (2 * d.word) + byte (2 * d.word + 1) * 2 ^ 8)
      if d.word + 1 = 256 then
        (val, { d with
          served := d.served + 1
          lba := d.lba + 1
          remaining := d.remaining - 1
          wait := d.busy (d.served + 1)
          word := 0 })
      else (val, { d with word := d.word + 1 })
  | _ => (0xFFFF, d)

end AtaDrive

/-- The ports with the drive behind them. -/
def ataPorts : Ports AtaDrive := ⟨AtaDrive.outb, AtaDrive.insb, AtaDrive.insw⟩

end MarrowOS
