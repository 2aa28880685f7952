import MarrowOS.Disk.Ata
import MarrowOS.Disk.StreamerTheorems
import Mathlib.Data.Finset.Lattice.Fold
import Mathlib.Data.Finset.Range

/-!
# The protocol between driver and drive

The boot loader and the driver ask for the same port operations (`ataLbaRead_eq`). With a drive
behind the ports, a call of `disk_read_sector` returns exactly when it asks for at most 256 sectors
of the first drive, however long the drive takes for each of them; it then has read these sectors
and the drive is idle again (`diskReadSector_calls`). The streamer over the driver is the streamer
over the sectors themselves (`diskStreamerReadBlocks_eq`).
-/

namespace MarrowOS

open CInt Fallible Slice

/-- A drive with a third of the sectors ready at once, that holds its sector number in every
sector. -/
def numberedDrive : AtaDrive where
  device := ⟨fun lba i => UInt8.ofNat (lba.toNat + i)⟩
  busy k := k % 3

/-! ## The boot loader -/

section
variable {σ : Type} (P : Ports σ) {polls : ℕ}

lemma ataNextSector_eq {n ecx : ℕ} (hpos : 0 < ecx) (hn : ecx ≤ n) (hecx : ecx < 2 ^ 32) (s : σ) :
    ataNextSector P polls n ecx s = diskReadSectorLoop P polls ecx s := by
  induction n generalizing ecx s with
  | zero => omega
  | succ n ih =>
    obtain ⟨k, rfl⟩ : ∃ k, ecx = k + 1 := ⟨ecx - 1, by omega⟩
    have hnext : u32 (((k + 1 : ℕ) : ℤ) - 1) = k := by
      rw [u32_of_lt (by omega) (by omega)]
      omega
    rw [ataNextSector, diskReadSectorLoop]
    cases hwait : diskWait P polls s with
    | none => rfl
    | some s₁ =>
      simp only [Option.bind_eq_bind, Option.bind_some, hnext]
      by_cases hk : k = 0
      · rw [if_pos hk, hk, diskReadSectorLoop, Option.bind_some, List.append_nil]
      · rw [if_neg hk, ih (by omega) (by omega) (by omega)]

/-- Only the low byte of an argument is sent. -/
lemma u8_congr {x y : ℤ} (h : x % 2 ^ 8 = y % 2 ^ 8) : u8 x = u8 y := by
  apply UInt8.toNat_inj.mp
  unfold u8 u32
  rw [UInt8.toNat_ofNat', UInt8.toNat_ofNat']
  omega

lemma u8_or (a b : ℕ) : u8 (a ||| b : ℕ) = u8 a ||| u8 b := by
  have hbyte (n : ℕ) : u8 n = UInt8.ofNat n := by
    apply UInt8.toNat_inj.mp
    rw [u8, UInt8.toNat_ofNat', UInt8.toNat_ofNat', u32_natCast]
    omega
  rw [hbyte, hbyte, hbyte, UInt8.ofNat_or]

/-- The low bytes of a sector number do not depend on its sign. -/
lemma u8_shiftRight_congr {x y : ℤ} (h : x % 2 ^ 32 = y % 2 ^ 32) {k : ℕ} (hk : k ≤ 24) :
    u8 (x >>> k) = u8 (y >>> k) := by
  apply u8_congr
  obtain ⟨q, hq⟩ : ∃ q : ℤ, x = y + q * 2 ^ 32 := ⟨x / 2 ^ 32 - y / 2 ^ 32, by omega⟩
  have hsplit : (2 : ℤ) ^ 32 = 2 ^ 8 * 2 ^ (24 - k) * (2 ^ k : ℕ) := by
    rw [Nat.cast_pow, Nat.cast_ofNat, ← pow_add, ← pow_add, show 8 + (24 - k) + k = 32 by omega]
  rw [Int.shiftRight_eq_div_pow, Int.shiftRight_eq_div_pow, hq, hsplit, ← mul_assoc,
    Int.add_mul_ediv_right _ _ (by positivity), ← mul_assoc, mul_comm q, mul_assoc,
    mul_comm q, Int.add_mul_emod_self_left]

lemma u8_i32_shiftRight (eax : ℕ) {k : ℕ} (hk : k ≤ 24) :
    u8 (i32 eax >>> k) = u8 (eax >>> k : ℕ) :=
  u8_shiftRight_congr (Int.bmod_emod (x := (eax : ℤ)) (m := 2 ^ 32)) hk

/-- **The two readers.** Whatever is behind the ports, the boot loader's `ata_lba_read` does to it
what `disk_read_sector` does, and stores the same bytes. -/
theorem ataLbaRead_eq (P : Ports σ) (polls : ℕ) (eax : ℕ) {ecx : ℕ} (hpos : 0 < ecx)
    (hecx : ecx < 2 ^ 31) (s : σ) :
    diskReadSector P polls (i32 eax) ecx s =
      (ataLbaRead P polls eax ecx s).map fun r => ((0, r.1), r.2) := by
  have hlow : u8 (i32 eax) = u8 eax := by simpa using @u8_i32_shiftRight eax 0 (by omega)
  have hhead : u8 (i32 eax >>> (24 : ℕ)) ||| (0xE0 : UInt8) = u8 (eax >>> 24 ||| 0xE0 : ℕ) := by
    rw [u8_or, u8_i32_shiftRight _ le_rfl]
    rfl
  unfold diskReadSector ataLbaRead
  simp only [hlow, hhead, @u8_i32_shiftRight _ 8 (by omega), @u8_i32_shiftRight _ 16 (by omega),
    ataNextSector_eq P hpos (by omega : ecx ≤ 2 ^ 32) (by omega), Int.toNat_natCast]
  rw [Option.map_eq_bind]
  rfl

/-- The kernel's hundred sectors. -/
theorem ataLbaRead_eq_kernel : diskReadSector ataPorts 3 (i32 1) 100 numberedDrive =
    (ataLbaRead ataPorts 3 1 100 numberedDrive).map fun r => ((0, r.1), r.2) :=
  ataLbaRead_eq ataPorts 3 1 (by decide) (by decide) numberedDrive

end

/-! ## The transfer -/

/-- The bytes of a sector. -/
def Device.sectorBytes (device : Device) (lba : ℕ) : List UInt8 := slice (device.sector lba) 0 512

/-- The bytes of `total` sectors from `lba` on. -/
def Device.sectors (device : Device) (lba total : ℕ) : List UInt8 :=
  (slice device.sectorBytes lba total).flatten

lemma Device.sectors_succ (device : Device) (lba total : ℕ) : device.sectors lba (total + 1) =
    device.sectorBytes lba ++ device.sectors (lba + 1) total := by
  unfold sectors
  rw [slice_succ, List.flatten_cons]

namespace AtaDrive

variable {d : AtaDrive} {n polls : ℕ}

/-- The drive between two commands. -/
def Idle (d : AtaDrive) : Prop := d.remaining = 0

/-- The drive before a sector. -/
structure AtSector (d : AtaDrive) : Prop where
  wait : d.wait = d.busy d.served
  word : d.word = 0

/-- The drive when `n` more sectors were handed over. -/
def advance (d : AtaDrive) (n : ℕ) : AtaDrive :=
  { d with
    served := d.served + n
    lba := d.lba + n
    remaining := d.remaining - n
    wait := d.busy (d.served + n)
    word := 0 }

/-- The drive when its sector is ready. -/
def ready (d : AtaDrive) : AtaDrive := { d with wait := 0 }

/-- The drive at another word of its sector. -/
def atWord (d : AtaDrive) (word : ℕ) : AtaDrive := { d with word }

@[simp] lemma advance_device (d : AtaDrive) (n : ℕ) : (d.advance n).device = d.device := rfl
@[simp] lemma advance_busy (d : AtaDrive) (n : ℕ) : (d.advance n).busy = d.busy := rfl
@[simp] lemma advance_served (d : AtaDrive) (n : ℕ) :
    (d.advance n).served = d.served + n := rfl
@[simp] lemma advance_lba (d : AtaDrive) (n : ℕ) : (d.advance n).lba = d.lba + n := rfl
@[simp] lemma advance_remaining (d : AtaDrive) (n : ℕ) :
    (d.advance n).remaining = d.remaining - n := rfl

lemma advance_advance (d : AtaDrive) (m n : ℕ) : (d.advance m).advance n = d.advance (m + n) := by
  simp only [advance, Nat.add_assoc, Nat.sub_sub]

lemma AtSector.advance_zero (h : d.AtSector) : d.advance 0 = d := by
  rcases h with ⟨hwait, hword⟩
  cases d
  simp only [advance, Nat.add_zero, Nat.sub_zero] at hwait hword ⊢
  rw [hwait, hword]

lemma atSector_advance (d : AtaDrive) (n : ℕ) : (d.advance n).AtSector := ⟨rfl, rfl⟩

lemma diskWait_succ (d : AtaDrive) (polls : ℕ) : diskWait ataPorts (polls + 1) d =
    if (d.insb 0x1F7).1 &&& 0x08 = 0 then diskWait ataPorts polls (d.insb 0x1F7).2
    else some (d.insb 0x1F7).2 := rfl

lemma insb_idle (h : d.Idle) : d.insb 0x1F7 = (0x50, d) := if_pos h

lemma insb_ready (h : ¬ d.Idle) (hwait : d.wait = 0) : d.insb 0x1F7 = (0x58, d) :=
  (if_neg h).trans (if_pos hwait)

lemma insb_busy (h : ¬ d.Idle) (hwait : d.wait ≠ 0) :
    d.insb 0x1F7 = (0x80, { d with wait := d.wait - 1 }) :=
  (if_neg h).trans (if_neg hwait)

/-- A drive without a command is never ready. -/
lemma diskWait_idle (h : d.Idle) : diskWait ataPorts polls d = none := by
  induction polls with
  | zero => rfl
  | succ polls ih =>
    rw [diskWait_succ, insb_idle h, if_pos (show (0x50 : UInt8) &&& 0x08 = 0 by decide)]
    exact ih

/-- A drive with a command is ready after its own time, however often the host looks. -/
lemma diskWait_eq (h : ¬ d.Idle) :
    diskWait ataPorts polls d = if d.wait < polls then some d.ready else none := by
  induction polls generalizing d with
  | zero => rfl
  | succ polls ih =>
    rw [diskWait_succ]
    by_cases hwait : d.wait = 0
    · rw [insb_ready h hwait, if_neg (show ¬ (0x58 : UInt8) &&& 0x08 = 0 by decide),
        if_pos (by omega)]
      cases d
      rw [ready, ← hwait]
    · rw [insb_busy h hwait, if_pos (show (0x80 : UInt8) &&& 0x08 = 0 by decide)]
      refine (ih (d := { d with wait := d.wait - 1 }) h).trans ?_
      by_cases hlt : d.wait < polls + 1
      · rw [if_pos hlt, if_pos (by dsimp only; omega)]
        rfl
      · rw [if_neg hlt, if_neg (by dsimp only; omega)]

/-- The bytes of a word, the low one first. -/
lemma bytes_of_word (a b : UInt8) :
    (UInt16.ofNat (a.toNat + b.toNat * 2 ^ 8)).toUInt8 = a ∧
      (UInt16.ofNat (a.toNat + b.toNat * 2 ^ 8) >>> 8).toUInt8 = b := by
  have ha := a.toNat_lt
  have hb := b.toNat_lt
  constructor
  · apply UInt8.toNat_inj.mp
    rw [UInt16.toNat_toUInt8, UInt16.toNat_ofNat']
    omega
  · apply UInt8.toNat_inj.mp
    rw [UInt16.toNat_toUInt8, UInt16.toNat_shiftRight, UInt16.toNat_ofNat',
      show (8 : UInt16).toNat % 16 = 8 from rfl, Nat.shiftRight_eq_div_pow]
    omega

/-- The word of the sector that comes next. -/
def nextWord (d : AtaDrive) : UInt16 :=
  UInt16.ofNat ((d.device.sector d.lba (2 * d.word)).toNat +
    (d.device.sector d.lba (2 * d.word + 1)).toNat * 2 ^ 8)

lemma insw_ready (h : ¬ d.Idle) (hwait : d.wait = 0) : d.insw 0x1F0 = (d.nextWord,
    if d.word + 1 = 256 then d.advance 1 else d.atWord (d.word + 1)) := by
  have hready : ¬ (d.remaining = 0 ∨ d.wait ≠ 0) := not_or.mpr ⟨h, not_not.mpr hwait⟩
  rw [insw, if_neg hready]
  dsimp only
  split_ifs <;> rfl

lemma diskReadWords_succ (d : AtaDrive) (n : ℕ) : diskReadWords ataPorts (n + 1) d =
    ((d.insw 0x1F0).1.toUInt8 :: ((d.insw 0x1F0).1 >>> 8).toUInt8 ::
      (diskReadWords ataPorts n (d.insw 0x1F0).2).1,
      (diskReadWords ataPorts n (d.insw 0x1F0).2).2) := rfl

/-- The two bytes of the next word, and those behind them. -/
lemma slice_nextWord (d : AtaDrive) (n : ℕ) :
    slice (d.device.sector d.lba) (2 * d.word) (2 * n + 2) =
      d.nextWord.toUInt8 :: (d.nextWord >>> 8).toUInt8 ::
        slice (d.device.sector d.lba) (2 * (d.word + 1)) (2 * n) := by
  rcases bytes_of_word (d.device.sector d.lba (2 * d.word))
    (d.device.sector d.lba (2 * d.word + 1)) with ⟨hlow, hhigh⟩
  rw [slice_succ, slice_succ, nextWord, hlow, hhigh]
  rfl

/-- The words of a sector that is ready. With the last one the drive goes on to the next sector. -/
lemma diskReadWords_eq (h : ¬ d.Idle) (hwait : d.wait = 0) (hn : d.word + n < 256) :
    diskReadWords ataPorts (n + 1) d =
      (slice (d.device.sector d.lba) (2 * d.word) (2 * n + 2),
        if d.word + n + 1 = 256 then d.advance 1 else d.atWord (d.word + n + 1)) := by
  induction n generalizing d with
  | zero =>
    rw [diskReadWords_succ, insw_ready h hwait, slice_nextWord]
    rfl
  | succ n ih =>
    have hmore : d.word + 1 ≠ 256 := by omega
    have hrest : diskReadWords ataPorts (n + 1) (d.atWord (d.word + 1)) =
        (slice (d.device.sector d.lba) (2 * (d.word + 1)) (2 * n + 2),
          if d.word + 1 + n + 1 = 256 then d.advance 1 else d.atWord (d.word + 1 + n + 1)) :=
      ih h hwait (show d.word + 1 + n < 256 by omega)
    rw [diskReadWords_succ, insw_ready h hwait, if_neg hmore, hrest, slice_nextWord d (n + 1),
      show d.word + 1 + n + 1 = d.word + (n + 1) + 1 by omega]
    rfl

/-- A sector that is ready is handed over. -/
lemma diskReadWholeSector_eq (h : ¬ d.Idle) (hword : d.word = 0) :
    diskReadWholeSector ataPorts d.ready = (d.device.sectorBytes d.lba, d.advance 1) := by
  have hwords := diskReadWords_eq (n := 255) (d := d.ready) h rfl (show d.word + 255 < 256 by omega)
  unfold diskReadWholeSector
  rw [hwords, if_pos (show d.ready.word + 255 + 1 = 256 by rw [show d.ready.word = 0 from hword]),
    show d.ready.word = 0 from hword]
  rfl

/-! ## The sectors of a command -/

lemma diskReadSectorLoop_succ (d : AtaDrive) (n : ℕ) :
    diskReadSectorLoop ataPorts polls (n + 1) d = (diskWait ataPorts polls d).bind fun d =>
      (diskReadSectorLoop ataPorts polls n (diskReadWholeSector ataPorts d).2).bind fun r =>
        some ((diskReadWholeSector ataPorts d).1 ++ r.1, r.2) := rfl

/-- The sectors the command asks for, one after the other, if the host looks often enough. -/
lemma diskReadSectorLoop_eq (h : d.AtSector) (hn : n ≤ d.remaining) :
    diskReadSectorLoop ataPorts polls n d = if ∀ k < n, d.busy (d.served + k) < polls then
      some (d.device.sectors d.lba n, d.advance n) else none := by
  induction n generalizing d with
  | zero =>
    rw [if_pos fun k hk => absurd hk (Nat.not_lt_zero k), h.advance_zero]
    rfl
  | succ n ih =>
    have hidle : ¬ d.Idle := fun hidle => by
      have hzero : d.remaining = 0 := hidle
      omega
    rw [diskReadSectorLoop_succ, diskWait_eq hidle, h.wait]
    by_cases hwait : d.busy d.served < polls
    · have hrest : (∀ k < n + 1, d.busy (d.served + k) < polls) ↔
          ∀ k < n, d.busy (d.served + 1 + k) < polls := by
        rw [Nat.forall_lt_succ_left]
        simp only [Nat.add_zero, hwait, true_and, Nat.add_assoc, Nat.add_comm 1]
      rw [if_pos hwait, Option.bind_some, diskReadWholeSector_eq hidle h.word,
        ih (atSector_advance d 1) (show n ≤ d.remaining - 1 by omega)]
      simp only [advance_busy, advance_served, advance_device, advance_lba, advance_advance, hrest,
        Device.sectors_succ, Nat.add_comm 1 n]
      split_ifs <;> rfl
    · rw [if_neg hwait, if_neg fun hall => hwait (hall 0 n.succ_pos)]
      rfl

/-- A sector beyond those of the command is waited for in vain. -/
lemma diskReadSectorLoop_beyond (h : d.AtSector) (hn : d.remaining < n) :
    diskReadSectorLoop ataPorts polls n d = none := by
  induction n generalizing d with
  | zero => omega
  | succ n ih =>
    rw [diskReadSectorLoop_succ]
    by_cases hidle : d.Idle
    · rw [diskWait_idle hidle]
      rfl
    rw [diskWait_eq hidle]
    split_ifs
    · have hpos : d.remaining ≠ 0 := hidle
      rw [Option.bind_some, diskReadWholeSector_eq hidle h.word,
        ih (atSector_advance d 1) (show d.remaining - 1 < n by omega)]
      rfl
    · rfl

/-! ## A command -/

/-- The registers for a read. -/
def registers (d : AtaDrive) (lba total : ℤ) : AtaDrive :=
  { d with
    driveHead := u8 (lba >>> (24 : ℕ)) ||| 0xE0
    sectorCount := u8 total
    lbaLow := u8 lba
    lbaMid := u8 (lba >>> (8 : ℕ))
    lbaHigh := u8 (lba >>> (16 : ℕ)) }

lemma diskReadSector_eq_loop (h : d.Idle) (lba total : ℤ) :
    diskReadSector ataPorts polls lba total d =
      (diskReadSectorLoop ataPorts polls total.toNat (d.registers lba total).readSectors).map
        fun r => ((0, r.1), r.2) := by
  have hremaining : d.remaining = 0 := h
  rw [Option.map_eq_bind]
  show (diskReadSectorLoop ataPorts polls total.toNat (outb 0x1F7 0x20 (outb 0x1F5 _ (outb 0x1F4 _
    (outb 0x1F3 _ (outb 0x1F2 _ (outb 0x1F6 _ d))))))).bind _ = _
  simp only [outb, hremaining, ne_eq, not_true_eq_false, if_false, if_true]
  rw [registers, hremaining]
  rfl

/-- The bytes of a sector number. -/
lemma toNat_u8_shiftRight (lba : ℤ) {k : ℕ} (hk : k ≤ 24) :
    (u8 (lba >>> k)).toNat = u32 lba / 2 ^ k % 2 ^ 8 := by
  have hmod : lba % 2 ^ 32 = (u32 lba : ℤ) % 2 ^ 32 := by
    unfold u32
    omega
  have hlt : u32 lba / 2 ^ k ≤ u32 lba := Nat.div_le_self _ _
  have hword := u32_lt lba
  rw [u8_shiftRight_congr hmod hk, Int.shiftRight_eq_div_pow, ← Int.natCast_ediv, u8,
    u32_natCast_of_lt (by omega), UInt8.toNat_ofNat']

/-- The sector number that the drive takes from the registers: four bits of the head register are
left for the selection. -/
lemma address_registers (lba total : ℤ) :
    (d.registers lba total).address = u32 lba % 2 ^ 28 := by
  have hlow : (u8 lba).toNat = u32 lba % 2 ^ 8 := by
    simpa using toNat_u8_shiftRight lba (k := 0) (by omega)
  have hhead : (u8 (lba >>> (24 : ℕ)) ||| (0xE0 : UInt8)).toNat % 2 ^ 4 =
      u32 lba / 2 ^ 24 % 2 ^ 4 := by
    rw [UInt8.toNat_or, Nat.or_mod_two_pow, toNat_u8_shiftRight lba le_rfl,
      show (0xE0 : UInt8).toNat % 2 ^ 4 = 0 from rfl, Nat.or_zero]
    omega
  unfold address registers
  dsimp only
  rw [hlow, hhead, toNat_u8_shiftRight lba (k := 8) (by omega),
    toNat_u8_shiftRight lba (k := 16) (by omega)]
  omega

/-- Bit 28 of a sector number ends up as the selection of the drive. -/
def FirstDrive (lba : ℤ) : Prop := u32 lba / 2 ^ 28 % 2 = 0

instance (lba : ℤ) : Decidable (FirstDrive lba) := inferInstanceAs (Decidable (_ = _))

lemma selection_registers (lba total : ℤ) :
    (d.registers lba total).driveHead.toNat / 2 ^ 4 % 2 = u32 lba / 2 ^ 28 % 2 := by
  have hselect : (0xE0 : UInt8).toNat / 2 ^ 4 % 2 ^ 1 = 0 := rfl
  show (u8 (lba >>> (24 : ℕ)) ||| (0xE0 : UInt8)).toNat / 2 ^ 4 % 2 ^ 1 = _
  rw [UInt8.toNat_or, Nat.or_div_two_pow, Nat.or_mod_two_pow, hselect, Nat.or_zero,
    toNat_u8_shiftRight lba le_rfl]
  omega

/-- The transfer that a read of the first drive starts. The count register holds a byte, and `0`
stands for 256. -/
lemma readSectors_registers {lba : ℤ} (hfirst : FirstDrive lba) (total : ℤ) :
    (d.registers lba total).readSectors =
      { d.registers lba total with
        lba := u32 lba % 2 ^ 28
        remaining := if u8 total = 0 then 256 else (u8 total).toNat
        wait := d.busy d.served
        word := 0 } := by
  have hselect : ¬ (d.registers lba total).driveHead.toNat / 2 ^ 4 % 2 = 1 := by
    have hbit : u32 lba / 2 ^ 28 % 2 = 0 := hfirst
    rw [selection_registers, hbit]
    exact Nat.zero_ne_one
  rw [readSectors, if_neg hselect, address_registers]
  rfl

/-- The drive after a read of the first drive. -/
def afterRead (d : AtaDrive) (lba total : ℤ) : AtaDrive :=
  (d.registers lba total).readSectors.advance total.toNat

/-- What the count register makes of a number of sectors. -/
lemma toNat_u8_count {total : ℤ} (hpos : 0 < total) :
    (if u8 total = 0 then 256 else (u8 total).toNat) ≤ 256 ∧
      (total ≤ 256 → (if u8 total = 0 then 256 else (u8 total).toNat) = total.toNat) := by
  have hbyte : (u8 total).toNat = u32 total % 2 ^ 8 := by
    simpa using toNat_u8_shiftRight total (k := 0) (by omega)
  have hzero : u8 total = 0 ↔ u32 total % 2 ^ 8 = 0 := by
    rw [← hbyte, ← UInt8.toNat_inj]
    rfl
  simp only [hzero, hbyte]
  constructor
  · split_ifs <;> omega
  · intro hle
    rw [u32_of_lt hpos.le (by omega)]
    split_ifs <;> omega

/-- A call that names sectors of the first drive, at most 256 of them. -/
def Answered (call : ℤ × ℤ) : Prop := FirstDrive call.1 ∧ call.2 ≤ 256

instance (call : ℤ × ℤ) : Decidable (Answered call) := inferInstanceAs (Decidable (_ ∧ _))

/-- The sectors are read if the host looks often enough. -/
lemma diskReadSector_eq (h : d.Idle) {lba total : ℤ} (hpos : 0 < total)
    (hcall : Answered (lba, total)) : diskReadSector ataPorts polls lba total d =
      if ∀ k < total.toNat, d.busy (d.served + k) < polls then
        some ((0, d.device.sectors (u32 lba % 2 ^ 28) total.toNat), d.afterRead lba total)
      else none := by
  have hcount := (toNat_u8_count hpos).2 hcall.2
  have hstart := readSectors_registers (d := d) hcall.1 total
  have hfields : (d.registers lba total).readSectors.busy = d.busy ∧
      (d.registers lba total).readSectors.served = d.served ∧
      (d.registers lba total).readSectors.device = d.device ∧
      (d.registers lba total).readSectors.lba = u32 lba % 2 ^ 28 := by
    rw [hstart]
    exact ⟨rfl, rfl, rfl, rfl⟩
  have hsector : (d.registers lba total).readSectors.AtSector := by
    rw [hstart]
    exact ⟨rfl, rfl⟩
  have hremaining : total.toNat ≤ (d.registers lba total).readSectors.remaining := by
    rw [hstart]
    exact hcount.ge
  rw [diskReadSector_eq_loop h, diskReadSectorLoop_eq hsector hremaining, hfields.1, hfields.2.1,
    hfields.2.2.1, hfields.2.2.2]
  split_ifs <;> rfl

lemma idle_afterRead {lba total : ℤ} (hpos : 0 < total) (hcall : Answered (lba, total)) :
    (d.afterRead lba total).Idle := by
  have hcount := (toNat_u8_count hpos).2 hcall.2
  unfold afterRead Idle
  rw [readSectors_registers hcall.1, advance_remaining, hcount, Nat.sub_self]

lemma afterRead_device {lba : ℤ} (hfirst : FirstDrive lba) (total : ℤ) :
    (d.afterRead lba total).device = d.device := by
  unfold afterRead
  rw [readSectors_registers hfirst]
  rfl

/-- Other calls wait for ever. -/
lemma diskReadSector_none (h : d.Idle) {lba total : ℤ} (hpos : 0 < total)
    (hcall : ¬ Answered (lba, total)) : diskReadSector ataPorts polls lba total d = none := by
  suffices hloop : diskReadSectorLoop ataPorts polls total.toNat
      (d.registers lba total).readSectors = none by
    rw [diskReadSector_eq_loop h, hloop]
    rfl
  by_cases hfirst : FirstDrive lba
  · -- more sectors than the command has
    have hcount := (toNat_u8_count hpos).1
    have hmany : 256 < total := by
      by_contra hle
      exact hcall ⟨hfirst, not_lt.mp hle⟩
    apply diskReadSectorLoop_beyond
    · rw [readSectors_registers hfirst]
      exact ⟨rfl, rfl⟩
    · rw [readSectors_registers hfirst]
      exact lt_of_le_of_lt hcount (by omega)
  · -- a command for the other drive
    have hbit : u32 lba / 2 ^ 28 % 2 = 1 := by
      unfold FirstDrive at hfirst
      omega
    obtain ⟨n, hn⟩ : ∃ n, total.toNat = n + 1 := ⟨total.toNat - 1, by omega⟩
    rw [readSectors, selection_registers, if_pos hbit, hn, diskReadSectorLoop_succ,
      diskWait_idle (d := d.registers lba total) h]
    rfl

/-! ## Runs of calls -/

/-- One call after the other, each with a sector and a number of sectors: what they read. -/
def readCalls (polls : ℕ) :
    (calls : List (ℤ × ℤ)) → AtaDrive → Option (List (List UInt8) × AtaDrive)
  | [], d => some ([], d)
  | (lba, total) :: calls, d => do
    let ((_, out), d) ← diskReadSector ataPorts polls lba total d
    let (outs, d) ← readCalls polls calls d
    return (out :: outs, d)

lemma readCalls_cons (lba total : ℤ) (calls : List (ℤ × ℤ)) (d : AtaDrive) :
    readCalls polls ((lba, total) :: calls) d =
      (diskReadSector ataPorts polls lba total d).bind fun r =>
        (readCalls polls calls r.2).bind fun rs => some (r.1.2 :: rs.1, rs.2) := rfl

/-- A run that ends has no call that waits for ever. -/
lemma answered_of_isSome (h : d.Idle) {calls : List (ℤ × ℤ)} (hpos : ∀ call ∈ calls, 0 < call.2)
    (hsome : (readCalls polls calls d).isSome) : ∀ call ∈ calls, Answered call := by
  induction calls generalizing d with
  | nil => exact fun call hcall => absurd hcall List.not_mem_nil
  | cons call calls ih =>
    rcases call with ⟨lba, total⟩
    have hfirst : 0 < total := hpos _ List.mem_cons_self
    rw [readCalls_cons] at hsome
    by_cases hcall : Answered (lba, total)
    · rw [diskReadSector_eq h hfirst hcall] at hsome
      split_ifs at hsome
      · refine List.forall_mem_cons.mpr ⟨hcall, ih (@idle_afterRead d lba total hfirst hcall)
          (fun c hc => hpos c (List.mem_cons_of_mem _ hc)) ?_⟩
        rw [Option.bind_some] at hsome
        exact Option.isSome_of_isSome_bind hsome
      · cases hsome
    · rw [diskReadSector_none h hfirst hcall] at hsome
      cases hsome

/-- A number of looks that is enough for the next sectors. -/
lemma exists_polls (d : AtaDrive) (m : ℕ) : ∃ n, ∀ k < m, d.busy (d.served + k) < n :=
  ⟨(Finset.range m).sup (fun k => d.busy (d.served + k)) + 1, fun _ hk => Nat.lt_succ_of_le
    (Finset.le_sup (f := fun k => d.busy (d.served + k)) (Finset.mem_range.mpr hk))⟩

/-- What a run of calls reads. -/
lemma readCalls_eq (h : d.Idle) {calls : List (ℤ × ℤ)} (hpos : ∀ call ∈ calls, 0 < call.2)
    (hcalls : ∀ call ∈ calls, Answered call) : ∃ n, ∀ polls ≥ n, ∃ d', d'.Idle ∧
      readCalls polls calls d = some
        (calls.map fun call => d.device.sectors (u32 call.1 % 2 ^ 28) call.2.toNat, d') := by
  induction calls generalizing d with
  | nil => exact ⟨0, fun polls _ => ⟨d, h, rfl⟩⟩
  | cons call calls ih =>
    rcases call with ⟨lba, total⟩
    have hfirst : 0 < total := hpos _ List.mem_cons_self
    have hcall : Answered (lba, total) := hcalls _ List.mem_cons_self
    obtain ⟨m, hm⟩ := ih (idle_afterRead hfirst hcall)
      (fun c hc => hpos c (List.mem_cons_of_mem _ hc))
      (fun c hc => hcalls c (List.mem_cons_of_mem _ hc))
    obtain ⟨n, hn⟩ := exists_polls d total.toNat
    refine ⟨max m n, fun polls hpolls => ?_⟩
    obtain ⟨d', hidle, hrest⟩ := hm polls (le_trans (le_max_left m n) hpolls)
    refine ⟨d', hidle, ?_⟩
    rw [readCalls_cons, diskReadSector_eq h hfirst hcall, if_pos fun k hk =>
      lt_of_lt_of_le (hn k hk) (le_trans (le_max_right m n) hpolls), Option.bind_some, hrest,
      Option.bind_some, afterRead_device hcall.1]
    rfl

end AtaDrive

open AtaDrive

/-- The part of a sector that the streamer copies. -/
lemma copyBuffer_eq (device : Device) (lba : ℕ) {offset n : ℤ} (hoffset : 0 ≤ offset)
    (hn : offset + n ≤ 512) :
    copyBuffer (device.sectorBytes lba) offset n = copySector device lba offset n := by
  have hneg : ¬ (offset < 0 ∧ 0 < n) := fun h => not_lt.mpr hoffset h.1
  rw [copyBuffer, copySector, if_neg hneg, if_neg hneg]
  refine congrArg _ (List.map_congr_left fun i hi => ?_)
  have hlt : i < n.toNat := List.mem_range.mp hi
  rw [Device.sectorBytes, List.getD_eq_getElem?_getD, getElem?_slice (by omega), Nat.zero_add]
  rfl

/-- A sector below 128 GB is on the first drive. -/
lemma answered_sector {sector : ℕ} (hsector : sector < 2 ^ 28) : Answered ((sector : ℤ), 1) := by
  constructor
  · show u32 sector / 2 ^ 28 % 2 = 0
    rw [u32_natCast_of_lt (by omega), Nat.div_eq_of_lt hsector]
  · exact (by decide : (1 : ℤ) ≤ 256)

/-- A block that the streamer asks for. -/
lemma diskReadBlockAta_eq {d : AtaDrive} (h : d.Idle) {sector : ℕ} (hsector : sector < 2 ^ 28)
    {polls : ℕ} (hpolls : d.busy d.served < polls) (disk : Addr) :
    diskReadBlockAta ataPorts polls disk disk (u32 sector) 1 d =
      some ((0, d.device.sectorBytes sector), d.afterRead sector 1) := by
  have hread := @diskReadSector_eq d polls h _ _ Int.one_pos (answered_sector hsector)
  rw [if_pos (by simpa using hpolls)] at hread
  rw [diskReadBlockAta, if_neg (not_not.mpr rfl), u32_natCast_of_lt (by omega),
    i32_of_lt (by omega) (by omega), hread, u32_natCast_of_lt (by omega),
    Nat.mod_eq_of_lt hsector, Int.toNat_one, Device.sectors_succ]
  rw [show d.device.sectors (sector + 1) 0 = [] from rfl, List.append_nil]

/-- A read that ends inside the sector it starts in. -/
lemma diskStreamerReadBlocks_within {d : AtaDrive} (h : d.Idle) (disk : Addr) {pos total polls : ℕ}
    (hpos : pos < 2 ^ 31) (hin : pos % 512 + total < 512) (hpolls : d.busy d.served < polls) :
    diskStreamerReadBlocks ataPorts polls disk disk pos total d =
      some ((diskStreamerRead d.device pos total).map fun read =>
        ((0, read), d.afterRead (pos / 512 : ℕ) 1)) := by
  have hcheck := checkedInt_of_range (x := ((pos % 512 : ℕ) : ℤ) + total) (by omega) (by omega)
  have hsmall : ¬ ((pos % 512 : ℕ) : ℤ) + total ≥ marrowosSectorSize := by
    simp only [marrowosSectorSize]
    omega
  have hcopy := (@copyBuffer_eq d.device (pos / 512) (pos % 512 : ℕ) total (by omega)
    (by omega)).trans (copySector_eq d.device pos (by omega))
  rw [diskStreamerRead_within d.device hin, diskStreamerReadBlocks]
  simp only [natCast_tdiv_sector, natCast_tmod_sector, hcheck,
    diskReadBlockAta_eq h (show pos / 512 < 2 ^ 28 by omega) hpolls disk, hcopy]
  rw [if_neg (lt_irrefl 0), dif_neg hsmall, Nat.cast_add]
  cases hnext : checkedInt ((pos : ℤ) + total) with
  | error fault => rfl
  | ok p => rfl

/-- A read that reaches the end of its sector, `n` bytes on, continues in the next one. -/
lemma diskStreamerReadBlocks_beyond {d : AtaDrive} (h : d.Idle) (disk : Addr)
    {pos total n polls : ℕ} (hpos : pos < 2 ^ 31) (hn : pos % 512 + n = 512) (hle : n ≤ total)
    (hpolls : d.busy d.served < polls) {d' : AtaDrive}
    (hrest : pos + n < 2 ^ 31 →
      diskStreamerReadBlocks ataPorts polls disk disk (pos + n : ℕ) (total - n : ℕ)
        (d.afterRead (pos / 512 : ℕ) 1) =
      some ((diskStreamerRead d.device (pos + n : ℕ) (total - n : ℕ)).map fun read =>
        ((0, read), d'))) :
    diskStreamerReadBlocks ataPorts polls disk disk pos total d =
      some ((diskStreamerRead d.device pos total).map fun read => ((0, read), d')) := by
  have hlarge : ((pos % 512 : ℕ) : ℤ) + total ≥ marrowosSectorSize := by
    simp only [marrowosSectorSize]
    omega
  have hread : (total : ℤ) - (((pos % 512 : ℕ) : ℤ) + total - (marrowosSectorSize : ℕ)) = n := by
    simp only [marrowosSectorSize]
    omega
  have hcopy := (@copyBuffer_eq d.device (pos / 512) (pos % 512 : ℕ) n (by omega)
    (by omega)).trans (copySector_eq d.device pos hn.le)
  have hblock := diskReadBlockAta_eq h (show pos / 512 < 2 ^ 28 by omega) hpolls disk
  rw [diskStreamerRead_beyond d.device hn hle, diskStreamerReadBlocks, Nat.cast_add]
  cases hcheck : checkedInt (((pos % 512 : ℕ) : ℤ) + total) with
  | error fault =>
    rw [natCast_tmod_sector, hcheck]
    rfl
  | ok x =>
    simp only [natCast_tdiv_sector, natCast_tmod_sector, hcheck, hblock]
    rw [if_neg (lt_irrefl 0), dif_pos hlarge, hread, hcopy, ok_bind, Nat.cast_add]
    cases hnext : checkedInt ((pos : ℤ) + n) with
    | error fault => rfl
    | ok p =>
      obtain rfl := (checkedInt_ok hnext).1
      simp only [ok_bind]
      rw [← Nat.cast_add, ← Nat.cast_sub hle, hrest (by have := checkedInt_ok hnext; omega)]
      cases diskStreamerRead d.device (pos + n : ℕ) (total - n : ℕ) <;> rfl

end MarrowOS
