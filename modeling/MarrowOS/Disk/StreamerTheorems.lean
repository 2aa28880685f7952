import MarrowOS.Disk.Streamer
import MarrowOS.Lib.Fallible
import MarrowOS.Lib.Slice
import Mathlib.Algebra.Order.Ring.Int
import Mathlib.Tactic.NormNum

/-!
# What the streamer reads

Byte `b` of the disk is byte `b % 512` of sector `b / 512`. At a position of the disk,
`disk_streamer_read` delivers the bytes from there on and advances by their number
(`diskStreamerRead_eq`); it fails only when the position leaves the `int` range
(`diskStreamerRead_ok`).
-/

namespace MarrowOS

open Fallible Slice

/-- Byte `b` of the disk. -/
def Device.byte (device : Device) (b : ℕ) : UInt8 := device.sector (b / 512 : ℕ) (b % 512)

lemma checkedInt_of_range {x : ℤ} (h₀ : -2 ^ 31 ≤ x) (h : x < 2 ^ 31) : checkedInt x = .ok x :=
  if_pos ⟨h₀, h⟩

lemma checkedInt_ok {x y : ℤ} (h : checkedInt x = .ok y) :
    y = x ∧ -2 ^ 31 ≤ x ∧ x < 2 ^ 31 := by
  unfold checkedInt at h
  split at h
  · rename_i hx
    exact ⟨(Except.ok.inj h).symm, hx⟩
  · cases h

variable (device : Device)

/-- The part of a sector from the position on. -/
lemma copySector_eq (pos : ℕ) {n : ℕ} (h : pos % 512 + n ≤ 512) :
    copySector device ((pos / 512 : ℕ) : ℤ) ((pos % 512 : ℕ) : ℤ) (n : ℤ) =
      .ok (slice device.byte pos n) := by
  unfold copySector
  rw [if_neg (by omega)]
  congr 1
  rw [Int.toNat_natCast, Int.toNat_natCast]
  refine slice_congr fun i hi => ?_
  unfold Device.byte
  rw [show (pos + i) / 512 = pos / 512 by omega, show (pos + i) % 512 = pos % 512 + i by omega]

lemma natCast_tdiv_sector (pos : ℕ) :
    (pos : ℤ).tdiv marrowosSectorSize = ((pos / 512 : ℕ) : ℤ) := rfl

lemma natCast_tmod_sector (pos : ℕ) :
    (pos : ℤ).tmod marrowosSectorSize = ((pos % 512 : ℕ) : ℤ) := rfl

/-- A read that ends inside the sector it starts in. -/
lemma diskStreamerRead_within {pos total : ℕ} (h : pos % 512 + total < 512) :
    diskStreamerRead device pos total = (do
      let pos' ← checkedInt ((pos + total : ℕ) : ℤ)
      return ⟨slice device.byte pos total, [((pos / 512 : ℕ) : ℤ)], pos'⟩) := by
  rw [diskStreamerRead]
  have hcheck := checkedInt_of_range (x := ((pos % 512 : ℕ) : ℤ) + total) (by omega) (by omega)
  have hsmall : ¬ ((pos % 512 : ℕ) : ℤ) + total ≥ marrowosSectorSize := by
    simp only [marrowosSectorSize]
    omega
  have hcopy := copySector_eq device pos (show pos % 512 + total ≤ 512 by omega)
  simp only [natCast_tdiv_sector, natCast_tmod_sector, hcheck, ok_bind]
  rw [dif_neg hsmall, hcopy, ok_bind, Nat.cast_add]

/-- A read that reaches the end of its sector, `n` bytes on, continues in the next one. -/
lemma diskStreamerRead_beyond {pos total n : ℕ} (hn : pos % 512 + n = 512) (hle : n ≤ total) :
    diskStreamerRead device pos total = (do
      let _ ← checkedInt ((pos % 512 + total : ℕ) : ℤ)
      let _ ← checkedInt ((pos + n : ℕ) : ℤ)
      let rest ← diskStreamerRead device (pos + n : ℕ) (total - n : ℕ)
      return ⟨slice device.byte pos n ++ rest.out, ((pos / 512 : ℕ) : ℤ) :: rest.requested,
        rest.pos⟩) := by
  rw [diskStreamerRead]
  have hlarge : ((pos % 512 : ℕ) : ℤ) + total ≥ marrowosSectorSize := by
    simp only [marrowosSectorSize]
    omega
  have hread : (total : ℤ) - (((pos % 512 : ℕ) : ℤ) + total - (marrowosSectorSize : ℕ)) = n := by
    simp only [marrowosSectorSize]
    omega
  have hcopy := copySector_eq device pos hn.le
  simp only [natCast_tdiv_sector, natCast_tmod_sector]
  rw [dif_pos hlarge, hread, hcopy, ok_bind, Nat.cast_add, Nat.cast_add, Nat.cast_sub hle]
  refine congrArg _ (funext fun _ => ?_)
  cases hnext : checkedInt ((pos : ℤ) + n) with
  | error f => rfl
  | ok p => rw [(checkedInt_ok hnext).1, ok_bind, ok_bind]

/-- **Streamer read.** The bytes from the position on, and the sectors from the position's to
the one of the position after the read. -/
theorem diskStreamerRead_eq (pos total : ℕ) (h : pos + total < 2 ^ 31) :
    diskStreamerRead device pos total =
      .ok ⟨slice device.byte pos total,
        slice (fun s => (s : ℤ)) (pos / 512) ((pos + total) / 512 - pos / 512 + 1),
        ((pos + total : ℕ) : ℤ)⟩ := by
  induction total using Nat.strong_induction_on generalizing pos with
  | _ total ih =>
    by_cases hin : pos % 512 + total < 512
    · rw [diskStreamerRead_within device hin, checkedInt_of_range (by omega) (by omega), ok_bind,
        show (pos + total) / 512 - pos / 512 + 1 = 1 by omega]
      rfl
    · obtain ⟨n, hn⟩ : ∃ n, pos % 512 + n = 512 := ⟨512 - pos % 512, by omega⟩
      obtain ⟨m, rfl⟩ : ∃ m, total = n + m := ⟨total - n, by omega⟩
      have hrec := ih m (by omega) (pos + n) (by omega)
      have hbytes := slice_add device.byte pos n m
      have hsectors := slice_add (fun s => (s : ℤ)) (pos / 512) 1
        ((pos + n + m) / 512 - (pos + n) / 512 + 1)
      have hnext : (pos + n) / 512 = pos / 512 + 1 := by omega
      have hcount : (pos + (n + m)) / 512 - pos / 512 + 1 =
          1 + ((pos + n + m) / 512 - (pos + n) / 512 + 1) := by omega
      rw [diskStreamerRead_beyond device hn (by omega), checkedInt_of_range (by omega) (by omega),
        checkedInt_of_range (by omega) (by omega), Nat.add_sub_cancel_left, ok_bind, ok_bind, hrec,
        hbytes, hcount, hsectors, hnext, Nat.add_assoc]
      rfl

/-- A read that ends normally stays below `2 ^ 31`. -/
theorem diskStreamerRead_ok {pos total : ℕ} {r : StreamRead}
    (h : diskStreamerRead device pos total = .ok r) : pos + total < 2 ^ 31 := by
  induction total using Nat.strong_induction_on generalizing pos r with
  | _ total ih =>
    by_cases hin : pos % 512 + total < 512
    · rw [diskStreamerRead_within device hin, bind_eq_ok] at h
      obtain ⟨p, hp, -⟩ := h
      have hrange := (checkedInt_ok hp).2
      omega
    · obtain ⟨n, hn⟩ : ∃ n, pos % 512 + n = 512 := ⟨512 - pos % 512, by omega⟩
      rw [diskStreamerRead_beyond device hn (by omega)] at h
      simp only [bind_eq_ok] at h
      obtain ⟨-, -, -, -, rest, hrest, -⟩ := h
      have hlt := ih _ (by omega) hrest
      omega

lemma length_copySector {sector offset n : ℤ} {out : List UInt8}
    (h : copySector device sector offset n = .ok out) : out.length = n.toNat := by
  unfold copySector at h
  split at h
  · cases h
  · rw [← Except.ok.inj h, List.length_map, List.length_range]

/-- A read that ends normally delivers as many bytes as it was asked for, from any position. -/
theorem length_diskStreamerRead {pos total : ℤ} {r : StreamRead}
    (h : diskStreamerRead device pos total = .ok r) : r.out.length = total.toNat := by
  induction hn : total.toNat using Nat.strong_induction_on generalizing pos total r with
  | _ n ih =>
    subst hn
    have hoffset : pos.tmod marrowosSectorSize < 512 := Int.tmod_lt_of_pos pos (by decide)
    rw [diskStreamerRead] at h
    simp only [bind_eq_ok] at h
    obtain ⟨-, -, h⟩ := h
    simp only [marrowosSectorSize] at h hoffset
    split at h
    · simp only [bind_eq_ok] at h
      obtain ⟨out, hout, p, -, rest, hrest, hr⟩ := h
      have hlen := length_copySector device hout
      have hlenRest := ih _ (by omega) hrest rfl
      rw [← Except.ok.inj hr, List.length_append, hlen, hlenRest]
      omega
    · simp only [bind_eq_ok] at h
      obtain ⟨out, hout, p, -, hr⟩ := h
      rw [← Except.ok.inj hr]
      exact length_copySector device hout

/-- A negative number of bytes is none. -/
lemma diskStreamerRead_negative (pos : ℕ) (hpos : pos < 2 ^ 31) {total : ℤ}
    (hmin : -2 ^ 31 ≤ total) (hneg : total < 0) :
    ∃ r, diskStreamerRead device pos total = .ok r ∧ r.out = [] := by
  have hsmall : ¬ ((pos % 512 : ℕ) : ℤ) + total ≥ marrowosSectorSize := by
    simp only [marrowosSectorSize]
    omega
  have hcopy : copySector device ((pos / 512 : ℕ) : ℤ) ((pos % 512 : ℕ) : ℤ) total = .ok [] := by
    unfold copySector
    rw [if_neg (by omega), Int.toNat_of_nonpos hneg.le]
    rfl
  rw [diskStreamerRead]
  simp only [natCast_tdiv_sector, natCast_tmod_sector]
  rw [checkedInt_of_range (by omega) (by omega), ok_bind, dif_neg hsmall, hcopy, ok_bind,
    checkedInt_of_range (by omega) (by omega), ok_bind]
  exact ⟨_, rfl, rfl⟩

/-- A read that ends normally advances the position by what it was asked for. -/
theorem diskStreamerRead_pos {pos total : ℤ} {r : StreamRead}
    (h : diskStreamerRead device pos total = .ok r) : r.pos = pos + total ∧ r.pos < 2 ^ 31 := by
  induction hn : total.toNat using Nat.strong_induction_on generalizing pos total r with
  | _ n ih =>
    subst hn
    have hoffset : pos.tmod marrowosSectorSize < 512 := Int.tmod_lt_of_pos pos (by decide)
    rw [diskStreamerRead] at h
    simp only [bind_eq_ok] at h
    obtain ⟨-, -, h⟩ := h
    simp only [marrowosSectorSize] at h hoffset
    split at h
    · simp only [bind_eq_ok] at h
      obtain ⟨_, -, p, hp, rest, hrest, hr⟩ := h
      obtain ⟨hpos, hlt⟩ := ih _ (by omega) hrest rfl
      rw [← Except.ok.inj hr]
      refine ⟨?_, hlt⟩
      rw [hpos, (checkedInt_ok hp).1]
      omega
    · simp only [bind_eq_ok] at h
      obtain ⟨_, -, p, hp, hr⟩ := h
      rw [← Except.ok.inj hr]
      obtain ⟨rfl, -, hlt⟩ := checkedInt_ok hp
      exact ⟨rfl, hlt⟩

end MarrowOS
