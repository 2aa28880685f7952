import MarrowOS.Fs.FatDirectoryTheorems
import MarrowOS.Fs.FatFiles
import MarrowOS.Lib.Runs

/-!
# Positions after seeking

`fat16_seek` compares its offset with the size of the file before it looks at the mode. For
`SEEK_SET` the offset is the new position; for `SEEK_CUR` it is added to the old one, which the
comparison knows nothing of. `seeks_inside_iff` says which sequences of calls stay in the file.
-/

namespace MarrowOS

open CInt Fallible Runs

/-! ## Opened files -/

variable {σ : Type} {A : Allocator σ} {disk : Disk} {path : List PathPart} {mode : FileMode}
  {s s' : σ} {ptr itemPtr : Addr} {desc : FatFileDescriptor} {ritem : FatDirectoryItem}

/-- What an `fat16_open` that returns a descriptor has done. -/
lemma fat16Open_ok (h : fat16Open A disk path mode s = .ok ((ptr, some desc), s')) :
    ∃ part nextParts, path = part :: nextParts ∧ mode = .read ∧
      ptr = (A.kmalloc sizeofFatFileDescriptor s).1 ∧ ptr ≠ 0 ∧ desc.pos = 0 ∧
      fat16GetDirectoryEntry A disk part.part (nextParts.map PathPart.part)
        (A.kmalloc sizeofFatFileDescriptor s).2 = .ok (some desc.item, s') := by
  unfold fat16Open at h
  by_cases hmode : mode ≠ .read
  · rw [if_pos hmode] at h
    cases h
  rw [if_neg hmode] at h
  simp only at h
  by_cases hnull : (A.kmalloc sizeofFatFileDescriptor s).1 = 0
  · rw [if_pos hnull] at h
    cases h
  rw [if_neg hnull] at h
  cases path with
  | nil => cases h
  | cons part nextParts =>
    rcases bind_eq_ok.mp h with ⟨⟨found, s₁⟩, hfound, hret⟩
    cases found with
    | none => cases hret
    | some item =>
      rcases Prod.mk.inj (Except.ok.inj hret) with ⟨hresult, hs⟩
      rcases Prod.mk.inj hresult with ⟨hptr, hdesc⟩
      rw [← hptr, ← Option.some.inj hdesc, ← hs]
      exact ⟨part, nextParts, rfl, not_not.mp hmode, rfl, hnull, rfl, hfound⟩

/-- A descriptor that was just opened stands at the start. -/
lemma fat16Open_pos (h : fat16Open A disk path mode s = .ok ((ptr, some desc), s')) :
    desc.pos = 0 := by
  rcases fat16Open_ok h with ⟨_, _, _, _, _, _, hpos, _⟩
  exact hpos

/-! ## One call -/

/-- A call that was made: the position before it, its arguments and what it returned. -/
structure SeekCall where
  pos : ℕ
  offset : ℕ
  seekMode : ℕ
  res : ℤ

/-- The descriptor, and the call before. -/
structure SeekRun where
  desc : FatFileDescriptor
  last : Option SeekCall

/-- The call with an offset and a mode. -/
def seekStep (r : SeekRun) (args : ℕ × ℕ) : Option SeekRun :=
  match fat16Seek r.desc args.1 args.2 with
  | .error _ => none
  | .ok (res, desc) => some ⟨desc, some ⟨r.desc.pos, args.1, args.2, res⟩⟩

/-- A call that returned `0` set the position that was asked for, inside the file, and any other
left it where it was. -/
def SeeksInside (filesize : ℕ) (r : SeekRun) : Prop :=
  ∀ call, r.last = some call →
    (call.res = 0 → r.desc.pos < filesize ∧
      (call.seekMode = seekSet ∧ r.desc.pos = call.offset ∨
        call.seekMode = seekCur ∧ r.desc.pos = call.pos + call.offset)) ∧
    (call.res ≠ 0 → r.desc.pos = call.pos)

/-- The file's item was allocated when it was opened, and a relative offset that is below the size
of the file does not lead out of it. -/
def StaysInside (itemPtr : Addr) (filesize : ℕ) (r : SeekRun) (args : ℕ × ℕ) : Prop :=
  itemPtr ≠ 0 ∧ (args.2 = seekCur → args.1 < filesize → r.desc.pos + args.1 < filesize)

/-- What is returned for an offset in the file. -/
lemma fat16Seek_of_lt (hitem : desc.item.payload = .item itemPtr ritem) (hptr : itemPtr ≠ 0)
    {offset seekMode : ℕ} (hlt : offset < ritem.filesize.toNat) :
    fat16Seek desc offset seekMode =
      if seekMode = seekSet then .ok (0, { desc with pos := offset })
      else if seekMode = seekEnd then .ok (-eunimp, desc)
      else if seekMode = seekCur then .ok (0, { desc with pos := u32 (desc.pos + offset) })
      else .ok (-einvarg, desc) := by
  unfold fat16Seek
  rw [hitem]
  simp only
  rw [if_neg hptr, if_neg (not_le.mpr hlt)]
  rfl

/-- An offset behind the end is refused, whatever the mode. -/
lemma fat16Seek_of_le (hitem : desc.item.payload = .item itemPtr ritem) (hptr : itemPtr ≠ 0)
    {offset seekMode : ℕ} (hle : ritem.filesize.toNat ≤ offset) :
    fat16Seek desc offset seekMode = .ok (-eio, desc) := by
  unfold fat16Seek
  rw [hitem]
  simp only
  rw [if_neg hptr, if_pos hle]
  rfl

lemma fat16Seek_null (hitem : desc.item.payload = .item 0 ritem) (offset seekMode : ℕ) :
    fat16Seek desc offset seekMode = .error .nullPointer := by
  unfold fat16Seek
  rw [hitem]
  rfl

/-- A relative seek whose offset is in the file. -/
lemma fat16Seek_cur (hitem : desc.item.payload = .item itemPtr ritem) (hptr : itemPtr ≠ 0)
    {offset : ℕ} (hlt : offset < ritem.filesize.toNat) :
    fat16Seek desc offset seekCur = .ok (0, { desc with pos := u32 (desc.pos + offset) }) := by
  rw [fat16Seek_of_lt hitem hptr hlt, if_neg (by decide), if_neg (by decide), if_pos rfl]

/-! ## Runs -/

/-- The descriptor of the file, after a call that did what it should. -/
structure SeekInv (itemPtr : Addr) (ritem : FatDirectoryItem) (r : SeekRun) : Prop where
  item : r.desc.item.payload = .item itemPtr ritem
  inside : SeeksInside ritem.filesize.toNat r

lemma seekStep_of_ok {r : SeekRun} {args : ℕ × ℕ} {res : ℤ}
    (h : fat16Seek r.desc args.1 args.2 = .ok (res, desc)) :
    seekStep r args = some ⟨desc, some ⟨r.desc.pos, args.1, args.2, res⟩⟩ := by
  unfold seekStep
  rw [h]

/-- A call that returns an error leaves the descriptor alone. -/
lemma SeekInv.refused {r : SeekRun} (hr : SeekInv itemPtr ritem r) {args : ℕ × ℕ} {res : ℤ}
    (hres : res ≠ 0) (h : fat16Seek r.desc args.1 args.2 = .ok (res, r.desc)) :
    ∃ r', seekStep r args = some r' ∧ SeekInv itemPtr ritem r' := by
  refine ⟨_, seekStep_of_ok h, hr.item, ?_⟩
  intro call hcall
  rw [← Option.some.inj hcall]
  exact ⟨fun h0 => absurd h0 hres, fun _ => rfl⟩

/-- A call that returns `0`. -/
lemma SeekInv.moved {r : SeekRun} (hr : SeekInv itemPtr ritem r) {args : ℕ × ℕ} {pos : ℕ}
    (hpos : pos < ritem.filesize.toNat)
    (heq : args.2 = seekSet ∧ pos = args.1 ∨ args.2 = seekCur ∧ pos = r.desc.pos + args.1)
    (h : fat16Seek r.desc args.1 args.2 = .ok (0, { r.desc with pos })) :
    ∃ r', seekStep r args = some r' ∧ SeekInv itemPtr ritem r' := by
  refine ⟨_, seekStep_of_ok h, hr.item, ?_⟩
  intro call hcall
  rw [← Option.some.inj hcall]
  exact ⟨fun _ => ⟨hpos, heq⟩, fun hne => absurd rfl hne⟩

lemma seekStep_inv {r : SeekRun} {args : ℕ × ℕ} (hr : SeekInv itemPtr ritem r)
    (hstays : StaysInside itemPtr ritem.filesize.toNat r args) :
    ∃ r', seekStep r args = some r' ∧ SeekInv itemPtr ritem r' := by
  have hptr := hstays.1
  have hsize := ritem.filesize.toNat_lt
  rcases Nat.lt_or_ge args.1 ritem.filesize.toNat with hlt | hle
  · have hseek := @fat16Seek_of_lt _ _ _ hr.item hptr _ args.2 hlt
    by_cases hset : args.2 = seekSet
    · rw [if_pos hset] at hseek
      exact hr.moved hlt (Or.inl ⟨hset, rfl⟩) hseek
    rw [if_neg hset] at hseek
    by_cases hend : args.2 = seekEnd
    · rw [if_pos hend] at hseek
      exact hr.refused (by decide) hseek
    rw [if_neg hend] at hseek
    by_cases hcur : args.2 = seekCur
    · have hinside := hstays.2 hcur hlt
      -- the sum is below the size, so it is not cut off
      have hsum : u32 ((r.desc.pos : ℤ) + (args.1 : ℕ)) = r.desc.pos + args.1 := by
        rw [← Nat.cast_add, u32_natCast_of_lt (by omega)]
      rw [if_pos hcur, hsum] at hseek
      exact hr.moved hinside (Or.inr ⟨hcur, rfl⟩) hseek
    · rw [if_neg hcur] at hseek
      exact hr.refused (by decide) hseek
  · exact hr.refused (by decide) (fat16Seek_of_le hr.item hptr hle)

/-- A relative seek out of the file returns `0` all the same. -/
lemma not_seeksInside_of_not_staysInside {r r' : SeekRun} {args : ℕ × ℕ}
    (hr : SeekInv itemPtr ritem r) (hleaves : ¬ StaysInside itemPtr ritem.filesize.toNat r args)
    (hstep : seekStep r args = some r') : ¬ SeeksInside ritem.filesize.toNat r' := by
  intro hinside
  apply hleaves
  have hptr : itemPtr ≠ 0 := by
    intro h0
    have hitem := hr.item
    rw [h0] at hitem
    unfold seekStep at hstep
    rw [fat16Seek_null hitem] at hstep
    cases hstep
  refine ⟨hptr, ?_⟩
  intro hcur hlt
  have hseek := fat16Seek_cur hr.item hptr hlt
  rw [← hcur] at hseek
  rw [seekStep_of_ok hseek] at hstep
  have hr' := Option.some.inj hstep
  rw [← hr'] at hinside
  rcases (hinside _ rfl).1 rfl with ⟨hpos, hset | hcur'⟩
  · have hmode := hset.1.symm.trans hcur
    cases hmode
  · rw [hcur'.2] at hpos
    exact hpos

/-- **Seeking.** On a file that was opened, the sequences of calls that all do what they should are
those where no relative seek leads out of the file. -/
theorem seeks_inside_iff (hopen : fat16Open A disk path mode s = .ok ((ptr, some desc), s'))
    (hfile : desc.item.payload = .item itemPtr ritem) (calls : List (ℕ × ℕ)) :
    (desc.pos = 0 ∧ (run seekStep ⟨desc, none⟩ calls).isSome ∧
        Throughout seekStep (SeeksInside ritem.filesize.toNat) ⟨desc, none⟩ calls) ↔
      Meets seekStep (StaysInside itemPtr ritem.filesize.toNat) ⟨desc, none⟩ calls := by
  have hfresh : SeekInv itemPtr ritem ⟨desc, none⟩ := ⟨hfile, fun call hcall => by cases hcall⟩
  have hruns : ((run seekStep ⟨desc, none⟩ calls).isSome ∧
      Throughout seekStep (SeeksInside ritem.filesize.toNat) ⟨desc, none⟩ calls) ↔
        Meets seekStep (StaysInside itemPtr ritem.filesize.toNat) ⟨desc, none⟩ calls := by
    apply isSome_and_throughout_iff_meets (D := fun _ _ => True) _ _ _ hfresh
    · exact meets_of_forall (fun _ _ => trivial) _ calls
    · exact fun r hr => hr.inside
    · exact fun r args hr _ hstays => seekStep_inv hr hstays
    · exact fun r args r' hr _ hleaves hstep =>
        not_seeksInside_of_not_staysInside hr hleaves hstep
  rw [← hruns]
  exact ⟨fun h => h.2, fun h => ⟨fat16Open_pos hopen, h⟩⟩

/-! ## A file of 100 bytes -/

/-- The entry of the file `A` of 100 bytes in cluster 2. -/
def hundredBytesEntry : FatDirectoryItem :=
  ⟨.ofFn fun i => if i.val = 0 then 0x41 else 0x20, .replicate 3 0x20, 0, 0, 2, 100⟩

/-- A volume with this file in its root. -/
def hundredBytesDisk : Disk where
  device.sector _ _ := 0
  fsPrivate :=
    { header := ⟨1, 1, 1, 16, 1⟩
      rootDirectory := ⟨4096, [hundredBytesEntry], 1, 2, 3⟩ }

/-- Its descriptor. -/
def hundredBytesDescriptor : FatFileDescriptor := ⟨⟨4096, .item 4096 hundredBytesEntry⟩, 0⟩

lemma fat16Open_hundredBytes :
    fat16Open constAllocator hundredBytesDisk [⟨4096, 4096, [0x41]⟩] .read () =
      .ok ((4096, some hundredBytesDescriptor), ()) := by
  have hval : (fat16Open constAllocator hundredBytesDisk [⟨4096, 4096, [0x41]⟩] .read
      ()).toOption = some ((4096, some hundredBytesDescriptor), ()) := by decide +kernel
  exact eq_ok_of_toOption hval

/-- Forwards by 60 and by 30 bytes. -/
theorem seeks_inside_hundredBytes :
    hundredBytesDescriptor.pos = 0 ∧
      (run seekStep ⟨hundredBytesDescriptor, none⟩ [(60, seekCur), (30, seekCur)]).isSome ∧
      Throughout seekStep (SeeksInside 100) ⟨hundredBytesDescriptor, none⟩
        [(60, seekCur), (30, seekCur)] := by
  apply (seeks_inside_iff fat16Open_hundredBytes rfl [(60, seekCur), (30, seekCur)]).mpr
  refine ⟨⟨by decide, fun _ _ => by decide⟩, ?_⟩
  intro r hr
  obtain rfl := Option.some.inj hr
  exact ⟨⟨by decide, fun _ _ => by decide⟩, fun _ _ => trivial⟩

/-- Forwards by 60 bytes twice. -/
theorem seek_past_end :
    ¬ ∀ (σ : Type) (A : Allocator σ) (disk : Disk) (path : List PathPart) (mode : FileMode)
      (s s' : σ) (ptr itemPtr : Addr) (desc : FatFileDescriptor) (ritem : FatDirectoryItem),
      fat16Open A disk path mode s = .ok ((ptr, some desc), s') →
      desc.item.payload = .item itemPtr ritem → ∀ calls : List (ℕ × ℕ),
      Throughout seekStep (SeeksInside ritem.filesize.toNat) ⟨desc, none⟩ calls := by
  intro h
  have hrun := h _ _ _ _ _ _ _ _ _ _ _ fat16Open_hundredBytes rfl [(60, seekCur), (60, seekCur)]
  have hlast := (hrun.2 _ rfl).2 _ rfl
  have hpos := ((hlast _ rfl).1 rfl).1
  exact absurd hpos (by decide)

end MarrowOS
