import MarrowOS.Fs.File
import MarrowOS.Lib.Fallible
import MarrowOS.Lib.Runs

/-!
# The descriptor table over runs

A run of the file layer records, beside the table, the calls of the file system that each step
makes and what the open descriptors were opened on. `fopen_outcome` lists the ways an `fopen`
can end. `fileRun_routed` is the invariant of the table, and says of every next call which
file it reaches.
-/

namespace MarrowOS

open CInt Fallible Runs

variable {ω : Type} {W : FileWorld ω} {table : FileTable} {i : ℤ}

/-! ## The first free slot -/

/-- Slot `i` is the lowest free one. -/
structure FirstFree (table : FileTable) (i : ℤ) : Prop where
  nonneg : 0 ≤ i
  lt : i < 512
  free : table i = none
  lowest : ∀ j, 0 ≤ j → j < i → table j ≠ none

lemma fileFreeSlotLoop_eq (table : FileTable) : ∀ (n : ℕ) (i : ℤ),
    match fileFreeSlotLoop table n i with
    | none => ∀ j, i ≤ j → j < i + n → table j ≠ none
    | some k => i ≤ k ∧ k < i + n ∧ table k = none ∧ ∀ j, i ≤ j → j < k → table j ≠ none := by
  intro n
  induction n with
  | zero =>
    intro i j h₀ h₁
    simp only [Nat.cast_zero] at h₁
    omega
  | succ n ih =>
    intro i
    rw [fileFreeSlotLoop]
    by_cases hi : table i = none
    · rw [if_pos hi]
      exact ⟨le_refl i, by omega, hi, fun j h₀ h₁ => by omega⟩
    · rw [if_neg hi]
      have hrest := ih (i + 1)
      have hstep : ∀ j, i ≤ j → (i + 1 ≤ j → table j ≠ none) → table j ≠ none := by
        intro j hj hlater
        rcases eq_or_lt_of_le hj with rfl | hlt
        · exact hi
        · exact hlater (by omega)
      cases hloop : fileFreeSlotLoop table n (i + 1) with
      | none =>
        rw [hloop] at hrest
        exact fun j h₀ h₁ => hstep j h₀ fun h => hrest j h (by omega)
      | some k =>
        rw [hloop] at hrest
        obtain ⟨hk, hlt, hfree, hlow⟩ := hrest
        exact ⟨by omega, by omega, hfree, fun j h₀ h₁ => hstep j h₀ fun h => hlow j h h₁⟩

lemma fileFreeSlotLoop_some (h : fileFreeSlotLoop table marrowosMaxFileDescriptors 0 = some i) :
    FirstFree table i := by
  have hspec := fileFreeSlotLoop_eq table marrowosMaxFileDescriptors 0
  rw [h] at hspec
  obtain ⟨h₀, h₁, hfree, hlow⟩ := hspec
  exact ⟨h₀, by simpa using h₁, hfree, hlow⟩

lemma fileFreeSlotLoop_none (h : fileFreeSlotLoop table marrowosMaxFileDescriptors 0 = none) :
    ∀ j, 0 ≤ j → j < 512 → table j ≠ none := by
  have hspec := fileFreeSlotLoop_eq table marrowosMaxFileDescriptors 0
  rw [h] at hspec
  exact fun j h₀ h₁ => hspec j h₀ (by simpa using h₁)

/-! ## Runs -/

/-- What a descriptor was opened on. -/
structure OpenFile where
  filesystem : Addr
  disk : Addr
  «private» : Addr
deriving DecidableEq, Repr

/-- The table and the world, with the result and the file system calls of the last step and
what each open descriptor was opened on. -/
structure FileRun (ω : Type) where
  table : FileTable
  world : ω
  res : ℤ
  calls : List FsCall
  opened : ℤ → Option OpenFile

/-- Before the first call, after `fs_init`. -/
def initialFileRun (w : ω) : FileRun ω := ⟨emptyFileTable, w, 0, [], fun _ => none⟩

inductive FileOp
  | fopen (filename modeStr : CString)
  | fclose (fd : ℤ)
  | fread (ptr : Addr) (size nmemb : ℕ) (fd : ℤ)
  | fseek (fd offset : ℤ) (whence : ℕ)
  | fstat (fd : ℤ)
deriving DecidableEq, Repr

/-- What the `open` among the calls obtained. -/
def openedBy : List FsCall → Option OpenFile
  | .fsOpen filesystem disk _ _ result :: _ => some ⟨filesystem, disk, result⟩
  | _ => none

/-- One call; `none` when it faults. -/
def fileStep (W : FileWorld ω) (r : FileRun ω) : FileOp → Option (FileRun ω)
  | .fopen filename modeStr =>
    match fopen W.recorded filename modeStr r.table (r.world, []) with
    | .error _ => none
    | .ok (res, table, w, calls) =>
      let opened := if 0 < res then Function.update r.opened res (openedBy calls) else r.opened
      some ⟨table, w, res, calls, opened⟩
  | .fclose fd =>
    let (res, table, w, calls) := fclose W.recorded fd r.table (r.world, [])
    let opened := if res = 0 then Function.update r.opened fd none else r.opened
    some ⟨table, w, res, calls, opened⟩
  | .fread ptr size nmemb fd =>
    let (res, w, calls) := fread W.recorded ptr size nmemb fd r.table (r.world, [])
    some ⟨r.table, w, res, calls, r.opened⟩
  | .fseek fd offset whence =>
    let (res, w, calls) := fseek W.recorded fd offset whence r.table (r.world, [])
    some ⟨r.table, w, res, calls, r.opened⟩
  | .fstat fd =>
    let ((res, _), w, calls) := fstat W.recorded fd r.table (r.world, [])
    some ⟨r.table, w, res, calls, r.opened⟩

/-! ## How `fopen` ends -/

/-- The call reaches the file system's `open` with these arguments. -/
structure ReachesOpen (W : FileWorld ω) (filename modeStr : CString) (w : ω) (disk : DiskPtr)
    (path : List PathPart) (w' : ω) : Prop where
  parsed : ∃ root, W.pathparserParse filename w = (some root, w') ∧ root.first = path ∧
    W.diskGet root.driveNo w' = some disk
  path_ne : path ≠ []
  filesystem_ne : disk.filesystem ≠ 0
  mode_ne : fileGetModeByString modeStr ≠ .invalid

/-- The `open` that is reached, if any, returns no error code, and the descriptor that is then
allocated, if any, is not null. -/
def OpensCleanly (W : FileWorld ω) (filename modeStr : CString) (table : FileTable) (w : ω) :
    Prop :=
  ∀ disk path w', ReachesOpen W filename modeStr w disk path w' →
    let (ptr, w'') :=
      W.fsOpen disk.filesystem disk.addr path (fileGetModeByString modeStr) w'
    isErr ptr = false ∧
      (fileFreeSlotLoop table marrowosMaxFileDescriptors 0 ≠ none →
        (W.kzalloc sizeofFileDescriptor w'').1 ≠ 0)

/-- The ways an `fopen` can end, the flag saying whether it opened cleanly. -/
inductive FopenOutcome (W : FileWorld ω) (table : FileTable) :
    Bool → Except Fault (ℤ × FileTable × ω × List FsCall) → Prop
  | refused (w : ω) : FopenOutcome W table true (.ok (0, table, w, []))
  | openFailed (w : ω) (filesystem disk path mode ptr) (herr : isErr ptr = true) :
    FopenOutcome W table false (.ok (0, table, w,
      [.fsOpen filesystem disk path mode ptr, .fsClose filesystem ptr]))
  | noSlot (w : ω) (filesystem disk path mode ptr) (hok : isErr ptr = false)
    (hptr : ∃ w', (W.fsOpen filesystem disk path mode w').1 = ptr)
    (hfull : ∀ j, 0 ≤ j → j < 512 → table j ≠ none) :
    FopenOutcome W table true (.ok (0, table, w, .fsOpen filesystem disk path mode ptr ::
      if ptr ≠ 0 then [.fsClose filesystem ptr] else []))
  | opened (w : ω) (filesystem disk path mode ptr addr i) (hok : isErr ptr = false)
    (hfree : FirstFree table i) :
    FopenOutcome W table true (.ok (i + 1,
      Function.update table i (some ⟨addr, i + 1, filesystem, ptr, disk⟩), w,
      [.fsOpen filesystem disk path mode ptr]))
  | nullDescriptor (fault : Fault) (w : ω) (hnull : (W.kzalloc sizeofFileDescriptor w).1 = 0) :
    FopenOutcome W table false (.error fault)

/-- There is only one `open` to reach. -/
lemma opensCleanly_iff {filename modeStr : CString} {w w' : ω} {disk : DiskPtr}
    {path : List PathPart} (hreach : ReachesOpen W filename modeStr w disk path w') {ptr : Addr}
    {w'' : ω} (hopen : W.fsOpen disk.filesystem disk.addr path
      (fileGetModeByString modeStr) w' = (ptr, w'')) :
    OpensCleanly W filename modeStr table w ↔ isErr ptr = false ∧
      (fileFreeSlotLoop table marrowosMaxFileDescriptors 0 ≠ none →
        (W.kzalloc sizeofFileDescriptor w'').1 ≠ 0) := by
  unfold OpensCleanly
  constructor
  · intro h
    simpa [hopen] using h disk path w' hreach
  · intro h disk₂ path₂ w₂ hreach₂
    obtain ⟨root, hparse, hfirst, hdisk⟩ := hreach.parsed
    obtain ⟨root₂, hparse₂, hfirst₂, hdisk₂⟩ := hreach₂.parsed
    obtain ⟨hroot, rfl⟩ := Prod.mk.inj (hparse.symm.trans hparse₂)
    obtain rfl := Option.some.inj hroot
    obtain rfl := Option.some.inj (hdisk.symm.trans hdisk₂)
    obtain rfl : path = path₂ := hfirst.symm.trans hfirst₂
    simpa [hopen] using h

lemma isErr_neg {ptr : Addr} (h : isErr ptr = true) : i32 ptr < 0 := by
  simpa [isErr] using h

/-- An error code is not the null pointer. -/
lemma isErr_ne_zero {ptr : Addr} (h : isErr ptr = true) : ptr ≠ 0 := by
  rintro rfl
  exact absurd (isErr_neg h) (by decide)

/-- A call that stops before the `open` leaves no call behind. -/
lemma fopen_refused {filename modeStr : CString} {w w' : ω} {res : ℤ} {rootPath : Option PathRoot}
    {disk : Option DiskPtr} (hres : res < 0)
    (hbody : fopenBody W.recorded filename modeStr table (w, []) =
      .ok (⟨res, rootPath, disk, 0, none⟩, table, w', [])) :
    ∃ w'', fopen W.recorded filename modeStr table (w, []) = .ok (0, table, w'', []) := by
  simp only [fopen, hbody, ok_bind, pure_eq_ok, fopenOut, if_pos hres]
  cases rootPath with
  | none => cases disk <;> exact ⟨w', by simp⟩
  | some root => cases disk <;> exact ⟨W.pathparserFree root w', by simp [FileWorld.recorded]⟩

/-- A call that stops after the `open` hands its result to `close`, unless it is null. -/
lemma fopen_cleanup {filename modeStr : CString} {w w' : ω} {res : ℤ} {root : PathRoot}
    {disk : DiskPtr} {ptr : Addr} {calls : List FsCall} (hres : res < 0)
    (hbody : fopenBody W.recorded filename modeStr table (w, []) =
      .ok (⟨res, some root, some disk, ptr, none⟩, table, w', calls)) :
    ∃ w'', fopen W.recorded filename modeStr table (w, []) = .ok (0, table, w'',
      calls ++ if ptr ≠ 0 then [.fsClose disk.filesystem ptr] else []) := by
  simp only [fopen, hbody, ok_bind, pure_eq_ok, fopenOut, if_pos hres]
  by_cases hptr : ptr = 0
  · exact ⟨W.pathparserFree root w', by simp [hptr, FileWorld.recorded]⟩
  · exact ⟨(W.fsClose disk.filesystem ptr (W.pathparserFree root w')).2, by
      simp [hptr, FileWorld.recorded]⟩

/-- The rest of `fopen` once the `open` is reached and gave no error code. -/
lemma fopen_attach_outcome {filename modeStr : CString} {w w₂ : ω} {root : PathRoot}
    {disk : DiskPtr} {path : List PathPart} {mode : FileMode} {ptr : Addr}
    (hok : isErr ptr = false)
    (hopen : ∃ w', (W.fsOpen disk.filesystem disk.addr path mode w').1 = ptr)
    (hbody : fopenBody W.recorded filename modeStr table (w, []) =
      fopenAttach W.recorded root disk ptr table
        (w₂, [.fsOpen disk.filesystem disk.addr path mode ptr])) :
    ∃ clean, FopenOutcome W table clean (fopen W.recorded filename modeStr table (w, [])) ∧
      (clean = true ↔ (fileFreeSlotLoop table marrowosMaxFileDescriptors 0 ≠ none →
        (W.kzalloc sizeofFileDescriptor w₂).1 ≠ 0)) := by
  rcases halloc : W.kzalloc sizeofFileDescriptor w₂ with ⟨addr, w₃⟩
  unfold fopenAttach fileNewDescriptor at hbody
  cases hslot : fileFreeSlotLoop table marrowosMaxFileDescriptors 0 with
  | none =>
    simp only [hslot, ok_bind, pure_eq_ok] at hbody
    obtain ⟨w', hout⟩ := fopen_cleanup (by decide) hbody
    rw [hout]
    exact ⟨true, .noSlot w' _ _ _ _ ptr hok hopen (fileFreeSlotLoop_none hslot), by simp⟩
  | some i =>
    have hfree := fileFreeSlotLoop_some hslot
    simp only [hslot, FileWorld.recorded, halloc] at hbody
    by_cases haddr : addr = 0
    · rw [if_pos haddr, error_bind] at hbody
      rw [fopen, FileWorld.recorded, hbody, error_bind]
      exact ⟨false, .nullDescriptor _ w₂ (by rw [halloc]; exact haddr), by simp [haddr]⟩
    · rw [if_neg haddr] at hbody
      simp only [ok_bind, pure_eq_ok, add_sub_cancel_right, Function.update_idem] at hbody
      have hpos : ¬ i + 1 < 0 := by have := hfree.nonneg; omega
      rw [fopen, FileWorld.recorded, hbody]
      simp only [ok_bind, pure_eq_ok, fopenOut, if_neg hpos]
      exact ⟨true, .opened w₃ _ _ _ _ ptr addr i hok hfree, by simp [haddr]⟩

lemma fopen_outcome (W : FileWorld ω) (filename modeStr : CString) (table : FileTable) (w : ω) :
    ∃ clean, FopenOutcome W table clean (fopen W.recorded filename modeStr table (w, [])) ∧
      (clean = true ↔ OpensCleanly W filename modeStr table w) := by
  have hrefused : ∀ res rootPath disk w', res < 0 →
      fopenBody W.recorded filename modeStr table (w, []) =
        .ok (⟨res, rootPath, disk, 0, none⟩, table, w', []) →
      (∀ disk path w'', ¬ ReachesOpen W filename modeStr w disk path w'') →
      ∃ clean, FopenOutcome W table clean (fopen W.recorded filename modeStr table (w, [])) ∧
        (clean = true ↔ OpensCleanly W filename modeStr table w) := by
    intro res rootPath disk w' hres hbody hnot
    obtain ⟨w'', hout⟩ := fopen_refused hres hbody
    rw [hout]
    exact ⟨true, .refused w'', by simp [OpensCleanly, hnot]⟩
  rcases hparse : W.pathparserParse filename w with ⟨rootPath, w₁⟩
  have hreached : ∀ disk path w'', ReachesOpen W filename modeStr w disk path w'' →
      ∃ root, rootPath = some root ∧ w₁ = w'' ∧ root.first = path ∧
        W.diskGet root.driveNo w₁ = some disk := by
    intro disk path w'' h
    obtain ⟨root, hp, hfirst, hdisk⟩ := h.parsed
    obtain ⟨hroot, rfl⟩ := Prod.mk.inj (hparse.symm.trans hp)
    exact ⟨root, hroot, rfl, hfirst, hdisk⟩
  have hrec : W.recorded.pathparserParse filename (w, []) = (rootPath, w₁, []) := by
    simp [FileWorld.recorded, hparse]
  cases rootPath with
  | none =>
    refine hrefused (-einvarg) none none w₁ (by decide) (by simp [fopenBody, hrec]) ?_
    intro disk path w'' h
    obtain ⟨root, hroot, -⟩ := hreached disk path w'' h
    cases hroot
  | some root =>
    by_cases hfirst : root.first = []
    · refine hrefused (-einvarg) root none w₁ (by decide) (by simp [fopenBody, hrec, hfirst]) ?_
      intro disk path w'' h
      obtain ⟨root', hroot, -, rfl, -⟩ := hreached disk path w'' h
      obtain rfl := Option.some.inj hroot
      exact h.path_ne hfirst
    have hget : W.recorded.diskGet root.driveNo (w₁, []) = W.diskGet root.driveNo w₁ := rfl
    cases hdisk : W.diskGet root.driveNo w₁ with
    | none =>
      refine hrefused (-eio) root none w₁ (by decide)
        (by simp [fopenBody, hrec, hfirst, hget, hdisk]) ?_
      intro disk path w'' h
      obtain ⟨root', hroot, -, -, hd⟩ := hreached disk path w'' h
      obtain rfl := Option.some.inj hroot
      rw [hdisk] at hd
      cases hd
    | some disk =>
      have hsame : ∀ disk' path w'', ReachesOpen W filename modeStr w disk' path w'' →
          disk' = disk := by
        intro disk' path w'' h
        obtain ⟨root', hroot, -, -, hd⟩ := hreached disk' path w'' h
        obtain rfl := Option.some.inj hroot
        exact Option.some.inj (hd.symm.trans hdisk)
      by_cases hfs : disk.filesystem = 0
      · refine hrefused (-eio) root disk w₁ (by decide)
          (by simp [fopenBody, hrec, hfirst, hget, hdisk, hfs]) ?_
        intro disk' path w'' h
        obtain rfl := hsame disk' path w'' h
        exact h.filesystem_ne hfs
      by_cases hmode : fileGetModeByString modeStr = .invalid
      · exact hrefused (-einvarg) root disk w₁ (by decide)
          (by simp [fopenBody, hrec, hfirst, hget, hdisk, hfs, hmode])
          fun _ _ _ h => h.mode_ne hmode
      have hreach : ReachesOpen W filename modeStr w disk root.first w₁ :=
        ⟨⟨root, hparse, rfl, hdisk⟩, hfirst, hfs, hmode⟩
      rcases hopen : W.fsOpen disk.filesystem disk.addr root.first
        (fileGetModeByString modeStr) w₁ with ⟨ptr, w₂⟩
      have hopenrec : W.recorded.fsOpen disk.filesystem disk.addr root.first
          (fileGetModeByString modeStr) (w₁, []) = (ptr, w₂,
            [.fsOpen disk.filesystem disk.addr root.first (fileGetModeByString modeStr) ptr]) := by
        simp [FileWorld.recorded, hopen]
      rw [opensCleanly_iff hreach hopen]
      cases herr : isErr ptr with
      | true =>
        have hbody : fopenBody W.recorded filename modeStr table (w, []) =
            .ok (⟨i32 ptr, root, disk, ptr, none⟩, table, w₂,
              [.fsOpen disk.filesystem disk.addr root.first (fileGetModeByString modeStr)
                ptr]) := by
          simp [fopenBody, hrec, hfirst, hget, hdisk, hfs, hmode, hopenrec, herr]
        obtain ⟨w', hout⟩ := fopen_cleanup (isErr_neg herr) hbody
        rw [hout, if_pos (isErr_ne_zero herr)]
        exact ⟨false, .openFailed w' _ _ _ _ ptr herr, by simp⟩
      | false =>
        have hbody : fopenBody W.recorded filename modeStr table (w, []) =
            fopenAttach W.recorded root disk ptr table (w₂,
              [.fsOpen disk.filesystem disk.addr root.first (fileGetModeByString modeStr)
                ptr]) := by
          simp [fopenBody, hrec, hfirst, hget, hdisk, hfs, hmode, hopenrec, herr]
        obtain ⟨clean, hout, hclean⟩ := fopen_attach_outcome herr ⟨w₁, by rw [hopen]⟩ hbody
        exact ⟨clean, hout, by simpa using hclean⟩

/-! ## Routing -/

def FileDescriptor.file (desc : FileDescriptor) : OpenFile :=
  ⟨desc.filesystem, desc.disk, desc.private⟩

/-- The descriptor in slot `i` has number `i + 1` and leads to the file this number was last
opened on. -/
structure TableOk (r : FileRun ω) : Prop where
  index : ∀ i desc, r.table i = some desc → 0 ≤ i ∧ i < 512 ∧ desc.index = i + 1
  opened : ∀ fd, r.opened fd = (fileGetDescriptor fd r.table).map FileDescriptor.file

/-- The call is the only one that was made; for a number that is not open there is none, and
an error. -/
def Reaches (file : Option OpenFile) (call : OpenFile → FsCall) (r : FileRun ω) : Prop :=
  match file with
  | none => r.res < 0 ∧ r.calls = []
  | some file => r.calls = [call file]

/-- The table after the step, and the file its calls went to. -/
def Routed (r : FileRun ω) (r' : FileRun ω) : FileOp → Prop
  | .fopen _ _ =>
    (r'.res = 0 ∧ r'.table = r.table ∧ r'.opened = r.opened) ∨
    ∃ i filesystem disk path mode ptr, FirstFree r.table i ∧ r'.res = i + 1 ∧
      (∀ j, j ≠ i → r'.table j = r.table j) ∧
      r'.calls = [.fsOpen filesystem disk path mode ptr] ∧
      r'.opened = Function.update r.opened (i + 1) (some ⟨filesystem, disk, ptr⟩)
  | .fclose fd =>
    Reaches (r.opened fd) (fun file => .fsClose file.filesystem file.private) r' ∧
    r'.table = Function.update r.table (fd - 1) none ∧
    r'.opened = Function.update r.opened fd none
  | .fread ptr size nmemb fd =>
    r'.table = r.table ∧ r'.opened = r.opened ∧
    if size = 0 ∨ nmemb = 0 then r'.res < 0 ∧ r'.calls = []
    else Reaches (r.opened fd)
      (fun file => .fsRead file.filesystem file.disk file.private size nmemb ptr) r'
  | .fseek fd offset whence =>
    r'.table = r.table ∧ r'.opened = r.opened ∧
    Reaches (r.opened fd)
      (fun file => .fsSeek file.filesystem file.private (u32 offset) whence) r'
  | .fstat fd =>
    r'.table = r.table ∧ r'.opened = r.opened ∧
    Reaches (r.opened fd) (fun file => .fsStat file.filesystem file.disk file.private) r'

lemma fileGetDescriptor_update (table : FileTable) (h₀ : 0 ≤ i) (h : i < 512) (fd : ℤ)
    (d : Option FileDescriptor) :
    fileGetDescriptor fd (Function.update table i d) =
      if fd = i + 1 then d else fileGetDescriptor fd table := by
  unfold fileGetDescriptor
  rcases eq_or_ne fd (i + 1) with rfl | hne
  · rw [if_neg (by simp only [marrowosMaxFileDescriptors]; omega), if_pos rfl,
      add_sub_cancel_right, Function.update_self]
  · rw [if_neg hne, Function.update_of_ne (by omega)]

lemma fileGetDescriptor_eq_some {fd : ℤ} {desc : FileDescriptor}
    (h : fileGetDescriptor fd table = some desc) :
    0 < fd ∧ fd ≤ 512 ∧ table (fd - 1) = some desc := by
  unfold fileGetDescriptor at h
  split at h
  · cases h
  rename_i hrange
  simp only [marrowosMaxFileDescriptors] at hrange
  exact ⟨by omega, by omega, h⟩

/-- Only the numbers 1 to 512 can be open. -/
lemma TableOk.opened_range {r : FileRun ω} (hr : TableOk r) {fd : ℤ}
    (h : fd ≤ 0 ∨ 512 < fd) : r.opened fd = none := by
  rw [hr.opened, fileGetDescriptor, if_pos (by simpa using h)]
  rfl

/-- A number that leads nowhere has no slot, or an empty one. -/
lemma TableOk.slot_of_none {r : FileRun ω} (hr : TableOk r) {fd : ℤ}
    (h : fileGetDescriptor fd r.table = none) : r.table (fd - 1) = none := by
  by_contra hne
  obtain ⟨desc, hdesc⟩ := Option.ne_none_iff_exists'.mp hne
  obtain ⟨h₀, hlt, -⟩ := hr.index _ desc hdesc
  rw [fileGetDescriptor, if_neg (by simp only [marrowosMaxFileDescriptors]; omega)] at h
  exact hne h

lemma initialFileRun_ok (w : ω) : TableOk (initialFileRun w) := by
  refine ⟨fun i desc h => ?_, fun fd => ?_⟩
  · cases h
  · simp [initialFileRun, fileGetDescriptor, emptyFileTable]

/-- A successful `fopen` takes the lowest free slot. -/
lemma TableOk.opened_slot {r : FileRun ω} (hr : TableOk r) (hfree : FirstFree r.table i) (w : ω)
    (addr filesystem disk path mode ptr) :
    TableOk ⟨Function.update r.table i (some ⟨addr, i + 1, filesystem, ptr, disk⟩), w, i + 1,
      [.fsOpen filesystem disk path mode ptr],
      Function.update r.opened (i + 1) (some ⟨filesystem, disk, ptr⟩)⟩ := by
  refine ⟨fun j desc h => ?_, fun fd => ?_⟩
  · simp only [Function.update_apply] at h
    split at h
    · rename_i heq
      obtain rfl := Option.some.inj h
      exact ⟨by rw [heq]; exact hfree.nonneg, by rw [heq]; exact hfree.lt, by rw [heq]⟩
    · exact hr.index j desc h
  · simp only [fileGetDescriptor_update _ hfree.nonneg hfree.lt, Function.update_apply]
    split
    · rfl
    · exact hr.opened fd

/-- Closing a number empties its slot. -/
lemma TableOk.closed_slot {r : FileRun ω} (hr : TableOk r) (w : ω) (res : ℤ) (calls : List FsCall)
    {fd : ℤ} (h₀ : 0 < fd) (h : fd ≤ 512) :
    TableOk ⟨Function.update r.table (fd - 1) none, w, res, calls,
      Function.update r.opened fd none⟩ := by
  refine ⟨fun j desc hj => ?_, fun fd' => ?_⟩
  · simp only [Function.update_apply] at hj
    split at hj
    · cases hj
    · exact hr.index j desc hj
  · have hget := fileGetDescriptor_update r.table (i := fd - 1) (by omega) (by omega)
    simp only [hget, sub_add_cancel, Function.update_apply]
    split
    · rfl
    · exact hr.opened fd'

/-- The step of a call that leaves the table alone. -/
lemma TableOk.same_table {r : FileRun ω} (hr : TableOk r) (w : ω) (res : ℤ)
    (calls : List FsCall) : TableOk ⟨r.table, w, res, calls, r.opened⟩ :=
  ⟨hr.index, hr.opened⟩

/-- The step of an `fopen` that returned `0`. -/
lemma fileStep_zero {r : FileRun ω} {filename modeStr : CString} {w : ω} {calls : List FsCall}
    (hf : fopen W.recorded filename modeStr r.table (r.world, []) = .ok (0, table, w, calls)) :
    fileStep W r (.fopen filename modeStr) = some ⟨table, w, 0, calls, r.opened⟩ := by
  simp [fileStep, hf]

/-- The step of an `fopen` that returned a number. -/
lemma fileStep_opened {r : FileRun ω} {filename modeStr : CString} {res : ℤ} {w : ω} {filesystem
    disk : Addr} {path : List PathPart} {mode : FileMode} {ptr : Addr}
    (hf : fopen W.recorded filename modeStr r.table (r.world, []) =
      .ok (res, table, w, [.fsOpen filesystem disk path mode ptr])) (hres : 0 < res) :
    fileStep W r (.fopen filename modeStr) = some ⟨table, w, res,
      [.fsOpen filesystem disk path mode ptr],
      Function.update r.opened res (some ⟨filesystem, disk, ptr⟩)⟩ := by
  simp only [fileStep, hf, if_pos hres, openedBy]

lemma fileStep_fopen_routed (halloc : ∀ size w, (W.kzalloc size w).1 ≠ 0) {r : FileRun ω}
    (hr : TableOk r) (filename modeStr : CString) :
    ∃ r', fileStep W r (.fopen filename modeStr) = some r' ∧ TableOk r' ∧
      Routed r r' (.fopen filename modeStr) := by
  obtain ⟨clean, hout, hclean⟩ := fopen_outcome W filename modeStr r.table r.world
  generalize hf : fopen W.recorded filename modeStr r.table (r.world, []) = out at hout
  cases hout with
  | refused w =>
    exact ⟨_, fileStep_zero hf, hr.same_table w 0 [], .inl ⟨rfl, rfl, rfl⟩⟩
  | openFailed w filesystem disk path mode ptr herr =>
    exact ⟨_, fileStep_zero hf, hr.same_table w 0 _, .inl ⟨rfl, rfl, rfl⟩⟩
  | noSlot w filesystem disk path mode ptr hok hptr hfull =>
    exact ⟨_, fileStep_zero hf, hr.same_table w 0 _, .inl ⟨rfl, rfl, rfl⟩⟩
  | opened w filesystem disk path mode ptr addr i hok hfree =>
    have hpos : 0 < i + 1 := by have := hfree.nonneg; omega
    exact ⟨_, fileStep_opened hf hpos, hr.opened_slot hfree w addr filesystem disk path mode ptr,
      .inr ⟨i, filesystem, disk, path, mode, ptr, hfree, rfl,
        fun j hj => Function.update_of_ne hj _ _, rfl, rfl⟩⟩
  | nullDescriptor fault w hnull => exact absurd hnull (halloc _ w)

lemma fileStep_fclose_routed (hclose : ∀ filesystem ptr w, (W.fsClose filesystem ptr w).1 = 0)
    {r : FileRun ω} (hr : TableOk r) (fd : ℤ) :
    ∃ r', fileStep W r (.fclose fd) = some r' ∧ TableOk r' ∧ Routed r r' (.fclose fd) := by
  have hopened := hr.opened fd
  cases hget : fileGetDescriptor fd r.table with
  | none =>
    have hnone : r.opened fd = none := by rw [hopened, hget]; rfl
    have hslot := hr.slot_of_none hget
    refine ⟨⟨r.table, r.world, -eio, [], r.opened⟩, ?_, hr.same_table _ _ _, ?_⟩
    · simp [fileStep, fclose, hget]
    · refine ⟨?_, ?_, ?_⟩
      · rw [hnone]
        exact ⟨(by decide : -eio < 0), rfl⟩
      · rw [← hslot, Function.update_eq_self]
      · rw [← hnone, Function.update_eq_self]
  | some desc =>
    obtain ⟨h₀, h, hslot⟩ := fileGetDescriptor_eq_some hget
    have hindex : desc.index - 1 = fd - 1 := by
      have := (hr.index _ desc hslot).2.2
      omega
    have hsome : r.opened fd = some desc.file := by rw [hopened, hget]; rfl
    refine ⟨⟨Function.update r.table (fd - 1) none,
      W.kfree desc.addr (W.fsClose desc.filesystem desc.private r.world).2, 0,
      [.fsClose desc.filesystem desc.private], Function.update r.opened fd none⟩, ?_,
      hr.closed_slot _ _ _ h₀ h, ?_, rfl, rfl⟩
    · simp [fileStep, fclose, hget, FileWorld.recorded, hclose, fileFreeDescriptor, hindex]
    · rw [hsome]
      rfl

/-- The calls on a number need no allocation. -/
lemma fileStep_number_routed (hclose : ∀ filesystem ptr w, (W.fsClose filesystem ptr w).1 = 0)
    {r : FileRun ω} (hr : TableOk r) {op : FileOp} (hop : ∀ filename modeStr,
      op ≠ .fopen filename modeStr) :
    ∃ r', fileStep W r op = some r' ∧ TableOk r' ∧ Routed r r' op := by
  cases op with
  | fopen filename modeStr => exact absurd rfl (hop filename modeStr)
  | fclose fd => exact fileStep_fclose_routed hclose hr fd
  | fread ptr size nmemb fd =>
    rcases hf : fread W.recorded ptr size nmemb fd r.table (r.world, []) with ⟨res, w, calls⟩
    refine ⟨⟨r.table, w, res, calls, r.opened⟩, by simp [fileStep, hf], hr.same_table w res calls,
      rfl, rfl, ?_⟩
    rw [hr.opened fd]
    unfold fread at hf
    by_cases hsize : size = 0 ∨ nmemb = 0
    · rw [if_pos (by tauto)] at hf
      cases hf
      rw [if_pos hsize]
      exact ⟨(by decide : -einvarg < 0), rfl⟩
    · rw [if_neg hsize]
      cases hget : fileGetDescriptor fd r.table with
      | none =>
        simp only [hget, ite_self] at hf
        cases hf
        exact ⟨(by decide : -einvarg < 0), rfl⟩
      | some desc =>
        have hfd : ¬ fd < 1 := by have := (fileGetDescriptor_eq_some hget).1; omega
        rw [if_neg (by tauto), hget] at hf
        cases hf
        rfl
  | fseek fd offset whence =>
    rcases hf : fseek W.recorded fd offset whence r.table (r.world, []) with ⟨res, w, calls⟩
    refine ⟨⟨r.table, w, res, calls, r.opened⟩, by simp [fileStep, hf], hr.same_table w res calls,
      rfl, rfl, ?_⟩
    rw [hr.opened fd]
    unfold fseek at hf
    cases hget : fileGetDescriptor fd r.table with
    | none =>
      rw [hget] at hf
      cases hf
      exact ⟨(by decide : -eio < 0), rfl⟩
    | some desc =>
      rw [hget] at hf
      cases hf
      rfl
  | fstat fd =>
    rcases hf : fstat W.recorded fd r.table (r.world, []) with ⟨⟨res, stat⟩, w, calls⟩
    refine ⟨⟨r.table, w, res, calls, r.opened⟩, by simp [fileStep, hf], hr.same_table w res calls,
      rfl, rfl, ?_⟩
    rw [hr.opened fd]
    unfold fstat at hf
    cases hget : fileGetDescriptor fd r.table with
    | none =>
      rw [hget] at hf
      cases hf
      exact ⟨(by decide : -eio < 0), rfl⟩
    | some desc =>
      rw [hget] at hf
      cases hf
      rfl

lemma fileStep_routed (hclose : ∀ filesystem ptr w, (W.fsClose filesystem ptr w).1 = 0)
    (halloc : ∀ size w, (W.kzalloc size w).1 ≠ 0) {r : FileRun ω} (hr : TableOk r)
    (op : FileOp) :
    ∃ r', fileStep W r op = some r' ∧ TableOk r' ∧ Routed r r' op := by
  by_cases hop : ∃ filename modeStr, op = .fopen filename modeStr
  · obtain ⟨filename, modeStr, rfl⟩ := hop
    exact fileStep_fopen_routed halloc hr filename modeStr
  · exact fileStep_number_routed hclose hr fun filename modeStr h => hop ⟨filename, modeStr, h⟩

/-- Only its own `fclose` ends what a number was opened on. -/
lemma Routed.kept {r r' : FileRun ω} (hr : TableOk r) {op : FileOp} (h : Routed r r' op) {fd : ℤ}
    {file : OpenFile} (hfd : r.opened fd = some file) (hop : op ≠ .fclose fd) :
    r'.opened fd = some file := by
  cases op with
  | fopen filename modeStr =>
    obtain ⟨-, -, hsame⟩ | ⟨i, _, _, _, _, _, hfree, -, -, -, hopened⟩ := h
    · rw [hsame, hfd]
    · have hne : fd ≠ i + 1 := by
        rintro rfl
        rw [hr.opened, Option.map_eq_some_iff] at hfd
        obtain ⟨desc, hdesc, -⟩ := hfd
        have hslot := (fileGetDescriptor_eq_some hdesc).2.2
        rw [add_sub_cancel_right, hfree.free] at hslot
        cases hslot
      rw [hopened, Function.update_of_ne hne, hfd]
  | fclose fd' =>
    have hne : fd ≠ fd' := by
      rintro rfl
      exact hop rfl
    rw [h.2.2, Function.update_of_ne hne, hfd]
  | fread ptr size nmemb fd' => rw [h.2.1, hfd]
  | fseek fd' offset whence => rw [h.2.1, hfd]
  | fstat fd' => rw [h.2.1, hfd]

/-- **Descriptor table.** After any calls of the file layer, slot `i` holds descriptor `i + 1`
or nothing, only the numbers 1 to 512 can be open, and the next call, whatever it is, reaches
the file its number was opened on and no other; what a number was opened on lasts until its
`fclose`. -/
theorem fileRun_routed (W : FileWorld ω)
    (hclose : ∀ filesystem ptr w, (W.fsClose filesystem ptr w).1 = 0)
    (halloc : ∀ size w, (W.kzalloc size w).1 ≠ 0) (w : ω) (ops : List FileOp) :
    ∃ r, run (fileStep W) (initialFileRun w) ops = some r ∧
      (∀ i desc, r.table i = some desc → 0 ≤ i ∧ i < 512 ∧ desc.index = i + 1) ∧
      (∀ fd, fd ≤ 0 ∨ 512 < fd → r.opened fd = none) ∧
      ∀ op, ∃ r', fileStep W r op = some r' ∧ Routed r r' op ∧
        ∀ fd file, r.opened fd = some file → op ≠ .fclose fd → r'.opened fd = some file := by
  obtain ⟨r, hrun, hr⟩ := run_isSome_of_step (I := TableOk)
    (fun r op hr => (fileStep_routed hclose halloc hr op).imp fun _ h => ⟨h.1, h.2.1⟩)
    (initialFileRun_ok w) ops
  refine ⟨r, hrun, hr.index, fun fd => hr.opened_range, fun op => ?_⟩
  obtain ⟨r', hstep, -, hrouted⟩ := fileStep_routed hclose halloc hr op
  exact ⟨r', hstep, hrouted, fun fd file hfd hop => hrouted.kept hr hfd hop⟩

/-- A world with one file, whose `open` returns `ptr`. -/
def oneFileWorld (ptr : Addr) : FileWorld Unit where
  pathparserParse _ w := (some ⟨4096, 0, [⟨8192, 12288, [0x66]⟩]⟩, w)
  pathparserFree _ w := w
  diskGet _ _ := some ⟨16384, 20480⟩
  fsOpen _ _ _ _ w := (ptr, w)
  fsRead _ _ _ _ _ _ w := (1, w)
  fsSeek _ _ _ _ w := (0, w)
  fsStat _ _ _ w := ((0, ⟨0, 0⟩), w)
  fsClose _ _ w := (0, w)
  kzalloc _ w := (24576, w)
  kfree _ w := w

/-- A number that is closed and opened again. -/
theorem fileRun_routed_reopened :
    ∃ r, run (fileStep (oneFileWorld 28672)) (initialFileRun ())
      [.fopen [0x66] [0x72], .fclose 1, .fopen [0x66] [0x72]] = some r ∧
      r.opened 0 = none ∧
      ∃ r', fileStep (oneFileWorld 28672) r (.fread 0 1 1 1) = some r' ∧
        Routed r r' (.fread 0 1 1 1) := by
  obtain ⟨r, hrun, -, hrange, hnext⟩ := fileRun_routed (oneFileWorld 28672) (fun _ _ _ => rfl)
    (fun _ _ => by simp [oneFileWorld]) () [.fopen [0x66] [0x72], .fclose 1, .fopen [0x66] [0x72]]
  obtain ⟨r', hstep, hrouted, -⟩ := hnext (.fread 0 1 1 1)
  exact ⟨r, hrun, hrange 0 (.inl (le_refl 0)), r', hstep, hrouted⟩

example : (run (fileStep (oneFileWorld 28672)) (initialFileRun ())
    [.fopen [0x66] [0x72], .fclose 1, .fopen [0x66] [0x72], .fread 0 1 1 1]).map
      FileRun.calls = some [.fsRead 20480 16384 28672 1 1 0] := by
  decide +kernel

end MarrowOS
