import MarrowOS.Fs.FileTheorems
import MarrowOS.Lib.Ledger

/-!
# Every opened file is closed once

A ledger of the pointers that a file system's `open` returned and its `close` was given. The
cleanup of `fopen` hands `close` whatever `open` returned, so an `open` that fails puts its error
code there: `closes_once_iff` says that this, and a descriptor that could not be allocated, are
the only ways a run leaves the ledger.
-/

namespace MarrowOS

open CInt Runs Ledger

variable {ω : Type} {W : FileWorld ω}

/-! ## The ledger of a run -/

/-- A pointer, with the file system it belongs to. -/
def FileDescriptor.pointer (desc : FileDescriptor) : Addr × Addr :=
  (desc.filesystem, desc.private)

/-- An `open` that succeeds obtains its result, a `close` gives its argument back. -/
def FsCall.events : FsCall → List (Event (Addr × Addr))
  | .fsOpen filesystem _ _ _ ptr => if isErr ptr then [] else [.acquire (filesystem, ptr)]
  | .fsClose filesystem ptr => [.release (filesystem, ptr)]
  | _ => []

/-- A run with its last operation and the pointers that are open. -/
structure CloseRun (ω : Type) where
  files : FileRun ω
  last : Option FileOp
  outstanding : Option (Multiset (Addr × Addr))

def initialCloseRun (w : ω) : CloseRun ω := ⟨initialFileRun w, none, some 0⟩

def closeStep (W : FileWorld ω) (r : CloseRun ω) (op : FileOp) : Option (CloseRun ω) :=
  (fileStep W r.files op).map fun files =>
    ⟨files, some op, r.outstanding.bind fun out => settle out (files.calls.flatMap FsCall.events)⟩

/-- The slots of the descriptor table. -/
def slotNumbers : Finset ℤ := (Finset.range 512).map ⟨Nat.cast, fun _ _ => Int.ofNat.inj⟩

lemma mem_slotNumbers {i : ℤ} : i ∈ slotNumbers ↔ 0 ≤ i ∧ i < 512 := by
  constructor
  · intro h
    rcases Finset.mem_map.mp h with ⟨j, hj, heq⟩
    have hlt := Finset.mem_range.mp hj
    have hcast : (j : ℤ) = i := heq
    omega
  · intro h
    exact Finset.mem_map.mpr ⟨i.toNat, Finset.mem_range.mpr (by omega), Int.toNat_of_nonneg h.1⟩

/-- The pointers in the descriptor table. -/
def openPointers (table : FileTable) : Multiset (Addr × Addr) :=
  held slotNumbers fun i => (table i).map FileDescriptor.pointer

/-- Every pointer an `open` returned was closed once, or is still in one slot of the table; an
`fopen` returns `0` or a number that is open. -/
structure Disciplined (r : CloseRun ω) : Prop where
  settled : r.outstanding = some (openPointers r.files.table)
  fopen_res : ∀ filename modeStr, r.last = some (.fopen filename modeStr) →
    r.files.res = 0 ∨ (fileGetDescriptor r.files.res r.files.table).isSome

/-- An `fopen` opens cleanly. -/
def ClosesCleanly (W : FileWorld ω) (r : CloseRun ω) : FileOp → Prop
  | .fopen filename modeStr => OpensCleanly W filename modeStr r.files.table r.files.world
  | _ => True

/-- The invariant of a disciplined run: no descriptor holds an error code. -/
structure CloseInv (r : CloseRun ω) : Prop extends Disciplined r where
  table : TableOk r.files
  pointers : ∀ i desc, r.files.table i = some desc → isErr desc.private = false

lemma initialCloseRun_inv (w : ω) : CloseInv (initialCloseRun w) := by
  refine ⟨⟨?_, ?_⟩, initialFileRun_ok w, ?_⟩
  · simp [initialCloseRun, initialFileRun, emptyFileTable, openPointers, held, content]
  · intro filename modeStr h
    cases h
  · intro i desc h
    cases h

/-! ## Steps -/

lemma openPointers_fill {table : FileTable} {i : ℤ} (hfree : FirstFree table i)
    (desc : FileDescriptor) :
    openPointers (Function.update table i (some desc)) = desc.pointer ::ₘ openPointers table := by
  unfold openPointers
  have hcomp : (fun j => (Function.update table i (some desc) j).map FileDescriptor.pointer) =
      Function.update (fun j => (table j).map FileDescriptor.pointer) i (some desc.pointer) := by
    funext j
    rcases eq_or_ne j i with rfl | hne
    · simp
    · simp [hne]
  rw [hcomp, held_fill (mem_slotNumbers.mpr ⟨hfree.nonneg, hfree.lt⟩) (by rw [hfree.free]; rfl)]

lemma openPointers_clear {table : FileTable} {i : ℤ} {desc : FileDescriptor} (h₀ : 0 ≤ i)
    (h : i < 512) (hslot : table i = some desc) :
    openPointers table = desc.pointer ::ₘ openPointers (Function.update table i none) := by
  unfold openPointers
  have hcomp : (fun j => (Function.update table i none j).map FileDescriptor.pointer) =
      Function.update (fun j => (table j).map FileDescriptor.pointer) i none := by
    funext j
    rcases eq_or_ne j i with rfl | hne
    · simp
    · simp [hne]
  rw [hcomp]
  exact held_clear (mem_slotNumbers.mpr ⟨h₀, h⟩) (by rw [hslot]; rfl)

lemma closeStep_of_fileStep {r : CloseRun ω} {op : FileOp} {files : FileRun ω} (hr : CloseInv r)
    (hstep : fileStep W r.files op = some files) : closeStep W r op =
      some ⟨files, some op, settle (openPointers r.files.table)
        (files.calls.flatMap FsCall.events)⟩ := by
  rw [closeStep, hstep, Option.map_some, hr.settled]
  rfl

lemma closeStep_fopen (hopen : ∀ filesystem disk path mode w,
      (W.fsOpen filesystem disk path mode w).1 ≠ 0) {r : CloseRun ω} (hr : CloseInv r)
    {filename modeStr : CString}
    (hclean : OpensCleanly W filename modeStr r.files.table r.files.world) :
    ∃ r', closeStep W r (.fopen filename modeStr) = some r' ∧ CloseInv r' := by
  obtain ⟨clean, hout, hiff⟩ := fopen_outcome W filename modeStr r.files.table r.files.world
  obtain rfl : clean = true := hiff.mpr hclean
  generalize hf : fopen W.recorded filename modeStr r.files.table (r.files.world, []) = out at hout
  -- what remains to be shown of an `fopen` that returned `0` and left the table as it was
  have hzero : ∀ w calls, fileStep W r.files (.fopen filename modeStr) =
      some ⟨r.files.table, w, 0, calls, r.files.opened⟩ →
      settle (openPointers r.files.table) (calls.flatMap FsCall.events) =
        some (openPointers r.files.table) →
      ∃ r', closeStep W r (.fopen filename modeStr) = some r' ∧ CloseInv r' := by
    intro w calls hstep hsettle
    refine ⟨_, closeStep_of_fileStep hr hstep, ⟨hsettle, fun _ _ _ => .inl rfl⟩,
      hr.table.same_table w 0 calls, hr.pointers⟩
  cases hout with
  | refused w => exact hzero w [] (fileStep_zero hf) rfl
  | noSlot w filesystem disk path mode ptr hok hptr hfull =>
    have hne : ptr ≠ 0 := by
      obtain ⟨w', rfl⟩ := hptr
      exact hopen filesystem disk path mode w'
    rw [if_pos hne] at hf
    exact hzero w _ (fileStep_zero hf) (by simp [FsCall.events, hok])
  | opened w filesystem disk path mode ptr addr i hok hfree =>
    have hpos : 0 < i + 1 := by have := hfree.nonneg; omega
    have hstep := fileStep_opened hf hpos
    have hslot := fileGetDescriptor_update r.files.table hfree.nonneg hfree.lt (i + 1)
      (some ⟨addr, i + 1, filesystem, ptr, disk⟩)
    refine ⟨_, closeStep_of_fileStep hr hstep, ⟨?_, fun _ _ _ => .inr ?_⟩,
      hr.table.opened_slot hfree w addr filesystem disk path mode ptr, fun j desc hj => ?_⟩
    · rw [openPointers_fill hfree]
      simp [FsCall.events, hok, FileDescriptor.pointer]
    · rw [hslot, if_pos rfl]
      rfl
    · simp only [Function.update_apply] at hj
      split at hj
      · obtain rfl := Option.some.inj hj
        exact hok
      · exact hr.pointers j desc hj

/-- An `fopen` that does not open cleanly gives `close` an error code, or faults. -/
lemma closeStep_fopen_unclean {r r' : CloseRun ω} (hr : CloseInv r) {filename modeStr : CString}
    (hclean : ¬ OpensCleanly W filename modeStr r.files.table r.files.world)
    (hstep : closeStep W r (.fopen filename modeStr) = some r') : ¬ Disciplined r' := by
  obtain ⟨clean, hout, hiff⟩ := fopen_outcome W filename modeStr r.files.table r.files.world
  obtain rfl : clean = false := by
    by_contra h
    exact hclean (hiff.mp (by simpa using h))
  generalize hf : fopen W.recorded filename modeStr r.files.table (r.files.world, []) = out at hout
  cases hout with
  | nullDescriptor fault w hnull => simp [closeStep, fileStep, hf] at hstep
  | openFailed w filesystem disk path mode ptr herr =>
    have hnot : (filesystem, ptr) ∉ openPointers r.files.table := by
      rw [openPointers, mem_held]
      rintro ⟨i, -, hi⟩
      obtain ⟨desc, hdesc, hptr⟩ := Option.map_eq_some_iff.mp hi
      have hok := hr.pointers i desc hdesc
      rw [(Prod.mk.inj hptr).2, herr] at hok
      cases hok
    rw [closeStep_of_fileStep hr (fileStep_zero hf)] at hstep
    obtain rfl := Option.some.inj hstep
    intro h
    have hsettled := h.settled
    simp only [List.flatMap_cons, List.flatMap_nil, FsCall.events, if_pos herr, List.nil_append,
      List.append_nil, settle_release_eq_none hnot] at hsettled
    cases hsettled

lemma closeStep_fclose (hclose : ∀ filesystem ptr w, (W.fsClose filesystem ptr w).1 = 0)
    {r : CloseRun ω} (hr : CloseInv r) (fd : ℤ) :
    ∃ r', closeStep W r (.fclose fd) = some r' ∧ CloseInv r' := by
  obtain ⟨files, hstep, htable, hreach, hupdate, -⟩ := fileStep_fclose_routed hclose hr.table fd
  refine ⟨_, closeStep_of_fileStep hr hstep, ⟨?_, fun filename modeStr h => by cases h⟩, htable,
    fun j desc hj => ?_⟩
  · cases hget : fileGetDescriptor fd r.files.table with
    | none =>
      rw [hr.table.opened, hget] at hreach
      rw [hreach.2, hupdate, ← hr.table.slot_of_none hget, Function.update_eq_self]
      rfl
    | some desc =>
      obtain ⟨h₀, h, hslot⟩ := fileGetDescriptor_eq_some hget
      rw [hr.table.opened, hget] at hreach
      have hcalls : files.calls = [.fsClose desc.filesystem desc.private] := hreach
      have hevents : files.calls.flatMap FsCall.events = [.release desc.pointer] := by
        rw [hcalls]
        rfl
      rw [hevents, hupdate, openPointers_clear (by omega) (by omega) hslot, settle_release]
  · rw [hupdate] at hj
    simp only [Function.update_apply] at hj
    split at hj
    · cases hj
    · exact hr.pointers j desc hj

/-- The calls that only use a number do not touch the ledger. -/
lemma closeStep_of_no_events {r : CloseRun ω} (hr : CloseInv r) {op : FileOp}
    (hop : ∀ filename modeStr, op ≠ .fopen filename modeStr) {files : FileRun ω}
    (hstep : fileStep W r.files op = some files) (hfiles : TableOk files)
    (htable : files.table = r.files.table) (hcalls : files.calls.flatMap FsCall.events = []) :
    ∃ r', closeStep W r op = some r' ∧ CloseInv r' := by
  refine ⟨_, closeStep_of_fileStep hr hstep, ⟨?_, fun filename modeStr h => ?_⟩, hfiles, ?_⟩
  · rw [hcalls, htable]
    rfl
  · exact absurd (Option.some.inj h) (hop filename modeStr)
  · rw [htable]
    exact hr.pointers

lemma Reaches.events_eq_nil {file : Option OpenFile} {call : OpenFile → FsCall} {r : FileRun ω}
    (h : Reaches file call r) (hcall : ∀ file, (call file).events = []) :
    r.calls.flatMap FsCall.events = [] := by
  cases file with
  | none => rw [h.2, List.flatMap_nil]
  | some file =>
    have hcalls : r.calls = [call file] := h
    simp [hcalls, hcall]

lemma closeStep_inv (hopen : ∀ filesystem disk path mode w,
      (W.fsOpen filesystem disk path mode w).1 ≠ 0)
    (hclose : ∀ filesystem ptr w, (W.fsClose filesystem ptr w).1 = 0) {r : CloseRun ω}
    {op : FileOp} (hr : CloseInv r) (hclean : ClosesCleanly W r op) :
    ∃ r', closeStep W r op = some r' ∧ CloseInv r' := by
  by_cases hop : ∀ filename modeStr, op ≠ .fopen filename modeStr
  · obtain ⟨files, hstep, hfiles, hrouted⟩ := fileStep_number_routed hclose hr.table hop
    cases op with
    | fopen filename modeStr => exact absurd rfl (hop filename modeStr)
    | fclose fd => exact closeStep_fclose hclose hr fd
    | fread ptr size nmemb fd =>
      obtain ⟨htable, -, hreach⟩ := hrouted
      refine closeStep_of_no_events hr hop hstep hfiles htable ?_
      split at hreach
      · rw [hreach.2, List.flatMap_nil]
      · exact hreach.events_eq_nil fun _ => rfl
    | fseek fd offset whence =>
      obtain ⟨htable, -, hreach⟩ := hrouted
      exact closeStep_of_no_events hr hop hstep hfiles htable (hreach.events_eq_nil fun _ => rfl)
    | fstat fd =>
      obtain ⟨htable, -, hreach⟩ := hrouted
      exact closeStep_of_no_events hr hop hstep hfiles htable (hreach.events_eq_nil fun _ => rfl)
  · push Not at hop
    obtain ⟨filename, modeStr, rfl⟩ := hop
    exact closeStep_fopen hopen hr hclean

/-! ## Runs -/

/-- **Close discipline.** Where `open` returns a pointer or an error code and `close` succeeds,
the runs that close every opened file exactly once, and nothing else, are those whose every
`fopen` opens cleanly. -/
theorem closes_once_iff (W : FileWorld ω)
    (hopen : ∀ filesystem disk path mode w, (W.fsOpen filesystem disk path mode w).1 ≠ 0)
    (hclose : ∀ filesystem ptr w, (W.fsClose filesystem ptr w).1 = 0) (w : ω)
    (ops : List FileOp) :
    ((run (closeStep W) (initialCloseRun w) ops).isSome ∧
        Throughout (closeStep W) Disciplined (initialCloseRun w) ops) ↔
      Meets (closeStep W) (ClosesCleanly W) (initialCloseRun w) ops := by
  refine isSome_and_throughout_iff_meets (I := CloseInv) (D := fun _ _ => True)
    (fun r hr => hr.toDisciplined)
    (fun r op hr _ hclean => closeStep_inv hopen hclose hr hclean)
    (fun r op r' hr _ hclean hstep => ?_) (initialCloseRun_inv w)
    (meets_of_forall (fun _ _ => trivial) _ ops)
  cases op with
  | fopen filename modeStr => exact closeStep_fopen_unclean hr hclean hstep
  | fclose fd => exact absurd trivial hclean
  | fread ptr size nmemb fd => exact absurd trivial hclean
  | fseek fd offset whence => exact absurd trivial hclean
  | fstat fd => exact absurd trivial hclean

/-- A file that is opened, read and closed. -/
theorem closes_once_oneFile :
    ((run (closeStep (oneFileWorld 28672)) (initialCloseRun ())
          [.fopen [0x66] [0x72], .fclose 1]).isSome ∧
        Throughout (closeStep (oneFileWorld 28672)) Disciplined (initialCloseRun ())
          [.fopen [0x66] [0x72], .fclose 1]) ↔
      Meets (closeStep (oneFileWorld 28672)) (ClosesCleanly (oneFileWorld 28672))
        (initialCloseRun ()) [.fopen [0x66] [0x72], .fclose 1] :=
  closes_once_iff (oneFileWorld 28672) (fun _ _ _ _ _ => by simp [oneFileWorld])
    (fun _ _ _ => rfl) () _

/-- `fopen` of a file that is not there: `open` returns `-EIO` and `fopen` closes it. -/
theorem fopen_closes_error_code :
    (fileStep (oneFileWorld 4294967295) (initialFileRun ()) (.fopen [0x66] [0x72])).map
        FileRun.calls = some [.fsOpen 20480 16384 [⟨8192, 12288, [0x66]⟩] .read 4294967295,
          .fsClose 20480 4294967295] ∧
      isErr 4294967295 = true ∧
      ¬ Throughout (closeStep (oneFileWorld 4294967295)) Disciplined (initialCloseRun ())
        [.fopen [0x66] [0x72]] := by
  refine ⟨by decide +kernel, by decide, fun h => ?_⟩
  have hunclean : ¬ OpensCleanly (oneFileWorld 4294967295) [0x66] [0x72] emptyFileTable () := by
    intro hclean
    have hreach : ReachesOpen (oneFileWorld 4294967295) [0x66] [0x72] () ⟨16384, 20480⟩
        [⟨8192, 12288, [0x66]⟩] () :=
      ⟨⟨_, rfl, rfl, rfl⟩, by decide, by decide, by decide⟩
    exact absurd (hclean _ _ _ hreach).1 (by decide)
  obtain ⟨r', hstep⟩ : ∃ r', closeStep (oneFileWorld 4294967295) (initialCloseRun ())
      (.fopen [0x66] [0x72]) = some r' := Option.isSome_iff_exists.mp (by decide +kernel)
  exact closeStep_fopen_unclean (initialCloseRun_inv ()) hunclean hstep (h.2 r' hstep)

end MarrowOS
