import MarrowOS.Fs.File
import MarrowOS.Memory.Machine

/-!
# The path parser (`pparser.c`)

A path is a drive digit, `:/` and the parts between the slashes. The parser allocates a
structure for the root and, for each part, a buffer for its name and a structure that links it
to the next one; the linked parts are a list. Its cursor `const char **path` is what is left of
the string.
-/

namespace MarrowOS

/-- `sizeof(struct path_root)` and `sizeof(struct path_part)`. -/
@[simp] abbrev sizeofPathRoot : ℕ := 8
@[simp] abbrev sizeofPathPart : ℕ := 8

/-! ## The drive -/

def pathparserPathValidFormat (filename : CString) : Bool :=
  let len := strnlen filename marrowosMaxPath
  3 ≤ len && isDigit (filename.headD 0) && memcmp (filename.drop 1) [0x3A, 0x2F] 2 = 0

/-- Returns the drive number, or an error, and the rest of the path. -/
def pathparserGetDriveByPath (path : CString) : ℤ × CString :=
  if !pathparserPathValidFormat path then (-ebadpath, path)
  else (tonumericdigit (path.headD 0), path.drop 3)

variable {σ : Type}

def pathparserCreateRoot (A : Allocator σ) (driveNumber : ℤ) (s : σ) : Option PathRoot × σ :=
  let (pathR, s) := A.kmalloc sizeofPathRoot s
  if pathR = 0 then (none, s) else (some ⟨pathR, driveNumber, []⟩, s)

/-! ## The parts -/

/-- The loop of `pathparser_get_path_part`: the bytes copied, and the rest of the path. -/
def pathparserCopyLoop : (path : CString) → CString × CString
  | [] => ([], [])
  | c :: path =>
    if c ≠ 0x2F ∧ c ≠ 0x00 then
      let (copied, path) := pathparserCopyLoop path
      (c :: copied, path)
    else ([], c :: path)

/-- Returns the buffer with the part, null when the part is empty or the allocation fails, and the
rest of the path. -/
def pathparserGetPathPart (A : Allocator σ) (path : CString) (s : σ) :
    Option (Addr × CString) × CString × σ :=
  let (resultPathPart, s) := A.kmalloc marrowosMaxPath s
  if resultPathPart = 0 then (none, path, s)
  else
    let (part, path) := pathparserCopyLoop path
    let path := if path.headD 0 = 0x2F then path.tail else path
    if part.length = 0 then (none, path, A.kfree resultPathPart s)
    else (some (resultPathPart, part), path, s)

/-- Returns the part, which the caller's list goes on with, and the rest of the path. -/
def pathparserParserPathPart (A : Allocator σ) (path : CString) (s : σ) :
    Option PathPart × CString × σ :=
  match pathparserGetPathPart A path s with
  | (none, path, s) => (none, path, s)
  | (some (pathPartStr, bytes), path, s) =>
    let (part, s) := A.kmalloc sizeofPathPart s
    if part = 0 then (none, path, A.kfree pathPartStr s)
    else (some ⟨part, pathPartStr, bytes⟩, path, s)

/-- The loop of `pathparser_free`. -/
def pathparserFreeLoop (A : Allocator σ) : (parts : List PathPart) → σ → σ
  | [], s => s
  | part :: parts, s => pathparserFreeLoop A parts (A.kfree part.addr (A.kfree part.partAddr s))

def pathparserFree (A : Allocator σ) (root : PathRoot) (s : σ) : σ :=
  A.kfree root.addr (pathparserFreeLoop A root.first s)

/-! ## Parsing -/

lemma pathparserCopyLoop_length (path : CString) :
    (pathparserCopyLoop path).1.length + (pathparserCopyLoop path).2.length = path.length := by
  induction path with
  | nil => rfl
  | cons c path ih =>
    rw [pathparserCopyLoop]
    by_cases hc : c ≠ 0x2F ∧ c ≠ 0x00
    · rw [if_pos hc, List.length_cons]
      show (pathparserCopyLoop path).1.length + 1 + (pathparserCopyLoop path).2.length =
        path.length + 1
      omega
    · rw [if_neg hc, List.length_nil, Nat.zero_add]

/-- A part that is found takes bytes of the path. -/
lemma pathparserGetPathPart_length (A : Allocator σ) {path path' : CString} {s s' : σ}
    {part : Addr × CString} (h : pathparserGetPathPart A path s = (some part, path', s')) :
    path'.length < path.length := by
  have hlength := pathparserCopyLoop_length path
  unfold pathparserGetPathPart at h
  simp only at h
  by_cases hptr : (A.kmalloc marrowosMaxPath s).1 = 0
  · rw [if_pos hptr] at h
    cases h
  rw [if_neg hptr] at h
  by_cases hempty : (pathparserCopyLoop path).1.length = 0
  · rw [if_pos hempty] at h
    cases h
  rw [if_neg hempty] at h
  have hrest := congrArg List.length (Prod.mk.inj (Prod.mk.inj h).2).1
  have htail := (pathparserCopyLoop path).2.length_tail
  by_cases hslash : (pathparserCopyLoop path).2.headD 0 = 0x2F
  · rw [if_pos hslash] at hrest
    omega
  · rw [if_neg hslash] at hrest
    omega

lemma pathparserParserPathPart_length (A : Allocator σ) {path path' : CString} {s s' : σ}
    {part : PathPart} (h : pathparserParserPathPart A path s = (some part, path', s')) :
    path'.length < path.length := by
  unfold pathparserParserPathPart at h
  rcases hget : pathparserGetPathPart A path s with ⟨_ | part', path₁, s₁⟩
  · rw [hget] at h
    cases h
  · rw [hget] at h
    simp only at h
    by_cases hptr : (A.kmalloc sizeofPathPart s₁).1 = 0
    · rw [if_pos hptr] at h
      cases h
    · rw [if_neg hptr] at h
      rw [← (Prod.mk.inj (Prod.mk.inj h).2).1]
      exact pathparserGetPathPart_length A hget

/-- The loop of `pathparser_parse`: the parts behind the first one. -/
def pathparserParseLoop (A : Allocator σ) (path : CString) (s : σ) : List PathPart × σ :=
  match _hpart : pathparserParserPathPart A path s with
  | (none, _, s) => ([], s)
  | (some part, path, s) =>
    let (parts, s) := pathparserParseLoop A path s
    (part :: parts, s)
termination_by path.length
decreasing_by exact pathparserParserPathPart_length A _hpart

/-- `current_directory_path` is not used. -/
def pathparserParse (A : Allocator σ) (path : CString) (s : σ) : Option PathRoot × σ :=
  if strlen path > marrowosMaxPath then (none, s)
  else
    let (res, tempPath) := pathparserGetDriveByPath path
    if res < 0 then (none, s)
    else
      match pathparserCreateRoot A res s with
      | (none, s) => (none, s)
      | (some pathRoot, s) =>
        match pathparserParserPathPart A tempPath s with
        | (none, _, s) => (none, A.kfree pathRoot.addr s)
        | (some firstPart, tempPath, s) =>
          let (parts, s) := pathparserParseLoop A tempPath s
          (some { pathRoot with first := firstPart :: parts }, s)

/-- A part's slash is left out, and a slash at the end adds no part. -/
example : (pathparserParse ⟨fun _ s => (4096, s), fun _ s => s⟩
    [0x30, 0x3A, 0x2F, 0x61, 0x62, 0x2F, 0x63, 0x2F] ()).1 =
    some ⟨4096, 0, [⟨4096, 4096, [0x61, 0x62]⟩, ⟨4096, 4096, [0x63]⟩]⟩ := by
  decide +kernel

end MarrowOS
