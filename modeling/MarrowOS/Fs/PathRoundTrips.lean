import MarrowOS.Fs.PathParts
import MarrowOS.Memory.SingleBlocks

/-!
# Parsing a path that was built

`renderPath` builds a path from a drive and its parts, and parsing gets them back
(`pathparserParse_renderPath`). The other way round the parser stops at the first empty part, so a
path with two slashes in a row is taken for the one in front of them
(`pathparserParse_renders_iff`).
-/

namespace MarrowOS

variable {σ : Type} {A : Allocator σ} {refuse : ℕ → Bool} {path path' trailing : CString}
  {parts : List CString} {k k' : KernelHeap} {heap : Heap} {ptrs : List ℕ}

/-- `d:/p1/p2/.../pn`. -/
def renderPath (driveNo : ℤ) (parts : List CString) : CString :=
  UInt8.ofNat (driveNo + 48).toNat :: 0x3A :: 0x2F :: List.intercalate [0x2F] parts

/-- A slash at the end is optional. -/
def IsTrailing (trailing : CString) : Prop := trailing = [] ∨ trailing = [0x2F]

/-! ## The parts of a path that was built -/

/-- The parts of what was built are those it was built from. -/
lemma pathParts_intercalate (hparts : ∀ p ∈ parts, IsPart p) (hne : parts ≠ [])
    (htrailing : IsTrailing trailing) :
    pathParts (List.intercalate [0x2F] parts ++ trailing) = parts := by
  have hnil : pathParts [] = [] := pathParts_empty rfl
  induction parts with
  | nil => exact absurd rfl hne
  | cons part parts ih =>
    have hpart := hparts part List.mem_cons_self
    by_cases hlast : parts = []
    · have hrest : trailing.headD 0 = 0x2F ∨ trailing.headD 0 = 0 := by
        rcases htrailing with h | h
        · exact Or.inr (by rw [h]; rfl)
        · exact Or.inl (by rw [h]; rfl)
      have hskip : skipSlash trailing = [] := by
        rcases htrailing with h | h
        · rw [h]; rfl
        · rw [h]; rfl
      have hcopy := pathparserCopyLoop_part hpart.slash hpart.nul hrest
      rw [hlast, List.intercalate_singleton, pathParts_cons (by rw [hcopy]; exact hpart.ne_nil),
        hcopy, hskip, hnil]
    · have hcopy := @pathparserCopyLoop_part part
        (0x2F :: (List.intercalate [0x2F] parts ++ trailing)) hpart.slash hpart.nul (Or.inl rfl)
      have hsplit : List.intercalate [0x2F] (part :: parts) ++ trailing =
          part ++ 0x2F :: (List.intercalate [0x2F] parts ++ trailing) := by
        rw [List.intercalate_cons_of_ne_nil hlast, List.append_assoc, List.append_assoc]
        rfl
      have hskip : skipSlash (0x2F :: (List.intercalate [0x2F] parts ++ trailing)) =
          List.intercalate [0x2F] parts ++ trailing := rfl
      rw [hsplit, pathParts_cons (by rw [hcopy]; exact hpart.ne_nil), hcopy, hskip,
        ih (fun p hp => hparts p (List.mem_cons_of_mem _ hp)) hlast]

/-! ## The checks -/

lemma strlen_le_length (path : CString) : strlen path ≤ path.length := by
  induction path with
  | nil => exact le_rfl
  | cons c path ih =>
    rw [strlen, List.length_cons]
    split
    · exact Nat.succ_le_succ ih
    · exact Nat.zero_le _

/-- The digit a drive is written with. -/
lemma drive_digit {d : ℕ} (hd : d < 10) :
    isDigit (UInt8.ofNat ((d : ℤ) + 48).toNat) = true ∧
      tonumericdigit (UInt8.ofNat ((d : ℤ) + 48).toNat) = d := by
  have hall : ∀ d : ℕ, d < 10 → isDigit (UInt8.ofNat ((d : ℤ) + 48).toNat) = true ∧
      tonumericdigit (UInt8.ofNat ((d : ℤ) + 48).toNat) = d := by decide
  exact hall d hd

/-- A digit is the one its drive is written with. -/
lemma digit_drive {c : UInt8} (hc : isDigit c = true) :
    UInt8.ofNat (tonumericdigit c + 48).toNat = c := by
  have hall : ∀ n < 256, isDigit (UInt8.ofNat n) = true →
      UInt8.ofNat (tonumericdigit (UInt8.ofNat n) + 48).toNat = UInt8.ofNat n := by decide +kernel
  have hofNat : UInt8.ofNat c.toNat = c := UInt8.ofNat_toNat
  have hcase := hall c.toNat c.toNat_lt
  rw [hofNat] at hcase
  exact hcase hc

lemma isDigit_ne_zero {c : UInt8} (hc : isDigit c = true) : c ≠ 0 := by
  intro h0
  rw [h0] at hc
  exact absurd hc (by decide)

lemma memcmp_succ_eq_zero {s1 s2 : List UInt8} {n : ℕ} :
    memcmp s1 s2 (n + 1) = 0 ↔ s1.headD 0 = s2.headD 0 ∧ memcmp s1.tail s2.tail n = 0 := by
  rw [memcmp]
  by_cases heq : s1.headD 0 = s2.headD 0
  · rw [heq, if_neg (not_not.mpr rfl)]
    exact (and_iff_right rfl).symm
  · have hne : (s1.headD 0).toInt8 ≠ (s2.headD 0).toInt8 := fun h => heq (by
      rw [← UInt8.toUInt8_toInt8 (s1.headD 0), h, UInt8.toUInt8_toInt8])
    rw [if_pos hne]
    refine iff_of_false ?_ fun h => heq h.1
    split <;> decide

lemma eq_cons_of_headD {c : UInt8} (hc : path.headD 0 = c) (hne : c ≠ 0) :
    path = c :: path.tail := by
  cases path with
  | nil => exact absurd hc.symm hne
  | cons b path => rw [← hc]; rfl

/-- What the format check accepts. -/
lemma pathparserPathValidFormat_iff : pathparserPathValidFormat path = true ↔
    ∃ c, isDigit c = true ∧ path = c :: 0x3A :: 0x2F :: path.drop 3 := by
  unfold pathparserPathValidFormat
  rw [Bool.and_eq_true_iff, Bool.and_eq_true_iff, decide_eq_true_iff, decide_eq_true_iff,
    memcmp_succ_eq_zero, memcmp_succ_eq_zero]
  constructor
  · rintro ⟨⟨-, hc⟩, hcolon, hslash, -⟩
    have hpath := eq_cons_of_headD rfl (isDigit_ne_zero hc)
    have hrest : path.drop 1 = 0x3A :: (path.drop 1).tail :=
      eq_cons_of_headD hcolon (by decide)
    have hrest' : (path.drop 1).tail = 0x2F :: (path.drop 1).tail.tail :=
      eq_cons_of_headD hslash (by decide)
    have hdrop : path.drop 3 = (path.drop 1).tail.tail := by
      rw [List.tail_drop, List.tail_drop]
    refine ⟨path.headD 0, hc, ?_⟩
    rw [hdrop, ← hrest', ← hrest]
    exact hpath.trans (by rw [List.drop_one])
  · rintro ⟨c, hc, hpath⟩
    rw [hpath]
    refine ⟨⟨?_, hc⟩, rfl, rfl, rfl⟩
    have hlen : ∀ n, strnlen (c :: 0x3A :: 0x2F :: path.drop 3) (n + 3) =
        strnlen (path.drop 3) n + 3 := by
      intro n
      rw [strnlen, List.headD_cons, if_neg (isDigit_ne_zero hc)]
      rfl
    rw [show marrowosMaxPath = 105 + 3 from rfl, hlen]
    exact Nat.le_add_left ..

/-! ## The blocks of a parse -/

variable {part : Option PathPart} {found : List PathPart} {root : PathRoot}

/-- Looking for a part while enough blocks are free. -/
lemma PartOutcome.takenSingly (hout : PartOutcome kernelAllocator path k part path' k')
    (htidy : TidyHeap heap) (h : TakenSingly heap k.heap ptrs)
    (hfree : 2 * (pathParts path).length ≤ freeBlocks k.heap) :
    (part = none ∧ pathParts path = [] ∧ TakenSingly heap k'.heap ptrs) ∨
    ∃ p, part = some p ∧ pathParts path = p.part :: pathParts path' ∧
      2 * (pathParts path').length ≤ freeBlocks k'.heap ∧
      TakenSingly heap k'.heap (p.addresses ++ ptrs) := by
  cases hout with
  | noBuffer hbuf =>
    left
    rcases h.kmalloc htidy (by decide) (by decide) hbuf with ⟨-, hfull, hsame⟩ | ⟨hne, -⟩
    · -- no block was free, so no part can be left
      rw [hsame]
      exact ⟨rfl, List.eq_nil_of_length_eq_zero (by omega), h⟩
    · exact absurd rfl hne
  | empty hbuf hne hempty =>
    left
    rcases h.kmalloc htidy (by decide) (by decide) hbuf with ⟨h0, -⟩ | ⟨-, -, hbuf⟩
    · exact absurd h0 hne
    · exact ⟨rfl, pathParts_empty hempty, hbuf.heapFree_head htidy⟩
  | noStructure hbuf hne hpart hptr =>
    -- the structure is a second block
    rw [pathParts_cons hpart, List.length_cons] at hfree
    rcases h.kmalloc htidy (by decide) (by decide) hbuf with ⟨h0, -⟩ | ⟨-, hcount, hbuf⟩
    · exact absurd h0 hne
    · rcases hbuf.kmalloc htidy (by decide) (by decide) hptr with ⟨-, hfull, -⟩ | ⟨hne', -⟩
      · omega
      · exact absurd rfl hne'
  | found hbuf hne hpart hptr hne' =>
    -- the buffer and the structure, in this order
    right
    rw [pathParts_cons hpart, List.length_cons] at hfree
    rw [pathParts_cons hpart]
    rcases h.kmalloc htidy (by decide) (by decide) hbuf with ⟨h0, -⟩ | ⟨-, hcount, hbuf⟩
    · exact absurd h0 hne
    · rcases hbuf.kmalloc htidy (by decide) (by decide) hptr with ⟨h0, -⟩ | ⟨-, hcount', hptr⟩
      · exact absurd h0 hne'
      · exact ⟨_, rfl, rfl, by omega, hptr.perm (List.Perm.swap ..)⟩

/-- The loop finds every part while enough blocks are free. -/
lemma pathparserParseLoop_takenSingly (htidy : TidyHeap heap) (h : TakenSingly heap k.heap ptrs)
    (hfree : 2 * (pathParts path).length ≤ freeBlocks k.heap)
    (hrun : pathparserParseLoop kernelAllocator path k = (found, k')) :
    found.map (·.part) = pathParts path ∧
      TakenSingly heap k'.heap (found.flatMap PathPart.addresses ++ ptrs) := by
  induction hn : path.length using Nat.strong_induction_on generalizing path k k' found ptrs with
  | _ n ih =>
    subst hn
    rw [pathparserParseLoop] at hrun
    split at hrun
    · rename_i path₁ k₁ hpart
      rw [← (Prod.mk.inj hrun).1, ← (Prod.mk.inj hrun).2]
      rcases (pathparserParserPathPart_outcome hpart).takenSingly htidy h hfree with
        ⟨-, hnil, htaken⟩ | ⟨p, hp, -⟩
      · rw [hnil]
        exact ⟨rfl, htaken⟩
      · exact absurd hp.symm (Option.some_ne_none p)
    · rename_i part path₁ k₁ hpart
      cases hloop : pathparserParseLoop kernelAllocator path₁ k₁ with
      | mk rest k₂ =>
      simp only [hloop] at hrun
      rw [← (Prod.mk.inj hrun).1, ← (Prod.mk.inj hrun).2, List.map_cons]
      have hshorter := pathparserParserPathPart_length _ hpart
      rcases (pathparserParserPathPart_outcome hpart).takenSingly htidy h hfree with
        ⟨hp, -⟩ | ⟨p, hp, hparts, hfree', htaken⟩
      · exact absurd hp (Option.some_ne_none part)
      · rcases ih path₁.length hshorter htaken hfree' hloop rfl with ⟨hrest, htaken'⟩
        rw [Option.some.inj hp, hparts, hrest, List.flatMap_cons, List.append_assoc]
        refine ⟨rfl, htaken'.perm ?_⟩
        rw [← List.append_assoc, ← List.append_assoc]
        exact List.Perm.append_right ptrs List.perm_append_comm

/-- `pathparser_free` frees the pointers of the path. -/
lemma pathparserFree_eq (root : PathRoot) (k : KernelHeap) :
    pathparserFree kernelAllocator root k =
      (root.first.flatMap PathPart.addresses ++ [root.addr]).foldl
        (fun k p => kernelAllocator.kfree p k) k := by
  have hloop : ∀ (parts : List PathPart) (k : KernelHeap),
      pathparserFreeLoop kernelAllocator parts k =
        (parts.flatMap PathPart.addresses).foldl (fun k p => kernelAllocator.kfree p k) k := by
    intro parts
    induction parts with
    | nil => exact fun _ => rfl
    | cons part parts ih => exact fun k => ih _
  rw [List.foldl_append, ← hloop]
  rfl

/-- **Round trip.** A path that is built from a drive and its parts is parsed into them, when there
are blocks for the root and for two allocations for each part, and freeing the result gives the
block table back. -/
theorem pathparserParse_renderPath {d : ℕ} (h : TidyHeap k.heap) (hd : d < 10)
    (hne : parts ≠ []) (hparts : ∀ p ∈ parts, IsPart p) (htrailing : IsTrailing trailing)
    (hlength : (renderPath d parts ++ trailing).length ≤ marrowosMaxPath)
    (hfree : 2 * parts.length + 1 ≤ freeBlocks k.heap) :
    ∃ root k', pathparserParse kernelAllocator (renderPath d parts ++ trailing) k =
        (some root, k') ∧
      root.driveNo = d ∧ root.first.map (·.part) = parts ∧
      SameTable k.heap (pathparserFree kernelAllocator root k').heap := by
  have hsplit := pathParts_intercalate hparts hne htrailing
  rcases drive_digit hd with ⟨hdigit, hdrive⟩
  have haccepted : PathAccepted (renderPath d parts ++ trailing) :=
    ⟨(strlen_le_length _).trans hlength, pathparserPathValidFormat_iff.mpr ⟨_, hdigit, rfl⟩⟩
  cases hrun : pathparserParse kernelAllocator (renderPath d parts ++ trailing) k with
  | mk res k' =>
  have hout := pathparserParse_outcome hrun
  cases hout with
  | rejected hno => exact absurd haccepted hno
  -- three of the ways out are closed by the free blocks
  | noRoot _ hroot =>
    rcases (TakenSingly.refl k.heap).kmalloc h (by decide) (by decide) hroot with
      ⟨-, hfull, -⟩ | ⟨hne', -⟩
    · omega
    · exact absurd rfl hne'
  | noFirstPart _ hroot hptr hfirst =>
    rcases (TakenSingly.refl k.heap).kmalloc h (by decide) (by decide) hroot with
      ⟨h0, -⟩ | ⟨-, hcount, htaken⟩
    · exact absurd h0 hptr
    · have hfree' : 2 * parts.length ≤ _ := Nat.le_of_succ_le_succ (hfree.trans hcount.ge)
      rw [← hsplit] at hfree'
      rcases hfirst.takenSingly h htaken hfree' with ⟨-, hnil, -⟩ | ⟨p, hp, -⟩
      · exact absurd (hsplit.symm.trans hnil) hne
      · exact absurd hp.symm (Option.some_ne_none p)
  | parsed _ hroot hptr hfirst hloop =>
    rcases (TakenSingly.refl k.heap).kmalloc h (by decide) (by decide) hroot with
      ⟨h0, -⟩ | ⟨-, hcount, htaken⟩
    · exact absurd h0 hptr
    have hfree' : 2 * parts.length ≤ _ := Nat.le_of_succ_le_succ (hfree.trans hcount.ge)
    rw [← hsplit] at hfree'
    rcases hfirst.takenSingly h htaken hfree' with ⟨hp, -⟩ | ⟨p, hp, hhead, hfree'', htaken'⟩
    · exact absurd hp (Option.some_ne_none _)
    rcases pathparserParseLoop_takenSingly h htaken' hfree'' hloop with ⟨hrest, htaken''⟩
    refine ⟨_, _, rfl, hdrive, ?_, ?_⟩
    · rw [List.map_cons, hrest, Option.some.inj hp, ← hhead]
      exact hsplit
    · -- every part is freed, so the table is the one before the parse
      rw [pathparserFree_eq]
      apply TakenSingly.sameTable
      apply TakenSingly.kfreeAll h
      rw [Option.some.inj hp, List.append_nil, List.flatMap_cons, List.append_assoc]
      exact htaken''.perm (List.perm_append_comm_assoc ..)

/-- `0:/a/b` with a slash at the end, on the kernel heap after boot. -/
theorem pathparserParse_renderPath_boot :
    ∃ root k', pathparserParse kernelAllocator (renderPath (0 : ℕ) [[0x61], [0x62]] ++ [0x2F])
        bootMachine.heap = (some root, k') ∧
      root.driveNo = (0 : ℕ) ∧ root.first.map (·.part) = [[0x61], [0x62]] ∧
      SameTable bootMachine.heap.heap (pathparserFree kernelAllocator root k').heap := by
  have htotal : 2 * 2 + 1 ≤ freeBlocks bootMachine.heap.heap := by
    rw [bootMachine_owns.freeBlocks_nil]
    decide +kernel
  have hparts : ∀ p ∈ ([[0x61], [0x62]] : List CString), IsPart p := by
    intro p hp
    rcases List.mem_pair.mp hp with rfl | rfl
    · exact ⟨by decide, by decide, by decide⟩
    · exact ⟨by decide, by decide, by decide⟩
  exact pathparserParse_renderPath bootMachine_owns.tidy (by decide) (by decide) hparts
    (Or.inr rfl) (by decide) htotal

/-! ## The other way round -/

variable {s : σ} {t t' : σ × Noted} {res : Option PathRoot}

/-- The path is the one its root stands for, up to a slash at the end. -/
def Renders (root : PathRoot) (path : CString) : Prop :=
  ∃ trailing, IsTrailing trailing ∧
    path = renderPath root.driveNo (root.first.map (·.part)) ++ trailing

/-- The parser gets past its checks, and the first part is not empty. -/
def NamesPart (path : CString) : Prop :=
  PathAccepted path ∧ (pathparserCopyLoop (path.drop 3)).1 ≠ []

/-- Two slashes in a row. -/
def HasDoubleSlash (path : CString) : Prop := [0x2F, 0x2F] <:+: path

/-- **What a parse finds**, with the requests noted: the drive and all the parts up to an empty one,
or those in front of the refused request. -/
theorem ParseOutcome.noted {root : PathRoot}
    (hout : ParseOutcome (noting A refuse) path (s, noRequests) (some root) t') :
    NamesPart path ∧ root.driveNo = tonumericdigit (path.headD 0) ∧
    ((t'.2.refused = none ∧ root.first.map (·.part) = pathParts (path.drop 3)) ∨
      ∃ i, t'.2.refused = some i ∧ 3 ≤ i ∧
        root.first.map (·.part) = (pathParts (path.drop 3)).take ((i - 1) / 2)) := by
  cases hout with
  | parsed haccepted hroot hne hfirst hloop =>
    have hnoted := noting_noted hroot
    rw [if_neg hne] at hnoted
    rcases hfirst.noted (congrArg Noted.refused hnoted) with
      ⟨hp, -⟩ | ⟨hp, -⟩ | ⟨hp, -⟩ | ⟨p, hp, hnoted', hparts⟩
    · exact absurd hp (Option.some_ne_none _)
    · exact absurd hp (Option.some_ne_none _)
    · exact absurd hp (Option.some_ne_none _)
    have hnonempty : (pathparserCopyLoop (path.drop 3)).1 ≠ [] := by
      intro hempty
      rw [pathParts_empty hempty] at hparts
      exact absurd hparts (List.cons_ne_nil _ _).symm
    refine ⟨⟨haccepted, hnonempty⟩, rfl, ?_⟩
    rw [List.map_cons, hparts, Option.some.inj hp]
    rcases pathparserParseLoop_noted (congrArg Noted.refused hnoted') hloop with
      ⟨hnone, hrest⟩ | ⟨i, hi, hle, hrest⟩
    · exact Or.inl ⟨hnone, congrArg _ hrest⟩
    · -- the root and the first part took three requests
      right
      rw [hnoted', hnoted] at hle hrest
      simp only [noRequests, Nat.zero_add] at hle hrest
      have hhalf : (i - 1) / 2 = (i - (1 + 2)) / 2 + 1 := by omega
      refine ⟨i, hi, hle, ?_⟩
      rw [hrest, hhalf, List.take_succ_cons]

/-! ### Slashes in a row -/

/-- What is left behind a part, of a string without a NUL. -/
lemma pathparserCopyLoop_rest (hnul : 0 ∉ path) :
    (pathparserCopyLoop path).2 = [] ∨
      ∃ rest, (pathparserCopyLoop path).2 = 0x2F :: rest ∧ 0 ∉ rest := by
  have happend := pathparserCopyLoop_append path
  have hnul' : 0 ∉ (pathparserCopyLoop path).2 := by
    intro hmem
    rw [← happend] at hnul
    exact hnul (List.mem_append_right _ hmem)
  cases hrest : (pathparserCopyLoop path).2 with
  | nil => exact Or.inl rfl
  | cons c rest =>
    right
    have hhead := pathparserCopyLoop_headD path
    rw [hrest] at hhead hnul'
    rw [List.mem_cons, not_or] at hnul'
    have hslash : c = 0x2F := hhead.resolve_right (Ne.symm hnul'.1)
    rw [hslash]
    exact ⟨rest, rfl, hnul'.2⟩

/-- The first slash of a string, and the string behind it. -/
lemma hasDoubleSlash_append {part rest : CString} (hslash : 0x2F ∉ part) :
    HasDoubleSlash (part ++ 0x2F :: rest) ↔ rest.headD 0 = 0x2F ∨ HasDoubleSlash rest := by
  unfold HasDoubleSlash
  induction part with
  | nil =>
    rw [List.nil_append, List.infix_cons_iff, List.cons_prefix_cons]
    apply or_congr_left
    cases rest with
    | nil => exact iff_of_false (fun h => by simp at h) (by decide)
    | cons c rest =>
      rw [List.cons_prefix_cons, List.headD_cons]
      exact ⟨fun h => h.2.1.symm, fun h => ⟨rfl, h.symm, List.nil_prefix⟩⟩
  | cons c part ih =>
    rw [List.mem_cons, not_or] at hslash
    rw [List.cons_append, List.infix_cons_iff, ih hslash.2, or_iff_right]
    intro hprefix
    exact hslash.1 (List.cons_prefix_cons.mp hprefix).1

lemma not_hasDoubleSlash_of_not_mem (hslash : 0x2F ∉ path) : ¬ HasDoubleSlash path := by
  intro h
  exact hslash (h.subset List.mem_cons_self)

/-- A string that starts with a part is what its parts make, up to a slash at the end, when it has
no two slashes in a row. -/
lemma intercalate_pathParts_iff (hnul : 0 ∉ path) (hfirst : (pathparserCopyLoop path).1 ≠ []) :
    (∃ trailing, IsTrailing trailing ∧
      path = List.intercalate [0x2F] (pathParts path) ++ trailing) ↔ ¬ HasDoubleSlash path := by
  -- on the length of the path, one part and its slash at a time
  induction hn : path.length using Nat.strong_induction_on generalizing path with
  | _ n ih =>
    subst hn
    have happend := pathparserCopyLoop_append path
    have hslash := not_mem_pathparserCopyLoop (Or.inl rfl) path
    rw [pathParts_cons hfirst]
    generalize (pathparserCopyLoop path).1 = part at happend hfirst hslash ⊢
    rcases pathparserCopyLoop_rest hnul with hrest | ⟨rest, hrest, hnul'⟩
    · -- the last part
      rw [hrest] at happend ⊢
      rw [show skipSlash [] = [] from rfl, pathParts_empty rfl, List.intercalate_singleton]
      rw [List.append_nil] at happend
      refine iff_of_true ⟨[], Or.inl rfl, by rw [List.append_nil, happend]⟩ ?_
      rw [← happend]
      exact not_hasDoubleSlash_of_not_mem hslash
    rw [hrest] at happend ⊢
    rw [show skipSlash (0x2F :: rest) = rest from rfl, ← happend, hasDoubleSlash_append hslash,
      not_or]
    by_cases hempty : (pathparserCopyLoop rest).1 = []
    · -- a slash at the end, or a second one
      have happend' := pathparserCopyLoop_append rest
      rw [pathParts_empty hempty, List.intercalate_singleton]
      rw [hempty, List.nil_append] at happend'
      rcases pathparserCopyLoop_rest hnul' with hnil | ⟨rest', hnext, -⟩
      · rw [hnil] at happend'
        rw [← happend']
        -- the slash at the end
        refine iff_of_true ⟨[0x2F], Or.inr rfl, rfl⟩ ⟨by decide, ?_⟩
        exact not_hasDoubleSlash_of_not_mem List.not_mem_nil
      · rw [hnext] at happend'
        rw [← happend']
        -- the second slash
        refine iff_of_false ?_ fun h => absurd rfl h.1
        rintro ⟨trailing, htrailing, heq⟩
        have htail := List.append_cancel_left heq
        rcases htrailing with h | h
        · rw [h] at htail
          cases htail
        · rw [h] at htail
          cases htail
    · -- a slash between two parts
      have hshorter : rest.length < path.length := by
        rw [← happend, List.length_append, List.length_cons]
        omega
      have hhead : rest.headD 0 ≠ 0x2F := by
        intro hhead
        apply hempty
        rw [eq_cons_of_headD hhead (by decide), pathparserCopyLoop, if_neg (by decide)]
      have hparts : pathParts rest ≠ [] := by
        rw [pathParts_cons hempty]
        exact List.cons_ne_nil _ _
      rw [and_iff_right hhead, ← ih rest.length hshorter hnul' hempty rfl,
        List.intercalate_cons_of_ne_nil hparts]
      apply exists_congr
      intro trailing
      apply and_congr_right
      intro _
      rw [List.append_assoc, List.append_assoc]
      constructor
      · intro heq
        exact (List.cons.inj (List.append_cancel_left heq)).2
      · intro heq
        rw [List.append_cancel_left_eq]
        exact congrArg _ heq

/-- A parse that fails: the path names no part, or one of the requests for the root and the first
part was refused. -/
theorem ParseOutcome.noted_none
    (hout : ParseOutcome (noting A refuse) path (s, noRequests) none t') :
    (t'.2.refused = none ∧ ¬ NamesPart path) ∨ ∃ i, t'.2.refused = some i ∧ i < 3 := by
  generalize hres : (none : Option PathRoot) = res at hout
  cases hout with
  | rejected hno => exact Or.inl ⟨rfl, fun hnames => hno hnames.1⟩
  | noRoot _ hroot =>
    right
    refine ⟨0, ?_, by decide⟩
    rw [noting_noted hroot, if_pos rfl]
    rfl
  | noFirstPart _ hroot hne hfirst =>
    have hnoted := noting_noted hroot
    rw [if_neg hne] at hnoted
    have hrequests : _ = 1 := congrArg Noted.requests hnoted
    rw [noting_kfree]
    rcases hfirst.noted (congrArg Noted.refused hnoted) with
      ⟨-, hrefused⟩ | ⟨-, hnone, hparts⟩ | ⟨-, hrefused⟩ | ⟨p, hp, -⟩
    · rw [hrequests] at hrefused
      exact Or.inr ⟨1, hrefused, by decide⟩
    · refine Or.inl ⟨hnone, fun hnames => ?_⟩
      rw [pathParts_cons hnames.2] at hparts
      exact absurd hparts (List.cons_ne_nil _ _)
    · rw [hrequests] at hrefused
      exact Or.inr ⟨2, hrefused, by decide⟩
    · exact absurd hp.symm (Option.some_ne_none p)
  | parsed => exact absurd hres.symm (Option.some_ne_none _)

/-- The root stands for the path when the string behind `d:/` is what its parts make. -/
lemma renders_iff {root : PathRoot} (hnul : 0 ∉ path) (hnames : NamesPart path)
    (hdrive : root.driveNo = tonumericdigit (path.headD 0))
    (hparts : root.first.map (·.part) = pathParts (path.drop 3)) :
    Renders root path ↔ ¬ HasDoubleSlash path := by
  rcases pathparserPathValidFormat_iff.mp hnames.1.2 with ⟨c, hc, hpath⟩
  have hnul' : 0 ∉ path.drop 3 := fun hmem => hnul (List.mem_of_mem_drop hmem)
  have hhead : (path.drop 3).headD 0 ≠ 0x2F := by
    intro hhead
    apply hnames.2
    rw [eq_cons_of_headD hhead (by decide), pathparserCopyLoop, if_neg (by decide)]
  have hcslash : 0x2F ∉ [c, 0x3A] := by
    intro hmem
    rcases List.mem_pair.mp hmem with heq | heq
    · rw [← heq] at hc
      exact absurd hc (by decide)
    · exact absurd heq (by decide)
  have hdouble : HasDoubleSlash path ↔ HasDoubleSlash (path.drop 3) := by
    rw [hpath]
    exact (hasDoubleSlash_append hcslash).trans (or_iff_right hhead)
  have hdigit : UInt8.ofNat (root.driveNo + 48).toNat = c := by
    rw [hdrive, hpath]
    exact digit_drive hc
  rw [hdouble, ← intercalate_pathParts_iff hnul' hnames.2, Renders, renderPath, hparts, hdigit]
  apply exists_congr
  intro trailing
  apply and_congr_right
  intro _
  constructor
  · intro heq
    exact (List.cons.inj (List.cons.inj (List.cons.inj (hpath.symm.trans heq)).2).2).2
  · intro heq
    exact hpath.trans (congrArg (fun rest => c :: 0x3A :: 0x2F :: rest) heq)

/-- **Nothing is dropped** from a path that is accepted, with no request refused, when no two of its
slashes stand in a row. -/
theorem pathparserParse_renders_iff (hnul : 0 ∉ path)
    (hrun : pathparserParse (noting A refuse) path (s, noRequests) = (res, t'))
    (hgranted : t'.2.refused = none) :
    (∀ root, res = some root → Renders root path) ↔ ¬ (NamesPart path ∧ HasDoubleSlash path) := by
  have hout := pathparserParse_outcome hrun
  cases res with
  | none =>
    rcases hout.noted_none with ⟨-, hno⟩ | ⟨i, hi, -⟩
    · exact iff_of_true (fun root hroot => absurd hroot.symm (Option.some_ne_none root))
        fun h => hno h.1
    · exact absurd (hi.symm.trans hgranted) (Option.some_ne_none i)
  | some root =>
    rcases hout.noted with ⟨hnames, hdrive, ⟨-, hparts⟩ | ⟨i, hi, -⟩⟩
    · rw [and_iff_right hnames, ← renders_iff hnul hnames hdrive hparts]
      constructor
      · exact fun h => h root rfl
      · intro h root' heq
        rw [← Option.some.inj heq]
        exact h
    · exact absurd (hi.symm.trans hgranted) (Option.some_ne_none i)

/-- An allocator that answers every request with one pointer. -/
def onePointer : Allocator Unit := ⟨fun _ s => (4096, s), fun _ s => s⟩

/-- `0:/a` is parsed into what it stands for. -/
theorem pathparserParse_renders_a : (pathparserParse (noting onePointer fun _ => false)
    [0x30, 0x3A, 0x2F, 0x61] ((), noRequests)).1 = some ⟨4096, 0, [⟨4096, 4096, [0x61]⟩]⟩ ∧
    Renders ⟨4096, 0, [⟨4096, 4096, [0x61]⟩]⟩ [0x30, 0x3A, 0x2F, 0x61] := by
  have hres : (pathparserParse (noting onePointer fun _ => false)
      [0x30, 0x3A, 0x2F, 0x61] ((), noRequests)).1 = some ⟨4096, 0, [⟨4096, 4096, [0x61]⟩]⟩ := by
    decide +kernel
  refine ⟨hres, (pathparserParse_renders_iff (by decide) (Prod.eta _).symm
    (by decide +kernel)).mpr ?_ _ hres⟩
  rintro ⟨-, hdouble⟩
  exact absurd hdouble (by unfold HasDoubleSlash; decide)

/-- `0:/a//b` is parsed into `0:/a`. -/
theorem pathparserParse_drops : ¬ ∀ (σ : Type) (A : Allocator σ) (s : σ) (path : CString),
    0 ∉ path →
    (pathparserParse (noting A fun _ => false) path (s, noRequests)).2.2.refused = none →
    ∀ root, (pathparserParse (noting A fun _ => false) path (s, noRequests)).1 = some root →
      Renders root path := by
  intro h
  have hrenders := h Unit onePointer () [0x30, 0x3A, 0x2F, 0x61, 0x2F, 0x2F, 0x62] (by decide)
    (by decide +kernel) ⟨4096, 0, [⟨4096, 4096, [0x61]⟩]⟩ (by decide +kernel)
  rcases hrenders with ⟨trailing, htrailing, heq⟩
  rcases htrailing with h | h
  · rw [h] at heq
    exact absurd heq (by decide)
  · rw [h] at heq
    exact absurd heq (by decide)

end MarrowOS
