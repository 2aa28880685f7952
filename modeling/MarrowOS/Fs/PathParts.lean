import MarrowOS.Fs.PathParser
import MarrowOS.Memory.RefusingAllocator

/-!
# What the path parser finds

`pathParts` is the list of parts a string goes on with, as far as the parser looks: up to the first
part that is empty. `PartOutcome` and `ParseOutcome` say once how a step and a whole parse can end,
over any allocator; with the requests noted, the parser finds all of `pathParts`, or those it got
to before a request was refused (`pathparserParseLoop_noted`).
-/

namespace MarrowOS

variable {σ : Type} {A : Allocator σ} {refuse : ℕ → Bool} {s s' : σ} {path path' : CString}
  {part : Option PathPart}

/-! ## Splitting -/

/-- The slash behind a part is left out. -/
def skipSlash (path : CString) : CString := if path.headD 0 = 0x2F then path.tail else path

/-- The bytes of a part. -/
structure IsPart (part : CString) : Prop where
  ne_nil : part ≠ []
  slash : 0x2F ∉ part
  nul : 0 ∉ part

/-- The loop cuts the path at the first slash or NUL. -/
lemma pathparserCopyLoop_append (path : CString) :
    (pathparserCopyLoop path).1 ++ (pathparserCopyLoop path).2 = path := by
  induction path with
  | nil => rfl
  | cons c path ih =>
    rw [pathparserCopyLoop]
    by_cases hc : c ≠ 0x2F ∧ c ≠ 0x00
    · rw [if_pos hc]
      exact congrArg (c :: ·) ih
    · rw [if_neg hc]
      rfl

lemma not_mem_pathparserCopyLoop {c : UInt8} (hc : c = 0x2F ∨ c = 0) (path : CString) :
    c ∉ (pathparserCopyLoop path).1 := by
  induction path with
  | nil => exact List.not_mem_nil
  | cons b path ih =>
    rw [pathparserCopyLoop]
    by_cases hb : b ≠ 0x2F ∧ b ≠ 0x00
    · rw [if_pos hb]
      intro hmem
      rcases List.mem_cons.mp hmem with heq | hmem
      · rw [← heq] at hb
        exact hc.elim hb.1 hb.2
      · exact ih hmem
    · rw [if_neg hb]
      exact List.not_mem_nil

lemma pathparserCopyLoop_headD (path : CString) :
    (pathparserCopyLoop path).2.headD 0 = 0x2F ∨ (pathparserCopyLoop path).2.headD 0 = 0 := by
  induction path with
  | nil => exact Or.inr rfl
  | cons c path ih =>
    rw [pathparserCopyLoop]
    by_cases hc : c ≠ 0x2F ∧ c ≠ 0x00
    · rw [if_pos hc]
      exact ih
    · rw [if_neg hc]
      show c = 0x2F ∨ c = 0
      by_contra hno
      exact hc (not_or.mp hno)

/-- A part that the loop gets to the end of. -/
lemma pathparserCopyLoop_part {part rest : CString} (hslash : 0x2F ∉ part) (hnul : 0 ∉ part)
    (hrest : rest.headD 0 = 0x2F ∨ rest.headD 0 = 0) :
    pathparserCopyLoop (part ++ rest) = (part, rest) := by
  induction part with
  | nil =>
    cases rest with
    | nil => rfl
    | cons c rest =>
      rw [List.nil_append, pathparserCopyLoop, if_neg]
      exact fun hc => hrest.elim hc.1 hc.2
  | cons c part ih =>
    rw [List.mem_cons, not_or] at hslash hnul
    rw [List.cons_append, pathparserCopyLoop, if_pos ⟨Ne.symm hslash.1, Ne.symm hnul.1⟩,
      ih hslash.2 hnul.2]

lemma skipSlash_length_le (path : CString) : (skipSlash path).length ≤ path.length := by
  unfold skipSlash
  split
  · rw [List.length_tail]
    exact Nat.sub_le ..
  · exact le_rfl

/-- The parts a string goes on with, up to the first empty one. -/
def pathParts (path : CString) : List CString :=
  if _hpart : (pathparserCopyLoop path).1 = [] then []
  else (pathparserCopyLoop path).1 :: pathParts (skipSlash (pathparserCopyLoop path).2)
termination_by path.length
decreasing_by
  have hlength := pathparserCopyLoop_length path
  have hpos := List.length_pos_iff.mpr _hpart
  have hskip := skipSlash_length_le (pathparserCopyLoop path).2
  omega

lemma pathParts_empty (h : (pathparserCopyLoop path).1 = []) : pathParts path = [] := by
  rw [pathParts, dif_pos h]

lemma pathParts_cons (h : (pathparserCopyLoop path).1 ≠ []) : pathParts path =
    (pathparserCopyLoop path).1 :: pathParts (skipSlash (pathparserCopyLoop path).2) := by
  rw [pathParts, dif_neg h]

/-- The pointers of a parsed path. -/
def PathPart.addresses (part : PathPart) : List Addr := [part.partAddr, part.addr]

def PathRoot.addresses (root : PathRoot) : List Addr :=
  root.addr :: root.first.flatMap PathPart.addresses

/-! ## One part -/

/-- How looking for a part ends. -/
inductive PartOutcome (A : Allocator σ) (path : CString) (s : σ) :
    Option PathPart → CString → σ → Prop
  | noBuffer {s₁ : σ} (hbuf : A.kmalloc marrowosMaxPath s = (0, s₁)) :
      PartOutcome A path s none path s₁
  | empty {buf : Addr} {s₁ : σ} (hbuf : A.kmalloc marrowosMaxPath s = (buf, s₁)) (hne : buf ≠ 0)
      (hempty : (pathparserCopyLoop path).1 = []) :
      PartOutcome A path s none (skipSlash (pathparserCopyLoop path).2) (A.kfree buf s₁)
  | noStructure {buf : Addr} {s₁ s₂ : σ} (hbuf : A.kmalloc marrowosMaxPath s = (buf, s₁))
      (hne : buf ≠ 0) (hpart : (pathparserCopyLoop path).1 ≠ [])
      (hptr : A.kmalloc sizeofPathPart s₁ = (0, s₂)) :
      PartOutcome A path s none (skipSlash (pathparserCopyLoop path).2) (A.kfree buf s₂)
  | found {buf ptr : Addr} {s₁ s₂ : σ} (hbuf : A.kmalloc marrowosMaxPath s = (buf, s₁))
      (hne : buf ≠ 0) (hpart : (pathparserCopyLoop path).1 ≠ [])
      (hptr : A.kmalloc sizeofPathPart s₁ = (ptr, s₂)) (hne' : ptr ≠ 0) :
      PartOutcome A path s (some ⟨ptr, buf, (pathparserCopyLoop path).1⟩)
        (skipSlash (pathparserCopyLoop path).2) s₂

theorem pathparserParserPathPart_outcome
    (h : pathparserParserPathPart A path s = (part, path', s')) :
    PartOutcome A path s part path' s' := by
  unfold pathparserParserPathPart pathparserGetPathPart at h
  cases hbuf : A.kmalloc marrowosMaxPath s with
  | mk buf s₁ =>
  rw [hbuf] at h
  by_cases hne : buf = 0
  · simp only [if_pos hne] at h
    cases h
    rw [hne] at hbuf
    exact .noBuffer hbuf
  simp only [if_neg hne, List.length_eq_zero_iff] at h
  by_cases hpart : (pathparserCopyLoop path).1 = []
  · simp only [if_pos hpart] at h
    cases h
    exact .empty hbuf hne hpart
  simp only [if_neg hpart] at h
  cases hptr : A.kmalloc sizeofPathPart s₁ with
  | mk ptr s₂ =>
  simp only [hptr] at h
  by_cases hne' : ptr = 0
  · simp only [if_pos hne'] at h
    cases h
    rw [hne'] at hptr
    exact .noStructure hbuf hne hpart hptr
  · simp only [if_neg hne'] at h
    cases h
    exact .found hbuf hne hpart hptr hne'

/-! ## The loop -/

variable {t t' : σ × Noted} {parts : List PathPart}

/-- One part, with the requests noted: a refused request, no part, or the part in front. -/
lemma PartOutcome.noted (h : PartOutcome (noting A refuse) path t part path' t')
    (ht : t.2.refused = none) :
    (part = none ∧ t'.2.refused = some t.2.requests) ∨
    (part = none ∧ t'.2.refused = none ∧ pathParts path = []) ∨
    (part = none ∧ t'.2.refused = some (t.2.requests + 1)) ∨
    ∃ p, part = some p ∧ t'.2 = ⟨t.2.requests + 2, none⟩ ∧
      pathParts path = p.part :: pathParts path' := by
  cases h with
  | noBuffer hbuf =>
    left
    rw [noting_noted hbuf, if_pos rfl, ht]
    exact ⟨rfl, rfl⟩
  | empty hbuf hne hempty =>
    right; left
    refine ⟨rfl, ?_, pathParts_empty hempty⟩
    rw [noting_kfree, noting_noted hbuf, if_neg hne, ht]
  | noStructure hbuf hne hpart hptr =>
    right; right; left
    rw [noting_kfree, noting_noted hptr, if_pos rfl, noting_noted hbuf, if_neg hne, ht]
    exact ⟨rfl, rfl⟩
  | found hbuf hne hpart hptr hne' =>
    right; right; right
    refine ⟨_, rfl, ?_, pathParts_cons hpart⟩
    rw [noting_noted hptr, if_neg hne', noting_noted hbuf, if_neg hne, ht]

/-- The loop finds all the parts, or those in front of the refused request. -/
theorem pathparserParseLoop_noted (ht : t.2.refused = none)
    (hrun : pathparserParseLoop (noting A refuse) path t = (parts, t')) :
    (t'.2.refused = none ∧ parts.map (·.part) = pathParts path) ∨
    ∃ i, t'.2.refused = some i ∧ t.2.requests ≤ i ∧
      parts.map (·.part) = (pathParts path).take ((i - t.2.requests) / 2) := by
  -- on the length of the path; a part that is found takes two requests
  induction hn : path.length using Nat.strong_induction_on generalizing path t t' parts with
  | _ n ih =>
    subst hn
    rw [pathparserParseLoop] at hrun
    split at hrun
    · rename_i path₁ t₁ hpart
      rw [← (Prod.mk.inj hrun).1, ← (Prod.mk.inj hrun).2]
      rcases (pathparserParserPathPart_outcome hpart).noted ht with
        ⟨-, hrefused⟩ | ⟨-, hnone, hparts⟩ | ⟨-, hrefused⟩ | ⟨p, hp, -⟩
      · -- the buffer was refused
        right
        refine ⟨_, hrefused, le_rfl, ?_⟩
        rw [Nat.sub_self]
        rfl
      · -- the end of the path
        left
        rw [hparts]
        exact ⟨hnone, rfl⟩
      · -- the structure was refused
        right
        refine ⟨_, hrefused, Nat.le_succ _, ?_⟩
        rw [Nat.add_sub_cancel_left]
        rfl
      · exact absurd hp.symm (Option.some_ne_none p)
    · rename_i part path₁ t₁ hpart
      cases hloop : pathparserParseLoop (noting A refuse) path₁ t₁ with
      | mk rest t₂ =>
      simp only [hloop] at hrun
      rw [← (Prod.mk.inj hrun).1, ← (Prod.mk.inj hrun).2, List.map_cons]
      have hshorter := pathparserParserPathPart_length _ hpart
      rcases (pathparserParserPathPart_outcome hpart).noted ht with
        ⟨hp, -⟩ | ⟨hp, -⟩ | ⟨hp, -⟩ | ⟨p, hp, hnoted, hparts⟩
      · exact absurd hp (Option.some_ne_none part)
      · exact absurd hp (Option.some_ne_none part)
      · exact absurd hp (Option.some_ne_none part)
      have hrefused : t₁.2.refused = none := by rw [hnoted]
      rw [Option.some.inj hp, hparts]
      rcases ih path₁.length hshorter hrefused hloop rfl with ⟨hnone, hrest⟩ | ⟨i, hi, hle, hrest⟩
      · left
        rw [hrest]
        exact ⟨hnone, rfl⟩
      · right
        rw [hnoted] at hle hrest
        simp only at hle hrest
        refine ⟨i, hi, by omega, ?_⟩
        have hhalf : (i - t.2.requests) / 2 = (i - (t.2.requests + 2)) / 2 + 1 := by omega
        rw [hrest, hhalf, List.take_succ_cons]

/-! ## The whole path -/

/-- The parser gets past its checks of the path. -/
def PathAccepted (path : CString) : Prop :=
  strlen path ≤ marrowosMaxPath ∧ pathparserPathValidFormat path = true

/-- How a parse ends. -/
inductive ParseOutcome (A : Allocator σ) (path : CString) (s : σ) : Option PathRoot → σ → Prop
  | rejected (h : ¬ PathAccepted path) : ParseOutcome A path s none s
  | noRoot {s₁ : σ} (h : PathAccepted path) (hroot : A.kmalloc sizeofPathRoot s = (0, s₁)) :
      ParseOutcome A path s none s₁
  | noFirstPart {ptr : Addr} {s₁ s₂ : σ} {path' : CString} (h : PathAccepted path)
      (hroot : A.kmalloc sizeofPathRoot s = (ptr, s₁)) (hne : ptr ≠ 0)
      (hfirst : PartOutcome A (path.drop 3) s₁ none path' s₂) :
      ParseOutcome A path s none (A.kfree ptr s₂)
  | parsed {ptr : Addr} {s₁ s₂ s₃ : σ} {first : PathPart} {path' : CString}
      {parts : List PathPart} (h : PathAccepted path)
      (hroot : A.kmalloc sizeofPathRoot s = (ptr, s₁)) (hne : ptr ≠ 0)
      (hfirst : PartOutcome A (path.drop 3) s₁ (some first) path' s₂)
      (hloop : pathparserParseLoop A path' s₂ = (parts, s₃)) :
      ParseOutcome A path s (some ⟨ptr, tonumericdigit (path.headD 0), first :: parts⟩) s₃

lemma tonumericdigit_nonneg {c : UInt8} (h : isDigit c = true) : 0 ≤ tonumericdigit c := by
  have hle : 48 ≤ c.toInt8 := of_decide_eq_true (Bool.and_eq_true_iff.mp h).1
  have hint := Int8.le_iff_toInt_le.mp hle
  have h48 : (48 : Int8).toInt = 48 := rfl
  unfold tonumericdigit
  omega

theorem pathparserParse_outcome {root : Option PathRoot}
    (hrun : pathparserParse A path s = (root, s')) : ParseOutcome A path s root s' := by
  unfold pathparserParse at hrun
  by_cases hlong : strlen path > marrowosMaxPath
  · rw [if_pos hlong] at hrun
    cases hrun
    exact .rejected fun h => absurd h.1 (Nat.not_le.mpr hlong)
  rw [if_neg hlong] at hrun
  by_cases hvalid : pathparserPathValidFormat path = true
  · have haccepted : PathAccepted path := ⟨Nat.not_lt.mp hlong, hvalid⟩
    -- the number is the first character, and the path goes on behind the slash
    have hdrive : pathparserGetDriveByPath path =
        (tonumericdigit (path.headD 0), path.drop 3) := by
      rw [pathparserGetDriveByPath, hvalid]
      rfl
    have hdigit : isDigit (path.headD 0) = true := by
      unfold pathparserPathValidFormat at hvalid
      exact (Bool.and_eq_true_iff.mp (Bool.and_eq_true_iff.mp hvalid).1).2
    simp only [hdrive, if_neg (Int.not_lt.mpr (tonumericdigit_nonneg hdigit)),
      pathparserCreateRoot] at hrun
    -- the root, the first part, and the loop, each behind the one before
    cases hroot : A.kmalloc sizeofPathRoot s with
    | mk ptr s₁ =>
    simp only [hroot] at hrun
    by_cases hne : ptr = 0
    · simp only [if_pos hne] at hrun
      cases hrun
      rw [hne] at hroot
      exact .noRoot haccepted hroot
    simp only [if_neg hne] at hrun
    cases hfirst : pathparserParserPathPart A (path.drop 3) s₁ with
    | mk part rest =>
    rcases rest with ⟨path₁, s₂⟩
    have hout := pathparserParserPathPart_outcome hfirst
    simp only [hfirst] at hrun
    cases part with
    | none =>
      cases hrun
      exact .noFirstPart haccepted hroot hne hout
    | some first =>
      cases hloop : pathparserParseLoop A path₁ s₂ with
      | mk parts s₃ =>
      simp only [hloop] at hrun
      cases hrun
      exact .parsed haccepted hroot hne hout hloop
  · have hdrive : pathparserGetDriveByPath path = (-ebadpath, path) := by
      rw [pathparserGetDriveByPath, if_pos]
      rw [Bool.not_eq_true] at hvalid
      rw [hvalid]
      rfl
    have hneg : -ebadpath < 0 := by decide
    simp only [hdrive, if_pos hneg] at hrun
    cases hrun
    exact .rejected fun h => hvalid h.2

end MarrowOS
