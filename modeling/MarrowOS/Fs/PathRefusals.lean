import MarrowOS.Fs.PathRoundTrips

/-!
# Parsing a path when memory runs out

A part whose memory is refused is reported like the end of the path. The first three requests are
for the root and the first part, and when one of them is refused the parse fails and gives back what
it took; any later refusal leaves a root with the parts in front of it (`ParseOutcome.noted`), which
the caller cannot tell from a whole path.
-/

namespace MarrowOS

variable {refuse : ℕ → Bool} {path path' : CString} {heap : Heap} {ptrs : List ℕ}
  {ptr size i : ℕ} {t t' : KernelHeap × Noted} {res : Option PathRoot}

/-- One request, refused or not. -/
lemma TakenSingly.noting (h : TakenSingly heap t.1.heap ptrs) (htidy : TidyHeap heap)
    (hpos : 1 ≤ size) (hmax : size ≤ 4096)
    (hk : (noting kernelAllocator refuse).kmalloc size t = (ptr, t')) :
    (ptr = 0 ∧ TakenSingly heap t'.1.heap ptrs) ∨
      (ptr ≠ 0 ∧ TakenSingly heap t'.1.heap (ptr :: ptrs)) := by
  by_cases h0 : ptr = 0
  · left
    rw [h0] at hk
    rcases noting_refused hk with hsame | hrefused
    · rw [hsame]
      exact ⟨h0, h⟩
    · rcases h.kmalloc htidy hpos hmax hrefused with ⟨-, -, hsame⟩ | ⟨hne, -⟩
      · rw [hsame]
        exact ⟨h0, h⟩
      · exact absurd rfl hne
  · right
    rcases h.kmalloc htidy hpos hmax (noting_granted hk h0) with ⟨h0', -⟩ | ⟨-, -, htaken⟩
    · exact absurd h0' h0
    · exact ⟨h0, htaken⟩

/-- Looking for a part in vain gives back what it took. -/
lemma PartOutcome.restores
    (hout : PartOutcome (noting kernelAllocator refuse) path t none path' t')
    (htidy : TidyHeap heap) (h : TakenSingly heap t.1.heap ptrs) :
    TakenSingly heap t'.1.heap ptrs := by
  generalize hnone : (none : Option PathPart) = part at hout
  cases hout with
  | noBuffer hbuf =>
    rcases h.noting htidy (by decide) (by decide) hbuf with ⟨-, hsame⟩ | ⟨hne, -⟩
    · exact hsame
    · exact absurd rfl hne
  | empty hbuf hne hempty =>
    rcases h.noting htidy (by decide) (by decide) hbuf with ⟨h0, -⟩ | ⟨-, htaken⟩
    · exact absurd h0 hne
    · exact htaken.heapFree_head htidy
  | noStructure hbuf hne hpart hptr =>
    rcases h.noting htidy (by decide) (by decide) hbuf with ⟨h0, -⟩ | ⟨-, htaken⟩
    · exact absurd h0 hne
    rcases htaken.noting htidy (by decide) (by decide) hptr with ⟨-, hsame⟩ | ⟨hne', -⟩
    · exact hsame.heapFree_head htidy
    · exact absurd rfl hne'
  | found => exact absurd hnone.symm (Option.some_ne_none _)

/-- A parse that fails gives back what it took. -/
theorem ParseOutcome.restores {k : KernelHeap}
    (hout : ParseOutcome (noting kernelAllocator refuse) path (k, noRequests) none t')
    (htidy : TidyHeap k.heap) : SameTable k.heap t'.1.heap := by
  have hstart := TakenSingly.refl k.heap
  generalize hnone : (none : Option PathRoot) = res at hout
  apply TakenSingly.sameTable
  cases hout with
  | rejected => exact hstart
  | noRoot _ hroot =>
    rcases hstart.noting htidy (by decide) (by decide) hroot with ⟨-, hsame⟩ | ⟨hne, -⟩
    · exact hsame
    · exact absurd rfl hne
  | noFirstPart _ hroot hne hfirst =>
    rcases hstart.noting htidy (by decide) (by decide) hroot with ⟨h0, -⟩ | ⟨-, htaken⟩
    · exact absurd h0 hne
    · exact (hfirst.restores htidy htaken).heapFree_head htidy
  | parsed => exact absurd hnone.symm (Option.some_ne_none _)

/-- **Refusals.** On a heap whose table is in order, a parse of which request `i` is the first to be
refused returns null with the table as before when that is one of the first three, for the root and
for the first part. -/
theorem pathparserParse_refused_iff {k : KernelHeap} (h : TidyHeap k.heap)
    (hrun : pathparserParse (noting kernelAllocator refuse) path (k, noRequests) = (res, t'))
    (hrefused : t'.2.refused = some i) :
    (res = none ∧ SameTable k.heap t'.1.heap) ↔ i < 3 := by
  have hout := pathparserParse_outcome hrun
  constructor
  · rintro ⟨hnone, -⟩
    rw [hnone] at hout
    rcases hout.noted_none with ⟨hno, -⟩ | ⟨j, hj, hlt⟩
    · exact absurd (hno.symm.trans hrefused) (Option.some_ne_none i).symm
    · rw [hrefused] at hj
      have heq := Option.some.inj hj
      omega
  · intro hi
    cases res with
    | none => exact ⟨rfl, hout.restores h⟩
    | some root =>
      rcases hout.noted.2.2 with ⟨hno, -⟩ | ⟨j, hj, hle, -⟩
      · exact absurd (hno.symm.trans hrefused) (Option.some_ne_none i).symm
      · rw [hrefused] at hj
        have heq := Option.some.inj hj
        omega

/-- `0:/a` on the kernel heap after boot, without memory for the buffer of its part. -/
theorem pathparserParse_refused_buffer :
    (pathparserParse (noting kernelAllocator (· == 1)) [0x30, 0x3A, 0x2F, 0x61]
        (bootMachine.heap, noRequests)).1 = none ∧
      SameTable bootMachine.heap.heap (pathparserParse (noting kernelAllocator (· == 1))
        [0x30, 0x3A, 0x2F, 0x61] (bootMachine.heap, noRequests)).2.1.heap :=
  (@pathparserParse_refused_iff _ _ 1 _ _ bootMachine.heap bootMachine_owns.tidy (Prod.eta _).symm
    (by decide +kernel)).mpr (by decide)

/-- `0:/a/b` without memory for the buffer of its second part is parsed into `0:/a`. -/
theorem pathparserParse_shortened : ¬ ∀ (k : KernelHeap) (refuse : ℕ → Bool) (path : CString),
    TidyHeap k.heap →
    ((pathparserParse (noting kernelAllocator refuse) path (k, noRequests)).2.2.refused).isSome →
    (pathparserParse (noting kernelAllocator refuse) path (k, noRequests)).1 = none := by
  intro h
  have hnone := h bootMachine.heap (· == 3) [0x30, 0x3A, 0x2F, 0x61, 0x2F, 0x62]
    bootMachine_owns.tidy (by decide +kernel)
  exact absurd hnone (by decide +kernel)

end MarrowOS
