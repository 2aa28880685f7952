import MarrowOS.Memory.PagingTheorems

/-!
# An allocator that fails on purpose

`refusing A` is the allocator `A`, except that one request, counted from the current one, is
answered with null. Run with no request left to refuse, the code above it does what it does over `A`
(`pagingNew4gb_refusing`); `paging_new_4gb` does not get past a request that is refused
(`pagingNew4gb_refused`). `noting A refuse` refuses any number of requests, and notes the first one
that was answered with null, be it by `refuse` or by `A`.
-/

namespace MarrowOS

open ByteMem CInt Fallible

variable {σ : Type} {A : Allocator σ} {h : σ} {mem : Mem} {size flags directory : ℕ}

/-- The next request but `n` is refused, if there is an `n`. -/
def refusing (A : Allocator σ) : Allocator (σ × Option ℕ) where
  kmalloc size s :=
    match s.2 with
    | some 0 => (0, (s.1, none))
    | some (n + 1) => ((A.kmalloc size s.1).1, ((A.kmalloc size s.1).2, some n))
    | none => ((A.kmalloc size s.1).1, ((A.kmalloc size s.1).2, none))
  kfree ptr s := (A.kfree ptr s.1, s.2)

/-- The machine with a request to refuse. -/
def Machine.refuse (m : Machine σ) (refused : Option ℕ) : Machine (σ × Option ℕ) :=
  ⟨(m.heap, refused), m.mem⟩

/-- The machine without it. -/
def Machine.forget (m : Machine (σ × Option ℕ)) : Machine σ := ⟨m.heap.1, m.mem⟩

@[simp] lemma Machine.forget_refuse (m : Machine σ) (refused : Option ℕ) :
    (m.refuse refused).forget = m := rfl

/-! ## One request -/

/-- The request that is refused. -/
lemma kzalloc_refused (m : Machine σ) :
    kzalloc (refusing A) size (m.refuse (some 0)) = .ok (0, m.refuse none) := rfl

lemma some_ne_some_zero {n : ℕ} (hpos : 0 < n) : some n ≠ some 0 :=
  fun h0 => hpos.ne' (Option.some.inj h0)

/-- What a request answers that is not the refused one. -/
lemma kzalloc_granted (m : Machine σ) {refused refused' : Option ℕ}
    (hgrant : refused ≠ some 0) (hnext : refused' = refused.map (· - 1)) :
    kzalloc (refusing A) size (m.refuse refused) =
      (kzalloc A size m).map fun r => (r.1, r.2.refuse refused') := by
  have hkmalloc : (refusing A).kmalloc size (m.heap, refused) =
      ((A.kmalloc size m.heap).1, ((A.kmalloc size m.heap).2, refused')) := by
    cases refused with
    | none =>
      rw [hnext]
      rfl
    | some n =>
      obtain ⟨n, rfl⟩ := Nat.exists_eq_succ_of_ne_zero fun h0 => hgrant (congrArg some h0)
      rw [hnext]
      rfl
  have hheap : (m.refuse refused).heap = (m.heap, refused) := rfl
  rw [kzalloc, kzalloc, hheap, hkmalloc]
  generalize A.kmalloc size m.heap = r
  rcases r with ⟨ptr, heap⟩
  dsimp only
  by_cases h0 : ptr = 0
  · rw [if_pos h0, if_pos h0]
    rfl
  · rw [if_neg h0, if_neg h0]
    show (memset ptr 0 size m.mem >>= fun mem => _) = _
    cases memset ptr 0 size m.mem <;> rfl

/-- A request when none is refused. -/
lemma kzalloc_forget (m : Machine σ) :
    kzalloc (refusing A) size (m.refuse none) =
      (kzalloc A size m).map fun r => (r.1, r.2.refuse none) :=
  kzalloc_granted m (Option.some_ne_none 0).symm rfl

/-! ## A new address space -/

/-- What it takes for a loop of `n` requests to run into the refused one. -/
def RefusedWithin (n : ℕ) (refused : Option ℕ) : Prop := ∃ j < n, refused = some j

lemma RefusedWithin.pred {n : ℕ} {refused : Option ℕ} (h : RefusedWithin (n + 1) refused)
    (hgrant : refused ≠ some 0) : RefusedWithin n (refused.map (· - 1)) := by
  rcases h with ⟨j, hj, rfl⟩
  have hne : j ≠ 0 := fun h0 => hgrant (congrArg some h0)
  exact ⟨j - 1, by omega, rfl⟩

/-- A table that is refused is written through a null pointer. -/
lemma pagingNew4gbLoop_refused : ∀ (n i : ℕ) (offset : ℤ) (refused : Option ℕ) (m : Machine σ),
    RefusedWithin n refused →
    ∀ r, pagingNew4gbLoop (refusing A) directory flags n i offset (m.refuse refused) ≠ .ok r := by
  intro n
  induction n with
  | zero =>
    rintro i offset refused m ⟨j, hj, -⟩
    exact absurd hj (Nat.not_lt_zero j)
  | succ n ih =>
    intro i offset refused m hrefused r hloop
    rw [pagingNew4gbLoop] at hloop
    by_cases hnow : refused = some 0
    · rw [hnow, kzalloc_refused, ok_bind] at hloop
      simp at hloop
    · rw [kzalloc_granted m hnow rfl] at hloop
      cases hkz : kzalloc A (4 * pagingTotalEntriesPerTable) m with
      | error e =>
        rw [hkz] at hloop
        exact absurd hloop (by simp [Except.map])
      | ok s =>
        rcases s with ⟨entry, m₁⟩
        rw [hkz] at hloop
        simp only [Except.map, ok_bind] at hloop
        split_ifs at hloop
        exact ih (i + 1) _ _ ⟨m₁.heap, writeU32 (pagingFillTable entry offset flags m₁.mem)
          (directory + 4 * i) (entry ||| flags ||| pagingIsWritable)⟩ (hrefused.pred hnow) r hloop

/-- A loop that gets through has counted its requests. -/
lemma pagingNew4gbLoop_granted : ∀ (n i : ℕ) (offset : ℤ) (refused : Option ℕ) (m : Machine σ),
    ¬ RefusedWithin n refused →
    pagingNew4gbLoop (refusing A) directory flags n i offset (m.refuse refused) =
      (pagingNew4gbLoop A directory flags n i offset m).map
        fun m' => m'.refuse (refused.map (· - n)) := by
  intro n
  induction n with
  | zero =>
    intro i offset refused m _
    cases refused <;> rfl
  | succ n ih =>
    intro i offset refused m hgranted
    have hgrant : refused ≠ some 0 := fun h0 => hgranted ⟨0, n.succ_pos, h0⟩
    have hnext : ¬ RefusedWithin n (refused.map (· - 1)) := by
      rintro ⟨j, hj, hrefused⟩
      rcases Option.map_eq_some_iff.mp hrefused with ⟨j', rfl, rfl⟩
      exact hgranted ⟨j', by omega, rfl⟩
    have hcount : (refused.map (· - 1)).map (· - n) = refused.map (· - (n + 1)) := by
      rw [Option.map_map]
      congr 1
      funext j
      exact (by omega : j - 1 - n = j - (n + 1))
    rw [pagingNew4gbLoop, pagingNew4gbLoop, kzalloc_granted m hgrant rfl]
    cases hkz : kzalloc A (4 * pagingTotalEntriesPerTable) m with
    | error e => rfl
    | ok s =>
      rcases s with ⟨entry, m₁⟩
      simp only [Except.map, ok_bind]
      split_ifs with hnull
      · rfl
      · have hrest := ih (i + 1) (i32 (offset + pagingTotalEntriesPerTable * pagingPageSize))
          (refused.map (· - 1)) ⟨m₁.heap, writeU32 (pagingFillTable entry offset flags m₁.mem)
            (directory + 4 * i) (entry ||| flags ||| pagingIsWritable)⟩ hnext
        rw [hcount] at hrest
        exact hrest

/-- How many requests `paging_new_4gb` makes. -/
def pagingNew4gbRequests : ℕ := pagingTotalEntriesPerTable + 2

/-- **A refused request** ends `paging_new_4gb` at a null pointer. -/
theorem pagingNew4gb_refused {refused : Option ℕ} (m : Machine σ)
    (hrefused : RefusedWithin pagingNew4gbRequests refused)
    (r : Paging4gbChunk × Machine (σ × Option ℕ)) :
    pagingNew4gb (refusing A) flags (m.refuse refused) ≠ .ok r := by
  intro hnew
  rw [pagingNew4gb] at hnew
  rcases bind_eq_ok.mp hnew with ⟨⟨directory, m₁⟩, hdirectory, hnew⟩
  rcases bind_eq_ok.mp hnew with ⟨m₂, hloop, hnew⟩
  rcases bind_eq_ok.mp hnew with ⟨⟨chunk, m₃⟩, hchunk, hnew⟩
  by_cases hnow : refused = some 0
  · -- the directory
    rw [hnow, kzalloc_refused] at hdirectory
    have h0 : directory = 0 := (Prod.mk.inj (Except.ok.inj hdirectory)).1.symm
    rw [h0] at hloop
    exact pagingNew4gbLoop_null hloop
  have hrest : RefusedWithin (pagingTotalEntriesPerTable + 1) (refused.map (· - 1)) :=
    hrefused.pred hnow
  rw [kzalloc_granted m hnow rfl] at hdirectory
  rcases map_eq_ok.mp hdirectory with ⟨⟨directory', m₁'⟩, -, heq⟩
  rcases Prod.mk.inj heq with ⟨-, hm₁⟩
  rw [← hm₁] at hloop
  by_cases hloops : RefusedWithin pagingTotalEntriesPerTable (refused.map (· - 1))
  · -- one of the tables
    exact pagingNew4gbLoop_refused _ _ _ _ m₁' hloops m₂ hloop
  · -- the chunk
    rw [pagingNew4gbLoop_granted _ _ _ _ m₁' hloops] at hloop
    rcases map_eq_ok.mp hloop with ⟨m₂', -, hm₂⟩
    rcases hrest with ⟨j, hj, hj'⟩
    have hlast : j = pagingTotalEntriesPerTable := by
      by_contra hne
      exact hloops ⟨j, by omega, hj'⟩
    rw [hj', hlast] at hm₂
    have hzero : (some pagingTotalEntriesPerTable).map (· - pagingTotalEntriesPerTable) =
        some 0 := rfl
    rw [hzero] at hm₂
    rw [← hm₂, kzalloc_refused] at hchunk
    have h0 : chunk = 0 := (Prod.mk.inj (Except.ok.inj hchunk)).1.symm
    rw [h0] at hnew
    simp at hnew

/-- **Nothing refused.** -/
theorem pagingNew4gb_refusing (m : Machine σ) :
    pagingNew4gb (refusing A) flags (m.refuse none) =
      (pagingNew4gb A flags m).map fun r => (r.1, r.2.refuse none) := by
  have hnone : ¬ RefusedWithin pagingTotalEntriesPerTable none := by
    rintro ⟨j, -, hj⟩
    cases hj
  rw [pagingNew4gb, pagingNew4gb, kzalloc_forget]
  cases kzalloc A (4 * pagingTotalEntriesPerTable) m with
  | error e => rfl
  | ok s =>
    rcases s with ⟨directory, m₁⟩
    simp only [Except.map, ok_bind]
    rw [pagingNew4gbLoop_granted _ _ _ _ m₁ hnone]
    cases pagingNew4gbLoop A directory flags pagingTotalEntriesPerTable 0 0 m₁ with
    | error e => rfl
    | ok m₂ =>
      simp only [Except.map, ok_bind, Option.map_none]
      rw [kzalloc_forget]
      cases kzalloc A 4 m₂ with
      | error e => rfl
      | ok s =>
        rcases s with ⟨chunk, m₃⟩
        simp only [Except.map, ok_bind]
        split_ifs <;> rfl

/-! ## Requests by their number -/

/-- How many requests were made, and the number of the first one that was refused. -/
structure Noted where
  requests : ℕ
  refused : Option ℕ
deriving DecidableEq, Repr

/-- Nothing was requested so far. -/
def noRequests : Noted := ⟨0, none⟩

/-- `A`, which refuses the requests whose numbers are in `refuse` besides those it refuses
itself. -/
def noting (A : Allocator σ) (refuse : ℕ → Bool) : Allocator (σ × Noted) where
  kmalloc size s :=
    let (ptr, heap) := if refuse s.2.requests then (0, s.1) else A.kmalloc size s.1
    let refused := if ptr = 0 then s.2.refused.or (some s.2.requests) else s.2.refused
    (ptr, (heap, ⟨s.2.requests + 1, refused⟩))
  kfree ptr s := (A.kfree ptr s.1, s.2)

variable {refuse : ℕ → Bool} {s s' : σ × Noted} {ptr : ℕ}

@[simp] lemma noting_kfree (ptr : ℕ) (s : σ × Noted) :
    (noting A refuse).kfree ptr s = (A.kfree ptr s.1, s.2) := rfl

/-- What is noted of a request: it counts, and the first one that is refused stays. -/
lemma noting_noted (h : (noting A refuse).kmalloc size s = (ptr, s')) :
    s'.2 = ⟨s.2.requests + 1,
      if ptr = 0 then s.2.refused.or (some s.2.requests) else s.2.refused⟩ := by
  have hptr := (Prod.mk.inj h).1
  have hstate := congrArg Prod.snd (Prod.mk.inj h).2
  rw [← hptr, ← hstate]

/-- A request that is granted is granted by `A`. -/
lemma noting_granted (h : (noting A refuse).kmalloc size s = (ptr, s')) (hne : ptr ≠ 0) :
    A.kmalloc size s.1 = (ptr, s'.1) := by
  by_cases hrefuse : refuse s.2.requests
  · simp only [noting, if_pos hrefuse] at h
    exact absurd (Prod.mk.inj h).1.symm hne
  · simp only [noting, if_neg hrefuse] at h
    rw [← (Prod.mk.inj h).1, ← (Prod.mk.inj h).2]

/-- A request that is refused is refused by `A`, or does not get there. -/
lemma noting_refused (h : (noting A refuse).kmalloc size s = (0, s')) :
    s'.1 = s.1 ∨ A.kmalloc size s.1 = (0, s'.1) := by
  by_cases hrefuse : refuse s.2.requests
  · simp only [noting, if_pos hrefuse] at h
    rw [← (Prod.mk.inj h).2]
    exact Or.inl rfl
  · simp only [noting, if_neg hrefuse] at h
    right
    rw [← (Prod.mk.inj h).2]
    exact Prod.ext (Prod.mk.inj h).1 rfl

end MarrowOS
