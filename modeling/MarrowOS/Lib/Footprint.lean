import MarrowOS.Lib.ByteMem

/-!
# The footprint of a computation

A `Traced` computation has a value, and the stretches of memory that it read. It stays within a
buffer when all of them lie there; `within_bind` takes a sequence apart.
-/

namespace Footprint

open ByteMem

/-- A stretch of memory. -/
structure Span where
  start : ℕ
  length : ℕ
deriving DecidableEq, Repr

/-- The stretch lies in the `size` bytes from `base` on. -/
def Span.Inside (s : Span) (base size : ℕ) : Prop :=
  base ≤ s.start ∧ s.start + s.length ≤ base + size

lemma inside_add {base size offset length : ℕ} :
    (Span.mk (base + offset) length).Inside base size ↔ offset + length ≤ size := by
  unfold Span.Inside
  dsimp only
  omega

/-- A stretch of a stretch that lies there. -/
lemma Span.Inside.sub {base size start length offset length' : ℕ}
    (h : (Span.mk start length).Inside base size) (hsub : offset + length' ≤ length) :
    (Span.mk (start + offset) length').Inside base size := by
  unfold Span.Inside at *
  dsimp only at *
  omega

/-- A value and the stretches that were read for it, in order. Not a structure: its projections
would be unfolded, and the words of memory under them, where a condition is compared with itself. -/
inductive Traced (α : Type)
  | mk (value : α) (reads : List Span)

def Traced.value {α : Type} : Traced α → α
  | mk value _ => value

def Traced.reads {α : Type} : Traced α → List Span
  | mk _ reads => reads

instance : Monad Traced where
  pure a := .mk a []
  bind x f := .mk (f x.value).value (x.reads ++ (f x.value).reads)

/-- All that is read lies in the `size` bytes from `base` on. -/
def Traced.Within {α : Type} (x : Traced α) (base size : ℕ) : Prop :=
  ∀ s ∈ x.reads, s.Inside base size

variable {α β : Type} {base size : ℕ}

/-! ## Reading -/

def traceU8 (mem : Mem) (a : ℕ) : Traced UInt8 := .mk (mem a) [⟨a, 1⟩]

def traceU16 (mem : Mem) (a : ℕ) : Traced ℕ := .mk (readU16 mem a) [⟨a, 2⟩]

def traceU32 (mem : Mem) (a : ℕ) : Traced ℕ := .mk (readU32 mem a) [⟨a, 4⟩]

/-- `a && b`. -/
def Traced.and (a b : Traced Bool) : Traced Bool := do
  if ← a then b else return false

/-- `a || b`. -/
def Traced.or (a b : Traced Bool) : Traced Bool := do
  if ← a then return true else b

/-! ## Values -/

-- a proof in brackets keeps `simp` from rewriting inside the decision procedure of a condition

lemma value_mk (a : α) (reads : List Span) : (Traced.mk a reads).value = a := rfl

@[simp] lemma value_pure (a : α) : (pure a : Traced α).value = a := (rfl)

@[simp] lemma value_bind (x : Traced α) (f : α → Traced β) :
    (x >>= f).value = (f x.value).value := (rfl)

@[simp] lemma value_ite (c : Prop) [Decidable c] (x y : Traced α) :
    (if c then x else y).value = if c then x.value else y.value := by
  split_ifs <;> rfl

@[simp] lemma value_traceU8 (mem : Mem) (a : ℕ) : (traceU8 mem a).value = mem a :=
  value_mk _ _

@[simp] lemma value_traceU16 (mem : Mem) (a : ℕ) : (traceU16 mem a).value = readU16 mem a :=
  value_mk _ _

@[simp] lemma value_traceU32 (mem : Mem) (a : ℕ) : (traceU32 mem a).value = readU32 mem a :=
  value_mk _ _

@[simp] lemma value_and (a b : Traced Bool) : (a.and b).value = (a.value && b.value) := by
  rw [Traced.and, value_bind]
  cases a.value <;> rfl

@[simp] lemma value_or (a b : Traced Bool) : (a.or b).value = (a.value || b.value) := by
  rw [Traced.or, value_bind]
  cases a.value <;> rfl

/-! ## Reads -/

@[simp] lemma reads_pure (a : α) : (pure a : Traced α).reads = [] := (rfl)

@[simp] lemma reads_bind (x : Traced α) (f : α → Traced β) :
    (x >>= f).reads = x.reads ++ (f x.value).reads := (rfl)

@[simp] lemma reads_traceU8 (mem : Mem) (a : ℕ) : (traceU8 mem a).reads = [⟨a, 1⟩] := (rfl)

/-! ## Footprints -/

@[simp] lemma within_pure (a : α) : (pure a : Traced α).Within base size := by
  intro s hs
  exact absurd hs List.not_mem_nil

/-- A sequence stays within a buffer when both of its parts do. -/
@[simp] lemma within_bind {x : Traced α} {f : α → Traced β} :
    (x >>= f).Within base size ↔ x.Within base size ∧ (f x.value).Within base size := by
  show (∀ s ∈ x.reads ++ (f x.value).reads, s.Inside base size) ↔ _
  simp only [List.mem_append, or_imp, forall_and]
  rfl

@[simp] lemma within_traceU8 {mem : Mem} {a : ℕ} :
    (traceU8 mem a).Within base size ↔ (Span.mk a 1).Inside base size := by
  simp [Traced.Within, Traced.reads, traceU8]

@[simp] lemma within_traceU16 {mem : Mem} {a : ℕ} :
    (traceU16 mem a).Within base size ↔ (Span.mk a 2).Inside base size := by
  simp [Traced.Within, Traced.reads, traceU16]

@[simp] lemma within_traceU32 {mem : Mem} {a : ℕ} :
    (traceU32 mem a).Within base size ↔ (Span.mk a 4).Inside base size := by
  simp [Traced.Within, Traced.reads, traceU32]

/-- What stays within a part of a buffer stays within the buffer. -/
lemma Traced.Within.sub {x : Traced α} (offset : ℕ) {length : ℕ}
    (h : x.Within (base + offset) length) (hsub : offset + length ≤ size) : x.Within base size := by
  intro s hs
  rcases h s hs with ⟨hlo, hhi⟩
  exact ⟨by omega, by omega⟩

/-- The second part is run when the first is true. -/
lemma within_and {a b : Traced Bool} : (a.and b).Within base size ↔
    a.Within base size ∧ (a.value = true → b.Within base size) := by
  rw [Traced.and, within_bind]
  cases a.value <;> simp

/-- The second part is run when the first is false. -/
lemma within_or {a b : Traced Bool} : (a.or b).Within base size ↔
    a.Within base size ∧ (a.value = false → b.Within base size) := by
  rw [Traced.or, within_bind]
  cases a.value <;> simp

end Footprint
