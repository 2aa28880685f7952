import Mathlib.Data.List.Basic
import Mathlib.Data.List.Nodup
import Mathlib.Tactic.Lemma

/-!
# Turns in a growing list

The nodes of a list take turns: after a node the one behind it, after the last one the first.
A `Rotation` is the list cut behind the node whose turn it is; newcomers join at the end.

`Passing A c B` follows the turns since a turn of `c`, when the list was `A ++ c :: B`; until
the next turn of `c` everything in the list gets its turn once (`Passing.full`).
-/

namespace Rotation

variable {α : Type*}

/-- The nodes up to the one whose turn it is, and those behind it. -/
structure Rotation (α : Type*) where
  served : List α
  waiting : List α

def Rotation.nodes (s : Rotation α) : List α := s.served ++ s.waiting

/-- The node whose turn it is. -/
def Rotation.current (s : Rotation α) : Option α := s.served.getLast?

/-- The next turn. -/
def Rotation.turn (s : Rotation α) : Rotation α :=
  match s.waiting with
  | [] => ⟨s.served.take 1, s.served.drop 1⟩
  | b :: waiting => ⟨s.served ++ [b], waiting⟩

def Rotation.join (s : Rotation α) (a : α) : Rotation α := ⟨s.served, s.waiting ++ [a]⟩

variable {A B turns l : List α} {a b c x : α} {s : Rotation α}

@[simp] lemma turn_nodes (s : Rotation α) : s.turn.nodes = s.nodes := by
  rcases s with ⟨served, waiting⟩
  cases waiting with
  | nil =>
    show served.take 1 ++ served.drop 1 = served ++ []
    rw [List.take_append_drop, List.append_nil]
  | cons b waiting => simp [Rotation.turn, Rotation.nodes]

@[simp] lemma join_nodes (s : Rotation α) (a : α) : (s.join a).nodes = s.nodes ++ [a] := by
  simp [Rotation.join, Rotation.nodes]

@[simp] lemma turn_current_cons {served waiting : List α} :
    (Rotation.turn ⟨served, b :: waiting⟩).current = some b := List.getLast?_concat

@[simp] lemma turn_current_nil {served : List α} :
    (Rotation.turn ⟨a :: served, []⟩).current = some a := rfl

/-! ## The turns since a turn of `c` -/

/-- `turns` are the turns since one of `c` in the list `A ++ c :: B`: they went on through `B` and
the newcomers, or through all of these and on from the start of `A`. -/
inductive Passing (A : List α) (c : α) (B : List α) (s : Rotation α) (turns : List α) : Prop
  | behind (N : List α) (served : s.served = A ++ c :: turns)
      (waiting : turns ++ s.waiting = B ++ N)
  | around (A₁ A₂ N N' : List α) (wrapped : A₁ ≠ []) (split : A = A₁ ++ A₂) (served : s.served = A₁)
      (waiting : s.waiting = A₂ ++ c :: (B ++ N ++ N')) (turns : turns = B ++ N ++ A₁)

/-- No turn was taken yet. -/
lemma Passing.start (hserved : s.served = A ++ [c]) : Passing A c s.waiting s [] :=
  .behind [] hserved (by simp)

lemma Passing.join (h : Passing A c B s turns) (a : α) : Passing A c B (s.join a) turns := by
  rcases h with ⟨N, hserved, hwaiting⟩ |
    ⟨A₁, A₂, N, N', hwrapped, hsplit, hserved, hwaiting, hturns⟩
  · refine .behind (N ++ [a]) hserved ?_
    rw [← List.append_assoc, ← hwaiting, List.append_assoc]
    rfl
  · refine .around A₁ A₂ N (N' ++ [a]) hwrapped hsplit hserved ?_ hturns
    show s.waiting ++ [a] = _
    rw [hwaiting]
    simp

/-- A turn of another node. -/
lemma Passing.turn (h : Passing A c B s turns) (hcurrent : s.turn.current = some x) (hx : x ≠ c) :
    Passing A c B s.turn (turns ++ [x]) := by
  rcases s with ⟨served, waiting⟩
  rcases h with ⟨N, hserved, hwaiting⟩ |
    ⟨A₁, A₂, N, N', hwrapped, hsplit, hserved, hwaiting, hturns⟩
  · subst hserved
    cases waiting with
    | nil =>
      -- around the end: the first node is not `c`, so it is the first one of `A`
      rcases A with _ | ⟨a, A⟩
      · exact absurd (Option.some.inj (hcurrent.symm.trans turn_current_nil)) hx
      · have ha : a = x := Option.some.inj (turn_current_nil.symm.trans hcurrent)
        subst ha
        refine .around [a] A N [] (by simp) rfl rfl ?_ ?_
        · rw [List.append_nil] at hwaiting
          rw [List.append_nil, ← hwaiting]
          rfl
        · rw [List.append_nil] at hwaiting
          rw [hwaiting]
    | cons b waiting =>
      have hb : b = x := Option.some.inj (turn_current_cons.symm.trans hcurrent)
      subst hb
      refine .behind N ?_ ?_
      · show (A ++ c :: turns) ++ [b] = _
        simp
      · rw [← hwaiting]
        simp [Rotation.turn]
  · subst hserved hturns
    have hwaiting : waiting = A₂ ++ c :: (B ++ N ++ N') := hwaiting
    subst hwaiting
    cases A₂ with
    | nil =>
      exact absurd (Option.some.inj (hcurrent.symm.trans turn_current_cons)) hx
    | cons a A₂ =>
      have ha : a = x := Option.some.inj (turn_current_cons.symm.trans hcurrent)
      subst ha
      refine .around (served ++ [a]) A₂ N N' (by simp) (by rw [hsplit]; simp) rfl rfl ?_
      simp

/-- **A full turn.** When it is the turn of `c` again, those behind it, the newcomers that were
there in time and those before it had their turns, in this order. -/
lemma Passing.full (h : Passing A c B s turns) (hnodup : s.nodes.Nodup)
    (hcurrent : s.turn.current = some c) :
    ∃ N N', s.nodes = A ++ c :: (B ++ N ++ N') ∧ turns = B ++ N ++ A := by
  rcases s with ⟨served, waiting⟩
  rcases h with ⟨N, hserved, hwaiting⟩ |
    ⟨A₁, A₂, N, N', hwrapped, hsplit, hserved, hwaiting, hturns⟩
  · subst hserved
    cases waiting with
    | nil =>
      rw [List.append_nil] at hwaiting
      rcases A with _ | ⟨a, A⟩
      · exact ⟨N, [], by simp [Rotation.nodes, hwaiting], by simp [hwaiting]⟩
      · -- the first node is not `c`
        have ha : a = c := Option.some.inj (turn_current_nil.symm.trans hcurrent)
        simp [Rotation.nodes, ha] at hnodup
    | cons b waiting =>
      have hb : b = c := Option.some.inj (turn_current_cons.symm.trans hcurrent)
      simp [Rotation.nodes, hb, List.nodup_append] at hnodup
  · subst hserved hturns
    have hwaiting : waiting = A₂ ++ c :: (B ++ N ++ N') := hwaiting
    subst hwaiting
    cases A₂ with
    | nil =>
      rw [List.append_nil] at hsplit
      exact ⟨N, N', by rw [hsplit]; rfl, by rw [hsplit]⟩
    | cons a A₂ =>
      have ha : a = c := Option.some.inj (turn_current_cons.symm.trans hcurrent)
      simp [Rotation.nodes, ha, List.nodup_append] at hnodup

/-! ## Newcomers -/

/-- `turns` are the turns since `a` joined, none of them of the first node `c`. -/
structure Newcomer (c a : α) (s : Rotation α) (turns : List α) : Prop where
  first : ∃ l, s.served = c :: l
  waits : a ∈ turns ∨ a ∈ s.waiting

lemma Newcomer.start (hfirst : ∃ l, s.served = c :: l) (a : α) : Newcomer c a (s.join a) [] :=
  ⟨hfirst, Or.inr (List.mem_append_right _ List.mem_cons_self)⟩

lemma Newcomer.join (h : Newcomer c a s turns) (b : α) : Newcomer c a (s.join b) turns :=
  ⟨h.first, h.waits.imp id fun hmem => List.mem_append_left _ hmem⟩

lemma Newcomer.turn (h : Newcomer c a s turns) (hcurrent : s.turn.current = some x) (hx : x ≠ c) :
    Newcomer c a s.turn (turns ++ [x]) := by
  rcases s with ⟨served, waiting⟩
  rcases h with ⟨⟨l, rfl⟩, hwaits⟩
  cases waiting with
  | nil => exact absurd (Option.some.inj (hcurrent.symm.trans turn_current_nil)) hx
  | cons b waiting =>
    have hb : b = x := Option.some.inj (turn_current_cons.symm.trans hcurrent)
    subst hb
    refine ⟨⟨l ++ [b], rfl⟩, ?_⟩
    rcases hwaits with hmem | hmem
    · exact Or.inl (List.mem_append_left _ hmem)
    rcases List.mem_cons.mp hmem with rfl | hmem
    · exact Or.inl (List.mem_append_right _ List.mem_cons_self)
    · exact Or.inr hmem

/-- When it is the turn of the first node, the newcomer had its turn. -/
lemma Newcomer.full (h : Newcomer c a s turns) (hnodup : s.nodes.Nodup)
    (hcurrent : s.turn.current = some c) : a ∈ turns := by
  rcases s with ⟨served, waiting⟩
  rcases h with ⟨⟨l, rfl⟩, hwaits⟩
  cases waiting with
  | nil => exact hwaits.resolve_right List.not_mem_nil
  | cons b waiting =>
    have hb : b = c := Option.some.inj (turn_current_cons.symm.trans hcurrent)
    simp [Rotation.nodes, hb] at hnodup

end Rotation
