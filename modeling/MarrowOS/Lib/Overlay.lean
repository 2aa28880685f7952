import Mathlib.Data.List.Basic
import Mathlib.Tactic.ByContra
import Mathlib.Tactic.Lemma

/-!
# Overlays

A patch gives some points of a function new values. When patches are laid over a function one
after the other, the last one that covers a point decides its value (`overlay_iff`).
-/

namespace Overlay

variable {α β : Type*} {f : α → β} {patch : α → Option β} {patches : List (α → Option β)} {a : α}
  {b : β} {P : β → Prop}

/-- The function with a patch laid over it. -/
def patched (f : α → β) (patch : α → Option β) : α → β := fun a => (patch a).getD (f a)

/-- The function with patches laid over it, the first one first. -/
def overlay (f : α → β) (patches : List (α → Option β)) : α → β := patches.foldl patched f

@[simp] lemma overlay_nil : overlay f [] = f := rfl

@[simp] lemma overlay_cons :
    overlay f (patch :: patches) = overlay (patched f patch) patches := rfl

lemma overlay_append (patches' : List (α → Option β)) :
    overlay f (patches ++ patches') = overlay (overlay f patches) patches' :=
  List.foldl_append

lemma patched_of_none (h : patch a = none) : patched f patch a = f a := by
  rw [patched, h]
  rfl

lemma patched_of_some (h : patch a = some b) : patched f patch a = b := by
  rw [patched, h]
  rfl

/-- Patches that do not cover a point leave its value. -/
lemma overlay_of_none (h : ∀ patch ∈ patches, patch a = none) : overlay f patches a = f a := by
  induction patches generalizing f with
  | nil => rfl
  | cons patch patches ih =>
    rw [overlay_cons, ih fun q hq => h q (List.mem_cons_of_mem patch hq)]
    exact patched_of_none (h patch List.mem_cons_self)

/-- The last patch that covers a point decides its value. -/
lemma overlay_of_last {pre post : List (α → Option β)} (hb : patch a = some b)
    (hpost : ∀ q ∈ post, q a = none) : overlay f (pre ++ patch :: post) a = b := by
  rw [overlay_append, overlay_cons, overlay_of_none hpost]
  exact patched_of_some hb

/-- The value at a point depends on the function at that point only. -/
lemma overlay_congr {g : α → β} (h : f a = g a) : overlay f patches a = overlay g patches a := by
  induction patches generalizing f g with
  | nil => exact h
  | cons patch patches ih =>
    apply ih
    rw [patched, patched, h]

/-- A function of the values can be taken before the patches are laid over. -/
lemma overlay_map {ι γ : Type*} {g : β → γ} {f' : α → γ} {items : List ι} {patch : ι → α → Option β}
    {patch' : ι → α → Option γ} (hf : g (f a) = f' a)
    (hpatch : ∀ i ∈ items, (patch i a).map g = patch' i a) :
    g (overlay f (items.map patch) a) = overlay f' (items.map patch') a := by
  induction items generalizing f f' with
  | nil => exact hf
  | cons i items ih =>
    apply ih
    · rw [patched, patched, ← hpatch i List.mem_cons_self, ← hf]
      cases patch i a <;> rfl
    · exact fun j hj => hpatch j (List.mem_cons_of_mem i hj)

/-- Either no patch covers a point, or there is a last one that does. -/
lemma none_or_last (patches : List (α → Option β)) (a : α) :
    (∀ q ∈ patches, q a = none) ∨ ∃ pre patch post b, patches = pre ++ patch :: post ∧
      patch a = some b ∧ ∀ q ∈ post, q a = none := by
  induction patches with
  | nil => exact Or.inl fun q hq => absurd hq List.not_mem_nil
  | cons patch patches ih =>
    rcases ih with hnone | ⟨pre, last, post, b, heq, hb, hpost⟩
    · cases hpatch : patch a with
      | none => exact Or.inl (List.forall_mem_cons.mpr ⟨hpatch, hnone⟩)
      | some b => exact Or.inr ⟨[], patch, patches, b, rfl, hpatch, hnone⟩
    · exact Or.inr ⟨patch :: pre, last, post, b, by rw [heq]; rfl, hb, hpost⟩

/-- When the function has a property at a point, it still has it behind the patches exactly when
the last patch that covers the point gives it. -/
theorem overlay_iff (hf : P (f a)) : P (overlay f patches a) ↔
    ∀ pre patch post b, patches = pre ++ patch :: post → patch a = some b →
      (∀ q ∈ post, q a = none) → P b := by
  constructor
  · intro h pre patch post b heq hb hpost
    rw [heq, overlay_of_last hb hpost] at h
    exact h
  · intro h
    rcases none_or_last patches a with hnone | ⟨pre, patch, post, b, heq, hb, hpost⟩
    · rw [overlay_of_none hnone]
      exact hf
    · rw [heq, overlay_of_last hb hpost]
      exact h pre patch post b heq hb hpost

end Overlay
