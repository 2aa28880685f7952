import MarrowOS.Console.Terminal
import MarrowOS.Lib.Runs

/-!
# Where the terminal writes

`OnScreen` says that every store went to a cell of the video buffer. Nothing stops the cursor at
the last row, and a backspace at the start of a row leaves it in column 65535: the space it
erases with wraps the cursor to the row below, and the column is decremented once more. A text
stays on the screen exactly when it runs into neither (`onScreen_throughout_iff`).
-/

namespace MarrowOS

open Runs

/-- A store to the video buffer. -/
def Put.OnScreen (p : Put) : Prop :=
  p.x < vgaWidth ∧ p.y < vgaHeight ∧ p.index < vgaWidth * vgaHeight

/-- Every store so far went to the video buffer. -/
def OnScreen (t : Terminal) : Prop := ∀ p ∈ t.puts, p.OnScreen

/-- The text stays off the rows below the last one, but for newlines, and no backspace at the
start of a row, which leaves column 65535, is followed on its row. -/
def StaysOnScreen (t : Terminal) (c : BitVec 8 × BitVec 8) : Prop :=
  if c.1 = charNewline then True
  else if c.1 = charBackspace ∧ t.terminalCol = 0 then t.terminalRow.toNat ≤ vgaHeight
  else t.terminalCol ≠ 65535 ∧ t.terminalRow.toNat < vgaHeight

/-- The stores are on the screen, and the cursor is in a column of it or where a backspace at the
start of a row leaves it. -/
structure TerminalInv (t : Terminal) : Prop where
  onScreen : OnScreen t
  col : t.terminalCol.toNat < vgaWidth ∨ t.terminalCol = 65535

lemma Put.onScreen_iff {p : Put} : p.OnScreen ↔ p.x < vgaWidth ∧ p.y < vgaHeight := by
  constructor
  · rintro ⟨hx, hy, -⟩
    exact ⟨hx, hy⟩
  · rintro ⟨hx, hy⟩
    refine ⟨hx, hy, ?_⟩
    show p.y * vgaWidth + p.x < vgaWidth * vgaHeight
    simp only [vgaWidth, vgaHeight] at hx hy ⊢
    omega

variable {t : Terminal} {c color : BitVec 8}

/-! ## One character -/

lemma onScreen_of_puts_cons {t' : Terminal} {p : Put} (h : OnScreen t)
    (hputs : t'.puts = p :: t.puts)
    (hp : p.OnScreen) : OnScreen t' := by
  intro q hq
  rw [hputs] at hq
  rcases List.mem_cons.mp hq with rfl | hq
  · exact hp
  · exact h q hq

lemma terminalWritePrintable_puts (c color : BitVec 8) (t : Terminal) :
    (terminalWritePrintable c color t).puts =
      ⟨t.terminalCol.toNat, t.terminalRow.toNat⟩ :: t.puts := by
  show (if (t.terminalCol + 1).toNat ≥ vgaWidth then _ else _ : Terminal).puts = _
  split <;> rfl

/-- A printable character written in column `79` moves the cursor to the next row. -/
lemma terminalWritePrintable_col (hcol : t.terminalCol.toNat < vgaWidth) :
    (terminalWritePrintable c color t).terminalCol =
      if t.terminalCol.toNat = 79 then 0 else t.terminalCol + 1 := by
  have hsucc : (t.terminalCol + 1).toNat = t.terminalCol.toNat + 1 := by
    simp only [vgaWidth] at hcol
    bv_omega
  show (if (t.terminalCol + 1).toNat ≥ vgaWidth then _ else _ : Terminal).terminalCol = _
  rw [hsucc]
  simp only [vgaWidth] at hcol ⊢
  by_cases h79 : t.terminalCol.toNat = 79
  · rw [if_pos h79, if_pos (by omega)]
  · rw [if_neg h79, if_neg (by omega)]
    rfl

/-- Where a backspace goes: to the last column of the row above from the start of a row. -/
def backspaceTo (t : Terminal) : Terminal :=
  if t.terminalCol = 0 then
    { t with terminalRow := t.terminalRow - 1, terminalCol := BitVec.ofNat 16 vgaWidth - 1 }
  else { t with terminalCol := t.terminalCol - 1 }

lemma terminalBackspace_eq (h : ¬ (t.terminalRow = 0 ∧ t.terminalCol = 0)) :
    terminalBackspace t =
      let t' := terminalWritePrintable charSpace 15 (backspaceTo t)
      { t' with terminalCol := t'.terminalCol - 1 } := by
  unfold terminalBackspace backspaceTo
  rw [if_neg h]
  by_cases hcol : t.terminalCol = 0
  · rw [if_pos hcol, if_pos hcol]
  · rw [if_neg hcol, if_neg hcol]

lemma backspaceTo_puts (t : Terminal) : (backspaceTo t).puts = t.puts := by
  unfold backspaceTo
  split <;> rfl

lemma terminalBackspace_puts (h : ¬ (t.terminalRow = 0 ∧ t.terminalCol = 0)) :
    (terminalBackspace t).puts =
      ⟨(backspaceTo t).terminalCol.toNat, (backspaceTo t).terminalRow.toNat⟩ :: t.puts := by
  rw [terminalBackspace_eq h]
  show (terminalWritePrintable charSpace 15 (backspaceTo t)).puts = _
  rw [terminalWritePrintable_puts, backspaceTo_puts]

/-- A backspace at the start of a row stays on the row, in a column off the screen. -/
lemma terminalBackspace_row_start (hrow : t.terminalRow ≠ 0) (hcol : t.terminalCol = 0) :
    (terminalBackspace t).terminalCol = 65535 ∧
      (terminalBackspace t).terminalRow = t.terminalRow := by
  have hto : backspaceTo t = { t with terminalRow := t.terminalRow - 1, terminalCol := 79 } := by
    rw [backspaceTo, if_pos hcol]
    rfl
  -- the space in the last column wraps the cursor, and the column goes below `0`
  have hwrap : ∀ u : Terminal, u.terminalCol = 79 →
      (terminalWritePrintable charSpace 15 u).terminalCol = 0 ∧
        (terminalWritePrintable charSpace 15 u).terminalRow = u.terminalRow + 1 := by
    intro u hu
    have hge : (u.terminalCol + 1).toNat ≥ vgaWidth := by
      rw [hu]
      decide
    have hwrite : terminalWritePrintable charSpace 15 u =
        { terminalPutchar u.terminalCol.toNat u.terminalRow.toNat charSpace 15 u with
          terminalCol := 0, terminalRow := u.terminalRow + 1 } := if_pos hge
    rw [hwrite]
    exact ⟨rfl, rfl⟩
  rcases hwrap (backspaceTo t) (by rw [hto]) with ⟨hcol', hrow'⟩
  rw [terminalBackspace_eq (fun h => hrow h.1)]
  constructor
  · show (terminalWritePrintable charSpace 15 (backspaceTo t)).terminalCol - 1 = 65535
    rw [hcol']
    decide
  · show (terminalWritePrintable charSpace 15 (backspaceTo t)).terminalRow = t.terminalRow
    rw [hrow', hto]
    show t.terminalRow - 1 + 1 = t.terminalRow
    bv_omega

lemma terminalWritePrintable_videoMem (c color : BitVec 8) (t : Terminal) :
    (terminalWritePrintable c color t).videoMem =
      Function.update t.videoMem (Put.index ⟨t.terminalCol.toNat, t.terminalRow.toNat⟩)
        (terminalMakeChar c color) := by
  show (if (t.terminalCol + 1).toNat ≥ vgaWidth then _ else _ : Terminal).videoMem = _
  split <;> rfl

lemma backspaceTo_videoMem (t : Terminal) : (backspaceTo t).videoMem = t.videoMem := by
  unfold backspaceTo
  split <;> rfl

/-! ## The invariant -/

/-- A step that meets the condition keeps the invariant. -/
lemma TerminalInv.step (h : TerminalInv t) (c : BitVec 8 × BitVec 8) (hc : StaysOnScreen t c) :
    TerminalInv (terminalWritechar c.1 c.2 t) := by
  unfold StaysOnScreen at hc
  unfold terminalWritechar
  by_cases hn : c.1 = charNewline
  · rw [if_pos hn]
    exact ⟨h.onScreen, Or.inl (by show (0 : BitVec 16).toNat < vgaWidth; decide)⟩
  rw [if_neg hn] at hc ⊢
  by_cases hb : c.1 = charBackspace
  · rw [if_pos hb]
    simp only [hb, true_and] at hc
    by_cases hstart : t.terminalRow = 0 ∧ t.terminalCol = 0
    · rw [terminalBackspace, if_pos hstart]
      exact h
    by_cases hcol : t.terminalCol = 0
    · -- up to the last column of the row above, and back below the first one
      rw [if_pos hcol] at hc
      have hrow : t.terminalRow ≠ 0 := fun h0 => hstart ⟨h0, hcol⟩
      refine ⟨onScreen_of_puts_cons h.onScreen (terminalBackspace_puts hstart) ?_, Or.inr ?_⟩
      · rw [backspaceTo, if_pos hcol, Put.onScreen_iff]
        refine ⟨by show (BitVec.ofNat 16 vgaWidth - 1).toNat < vgaWidth; decide, ?_⟩
        show (t.terminalRow - 1).toNat < vgaHeight
        simp only [vgaHeight] at hc ⊢
        bv_omega
      · exact (terminalBackspace_row_start hrow hcol).1
    · rw [if_neg hcol] at hc
      -- back inside the row: the space goes where the cursor was, and the cursor one further left
      rcases hc with ⟨hne, hrow⟩
      have hlt := h.col.resolve_right hne
      simp only [vgaWidth] at hlt
      have hto : backspaceTo t = { t with terminalCol := t.terminalCol - 1 } := by
        rw [backspaceTo, if_neg hcol]
      have hpred : (t.terminalCol - 1).toNat = t.terminalCol.toNat - 1 := by bv_omega
      have hpos : t.terminalCol.toNat ≠ 0 := by
        intro h0
        exact hcol (BitVec.eq_of_toNat_eq h0)
      have hlt' : (backspaceTo t).terminalCol.toNat < vgaWidth := by
        rw [hto]
        show (t.terminalCol - 1).toNat < vgaWidth
        simp only [vgaWidth]
        omega
      refine ⟨onScreen_of_puts_cons h.onScreen (terminalBackspace_puts hstart) ?_, Or.inl ?_⟩
      · rw [Put.onScreen_iff]
        refine ⟨hlt', ?_⟩
        rw [hto]
        exact hrow
      · rw [terminalBackspace_eq hstart]
        show ((terminalWritePrintable charSpace 15 (backspaceTo t)).terminalCol - 1).toNat <
          vgaWidth
        rw [terminalWritePrintable_col hlt', hto]
        show ((if (t.terminalCol - 1).toNat = 79 then 0 else t.terminalCol - 1 + 1) - 1).toNat <
          vgaWidth
        rw [if_neg (by omega)]
        simp only [vgaWidth]
        bv_omega
  · -- any other character is put where the cursor is, and that is not column 65535
    rw [if_neg hb]
    rw [if_neg (fun h' => hb h'.1)] at hc
    rcases hc with ⟨hne, hrow⟩
    have hlt := h.col.resolve_right hne
    refine ⟨onScreen_of_puts_cons h.onScreen (terminalWritePrintable_puts _ _ _) ?_, Or.inl ?_⟩
    · exact Put.onScreen_iff.mpr ⟨hlt, hrow⟩
    · rw [terminalWritePrintable_col hlt]
      simp only [vgaWidth] at hlt ⊢
      split
      · decide
      · bv_omega

/-- A step that does not meet the condition stores off the screen. -/
lemma not_onScreen_of_not_staysOnScreen (c : BitVec 8 × BitVec 8)
    (hc : ¬ StaysOnScreen t c) : ¬ OnScreen (terminalWritechar c.1 c.2 t) := by
  unfold StaysOnScreen at hc
  unfold terminalWritechar
  by_cases hn : c.1 = charNewline
  · rw [if_pos hn] at hc
    exact absurd trivial hc
  rw [if_neg hn] at hc ⊢
  intro hon
  by_cases hb : c.1 = charBackspace
  · rw [if_pos hb] at hon
    simp only [hb, true_and] at hc
    have hstart : ¬ (t.terminalRow = 0 ∧ t.terminalCol = 0) := by
      rintro ⟨hrow, hcol⟩
      rw [if_pos hcol, hrow] at hc
      exact hc (Nat.zero_le _)
    -- the space that a backspace puts is the newest put
    have hput := hon _ (by rw [terminalBackspace_puts hstart]; exact List.mem_cons_self)
    rw [Put.onScreen_iff] at hput
    by_cases hcol : t.terminalCol = 0
    · rw [if_pos hcol] at hc
      have hrow : (t.terminalRow - 1).toNat < vgaHeight := by
        have hrow := hput.2
        rwa [backspaceTo, if_pos hcol] at hrow
      simp only [vgaHeight] at hc hrow
      bv_omega
    · rw [if_neg hcol] at hc
      rw [backspaceTo, if_neg hcol] at hput
      rcases hput with ⟨hlt, hrow⟩
      refine hc ⟨?_, hrow⟩
      intro h65535
      rw [h65535] at hlt
      exact absurd hlt (by show ¬ (65535 - 1 : BitVec 16).toNat < vgaWidth; decide)
  · -- the character itself
    rw [if_neg hb] at hon
    rw [if_neg (fun h' => hb h'.1)] at hc
    have hput := hon _ (by rw [terminalWritePrintable_puts]; exact List.mem_cons_self)
    rw [Put.onScreen_iff] at hput
    rcases hput with ⟨hlt, hrow⟩
    refine hc ⟨?_, hrow⟩
    intro h65535
    rw [h65535] at hlt
    exact absurd hlt (by show ¬ (65535 : BitVec 16).toNat < vgaWidth; decide)

/-! ## Runs -/

lemma terminalPutchar_onScreen {x y : ℕ} (hx : x < vgaWidth) (hy : y < vgaHeight)
    (h : OnScreen t) : OnScreen (terminalPutchar x y c color t) :=
  onScreen_of_puts_cons h rfl (Put.onScreen_iff.mpr ⟨hx, hy⟩)

/-- Clearing the screen stays on it and leaves the cursor at its start. -/
lemma terminalInitialize_spec (videoMem : ℕ → BitVec 16) :
    OnScreen (terminalInitialize videoMem) ∧ (terminalInitialize videoMem).terminalRow = 0 ∧
      (terminalInitialize videoMem).terminalCol = 0 := by
  let Cleared (t : Terminal) : Prop := OnScreen t ∧ t.terminalRow = 0 ∧ t.terminalCol = 0
  show Cleared (terminalInitialize videoMem)
  apply List.foldlRecOn (motive := Cleared)
  · refine ⟨?_, rfl, rfl⟩
    intro p hp
    exact absurd hp List.not_mem_nil
  intro t ht y hy
  apply List.foldlRecOn (motive := Cleared) _ _ ht
  intro t ht x hx
  exact ⟨terminalPutchar_onScreen (List.mem_range.mp hx) (List.mem_range.mp hy) ht.1, ht.2⟩

lemma terminalInitialize_inv (videoMem : ℕ → BitVec 16) :
    TerminalInv (terminalInitialize videoMem) := by
  rcases terminalInitialize_spec videoMem with ⟨hon, -, hcol⟩
  refine ⟨hon, Or.inl ?_⟩
  rw [hcol]
  decide

/-- From a terminal in the invariant, of the texts those that meet the condition stay on the
screen. -/
lemma TerminalInv.throughout_iff (h : TerminalInv t) (text : List (BitVec 8 × BitVec 8)) :
    Throughout terminalStep OnScreen t text ↔ Meets terminalStep StaysOnScreen t text := by
  have hsome : (run terminalStep t text).isSome := by
    rcases @run_isSome_of_step _ _ terminalStep (fun _ => True)
      (fun t c _ => ⟨terminalWritechar c.1 c.2 t, rfl, trivial⟩) t trivial text with ⟨u, hu, -⟩
    rw [hu]
    rfl
  have hiff := @isSome_and_throughout_iff_meets _ _ terminalStep TerminalInv OnScreen
    (fun _ _ => True) StaysOnScreen
    (fun _ h => h.onScreen)
    (fun t c h _ hc => ⟨terminalWritechar c.1 c.2 t, rfl, h.step c hc⟩)
    (fun t c t' _ _ hc ht' => by
      rw [← Option.some.inj ht']
      exact not_onScreen_of_not_staysOnScreen c hc)
    t text h (meets_of_forall (fun _ _ => trivial) _ text)
  exact ⟨fun h => hiff.mp ⟨hsome, h⟩, fun h => (hiff.mpr h).2⟩

/-- **Terminal.** The texts that are written to the screen alone are those that never print or
erase below its last row and write nothing but a newline after a backspace at the start of a
row. -/
theorem onScreen_throughout_iff (videoMem : ℕ → BitVec 16) (text : List (BitVec 8 × BitVec 8)) :
    Throughout terminalStep OnScreen (terminalInitialize videoMem) text ↔
      Meets terminalStep StaysOnScreen (terminalInitialize videoMem) text :=
  (terminalInitialize_inv videoMem).throughout_iff text

/-- A backspace at the start of the second row and then a letter. -/
theorem backspace_at_row_start_leaves_screen :
    ¬ ∀ (videoMem : ℕ → BitVec 16) (text : List (BitVec 8 × BitVec 8)),
      Throughout terminalStep OnScreen (terminalInitialize videoMem) text := by
  intro h
  have hrun := h (fun _ => 0) [(charNewline, 15), (charBackspace, 15), (0x41, 15)]
  rcases terminalInitialize_spec fun _ => 0 with ⟨-, hrow, hcol⟩
  generalize terminalInitialize (fun _ => 0) = t at hrun hrow hcol
  have hput : ⟨65535, 1⟩ ∈ (terminalWritechar 0x41 15 (terminalWritechar charBackspace 15
      (terminalWritechar charNewline 15 t))).puts := by
    rcases t with ⟨videoMem, row, col, puts⟩
    subst hrow hcol
    rcases terminalBackspace_row_start (t := ⟨videoMem, 1, 0, puts⟩)
      (by show (1 : BitVec 16) ≠ 0; decide) rfl with ⟨hcol, hrow⟩
    show _ ∈ (terminalWritePrintable 0x41 15 (terminalBackspace ⟨videoMem, 1, 0, puts⟩)).puts
    rw [terminalWritePrintable_puts, hcol, hrow]
    exact List.mem_cons_self
  exact absurd (hrun.last rfl _ hput).1 (by decide)

/-- `print` is a run of `terminal_writechar`. -/
lemma run_print (str : List (BitVec 8)) (t : Terminal) :
    run terminalStep t (str.map fun c => (c, 15)) = some (print str t) := by
  induction str generalizing t with
  | nil => rfl
  | cons c str ih => exact run_cons.mpr ⟨_, rfl, ih _⟩

/-! ## What the stores touch -/

/-- A character stores nothing, or to one cell that `puts` names afterwards. -/
lemma terminalWritechar_store (c color : BitVec 8) (t : Terminal) :
    ((terminalWritechar c color t).puts = t.puts ∧
        (terminalWritechar c color t).videoMem = t.videoMem) ∨
      ∃ p cell, (terminalWritechar c color t).puts = p :: t.puts ∧
        (terminalWritechar c color t).videoMem = Function.update t.videoMem p.index cell := by
  unfold terminalWritechar
  split
  · exact Or.inl ⟨rfl, rfl⟩
  split
  · by_cases hstart : t.terminalRow = 0 ∧ t.terminalCol = 0
    · rw [terminalBackspace, if_pos hstart]
      exact Or.inl ⟨rfl, rfl⟩
    · right
      refine ⟨_, terminalMakeChar charSpace 15, terminalBackspace_puts hstart, ?_⟩
      rw [terminalBackspace_eq hstart]
      show (terminalWritePrintable charSpace 15 (backspaceTo t)).videoMem = _
      rw [terminalWritePrintable_videoMem, backspaceTo_videoMem]
  · exact Or.inr ⟨_, _, terminalWritePrintable_puts c color t,
      terminalWritePrintable_videoMem c color t⟩

/-- The text changes no cell but those that `puts` names. -/
theorem videoMem_frame {i : ℕ} (text : List (BitVec 8 × BitVec 8)) {t t' : Terminal}
    (hrun : run terminalStep t text = some t') (hi : ∀ p ∈ t'.puts, p.index ≠ i) :
    t'.videoMem i = t.videoMem i ∧ ∀ p ∈ t.puts, p.index ≠ i := by
  induction text generalizing t with
  | nil =>
    obtain rfl : t = t' := Option.some.inj hrun
    exact ⟨rfl, hi⟩
  | cons c text ih =>
    rcases run_cons.mp hrun with ⟨u, hu, hrest⟩
    rcases ih hrest with ⟨hmem, hputs⟩
    rw [← Option.some.inj hu] at hmem hputs
    rcases terminalWritechar_store c.1 c.2 t with ⟨hp, hv⟩ | ⟨p, cell, hp, hv⟩
    · rw [hv] at hmem
      rw [hp] at hputs
      exact ⟨hmem, hputs⟩
    · rw [hp] at hputs
      rw [hv, Function.update_of_ne (hputs p List.mem_cons_self).symm] at hmem
      exact ⟨hmem, fun q hq => hputs q (List.mem_cons_of_mem _ hq)⟩

/-! ## Backspace after a character -/

/-- The character and the backspace leave the cursor where it was, a space in its cell and every
other cell alone. -/
def BackspaceUndoes (t : Terminal) (c color color' : BitVec 8) : Prop :=
  let t' := terminalWritechar charBackspace color' (terminalWritechar c color t)
  t'.terminalRow = t.terminalRow ∧ t'.terminalCol = t.terminalCol ∧
    t'.videoMem = Function.update t.videoMem
      (Put.index ⟨t.terminalCol.toNat, t.terminalRow.toNat⟩) (terminalMakeChar charSpace 15)

/-- A printable character in front of the last column stays on its row. -/
lemma terminalWritePrintable_row (hcol : t.terminalCol.toNat < 79) :
    (terminalWritePrintable c color t).terminalRow = t.terminalRow := by
  have hlt : ¬ (t.terminalCol + 1).toNat ≥ vgaWidth := by
    simp only [vgaWidth]
    bv_omega
  show (if (t.terminalCol + 1).toNat ≥ vgaWidth then _ else _ : Terminal).terminalRow = _
  rw [if_neg hlt]
  rfl

/-- A backspace behind the first column erases the cell in front of the cursor. -/
lemma terminalBackspace_of_pos (hpos : 0 < t.terminalCol.toNat) (hcol : t.terminalCol.toNat < 80) :
    (terminalBackspace t).terminalRow = t.terminalRow ∧
      (terminalBackspace t).terminalCol = t.terminalCol - 1 ∧
      (terminalBackspace t).videoMem = Function.update t.videoMem
        (Put.index ⟨(t.terminalCol - 1).toNat, t.terminalRow.toNat⟩)
        (terminalMakeChar charSpace 15) := by
  have hne : t.terminalCol ≠ 0 := by
    intro h0
    rw [h0] at hpos
    exact absurd hpos (by decide)
  have hpred : (t.terminalCol - 1).toNat = t.terminalCol.toNat - 1 := by bv_omega
  have hto : backspaceTo t = { t with terminalCol := t.terminalCol - 1 } := if_neg hne
  have hlt : (backspaceTo t).terminalCol.toNat < 79 := by
    rw [hto, hpred]
    omega
  rw [terminalBackspace_eq fun h => hne h.2]
  refine ⟨?_, ?_, ?_⟩
  · show (terminalWritePrintable charSpace 15 (backspaceTo t)).terminalRow = t.terminalRow
    rw [terminalWritePrintable_row hlt, hto]
  · show (terminalWritePrintable charSpace 15 (backspaceTo t)).terminalCol - 1 = t.terminalCol - 1
    have hwidth : (backspaceTo t).terminalCol.toNat < vgaWidth := Nat.lt_trans hlt (by decide)
    rw [terminalWritePrintable_col hwidth, if_neg (Nat.ne_of_lt hlt), hto]
    show t.terminalCol - 1 + 1 - 1 = t.terminalCol - 1
    bv_omega
  · show (terminalWritePrintable charSpace 15 (backspaceTo t)).videoMem = _
    rw [terminalWritePrintable_videoMem, hto]

/-- **Backspace.** A backspace undoes a printable character in every column but the last: from
there the character wraps the cursor to the next row, and the backspace leaves it on that row. -/
theorem backspaceUndoes_iff (color' : BitVec 8) (hcol : t.terminalCol.toNat < vgaWidth)
    (hnewline : c ≠ charNewline) (hbackspace : c ≠ charBackspace) :
    BackspaceUndoes t c color color' ↔ t.terminalCol.toNat ≠ 79 := by
  simp only [vgaWidth] at hcol
  have hwrite : terminalWritechar c color t = terminalWritePrintable c color t := by
    rw [terminalWritechar, if_neg hnewline, if_neg hbackspace]
  have hback : ∀ u, terminalWritechar charBackspace color' u = terminalBackspace u := fun _ => rfl
  have hcol' := @terminalWritePrintable_col t c color hcol
  simp only [BackspaceUndoes, hback, hwrite]
  constructor
  · -- from the last column the cursor ends in column 65535, or stays at the start of the screen
    rintro ⟨-, hsame, -⟩ h79
    rw [if_pos h79] at hcol'
    by_cases hrow : (terminalWritePrintable c color t).terminalRow = 0
    · rw [terminalBackspace, if_pos ⟨hrow, hcol'⟩, hcol'] at hsame
      rw [← hsame] at h79
      exact absurd h79 (by decide)
    · rw [(terminalBackspace_row_start hrow hcol').1] at hsame
      rw [← hsame] at h79
      exact absurd h79 (by decide)
  · intro h79
    -- in any other column the cursor goes forth and back inside the row
    have hlt : t.terminalCol.toNat < 79 := by omega
    rw [if_neg h79] at hcol'
    have hsucc : (t.terminalCol + 1).toNat = t.terminalCol.toNat + 1 := by bv_omega
    have hsame : t.terminalCol + 1 - 1 = t.terminalCol := by bv_omega
    rcases @terminalBackspace_of_pos (terminalWritePrintable c color t)
      (by rw [hcol', hsucc]; omega) (by rw [hcol', hsucc]; omega) with ⟨hrow, hback, hmem⟩
    refine ⟨?_, ?_, ?_⟩
    · rw [hrow, terminalWritePrintable_row hlt]
    · rw [hback, hcol', hsame]
    · rw [hmem, hcol', hsame, terminalWritePrintable_row hlt, terminalWritePrintable_videoMem,
        Function.update_idem]

/-- An `A` in the first cell and a backspace. -/
theorem backspaceUndoes_first_cell : BackspaceUndoes ⟨fun _ => 0, 0, 0, []⟩ 0x41 15 15 :=
  (backspaceUndoes_iff 15 (by decide) (by decide) (by decide)).mpr (by decide)

/-- An `A` in the last column of the first row and a backspace. -/
theorem not_backspaceUndoes : ¬ ∀ (t : Terminal) (c color color' : BitVec 8),
    t.terminalCol.toNat < vgaWidth → t.terminalRow.toNat < 19 → c ≠ charNewline →
    c ≠ charBackspace → BackspaceUndoes t c color color' := by
  intro h
  have hundoes := h ⟨fun _ => 0, 0, 79, []⟩ 0x41 15 15 (by decide) (by decide) (by decide)
    (by decide)
  exact absurd hundoes.2.1 (by decide)

end MarrowOS
