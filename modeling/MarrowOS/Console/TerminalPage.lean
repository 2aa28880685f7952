import MarrowOS.Console.TerminalTheorems
import MarrowOS.Lib.Page

/-!
# What is on the screen

The terminal is a typewriter: a text that fits on the page is on the screen as it stands on the
page, the rest of the screen is blank, and nothing behind the screen has changed
(`terminal_shows_page`). A backspace can be typed within a line only.
-/

namespace MarrowOS

open Runs Typewriter

/-- A character on the page, whose entries are cells of the video buffer. -/
def typeChar (c color : BitVec 8) (p : Page (BitVec 16)) : Page (BitVec 16) :=
  if c = charNewline then p.newline
  else if c = charBackspace then p.rubout
  else p.type vgaWidth (terminalMakeChar c color)

def pageStep (p : Page (BitVec 16)) (c : BitVec 8 × BitVec 8) : Option (Page (BitVec 16)) :=
  some (typeChar c.1 c.2 p)

/-- The page has a line left for the character, and a backspace has something to take back or is
at the very beginning. -/
def FitsPage (p : Page (BitVec 16)) (c : BitVec 8 × BitVec 8) : Prop :=
  p.lines.length < vgaHeight ∧ (c.1 = charBackspace → p.current ≠ [] ∨ p.lines = [])

instance (p : Page (BitVec 16)) (c : BitVec 8 × BitVec 8) : Decidable (FitsPage p c) :=
  inferInstanceAs (Decidable (_ ∧ (_ → _ ∨ _)))

/-- The cell is that of the page; where nothing stands it is a space of any color. -/
def Shows (entry : Option (BitVec 16)) (cell : BitVec 16) : Prop :=
  match entry with
  | some v => cell = v
  | none => cell.setWidth 8 = charSpace

/-- The cursor is where the page is written, the screen shows the page, and behind the screen the
memory is what it was. -/
structure Displays (videoMem : ℕ → BitVec 16) (p : Page (BitVec 16)) (t : Terminal) : Prop where
  row : t.terminalRow.toNat = p.lines.length
  col : t.terminalCol.toNat = p.current.length
  width : p.current.length < vgaWidth
  height : p.lines.length ≤ vgaHeight
  cells : ∀ x < vgaWidth, ∀ y < vgaHeight, Shows (p.cell x y) (t.videoMem (Put.index ⟨x, y⟩))
  outside : ∀ i, vgaWidth * vgaHeight ≤ i → t.videoMem i = videoMem i

variable {videoMem : ℕ → BitVec 16} {p : Page (BitVec 16)} {t t' : Terminal} {c color : BitVec 8}

/-! ## Cells -/

lemma index_inj {x x' y y' : ℕ} (hx : x < vgaWidth) (hx' : x' < vgaWidth)
    (h : Put.index ⟨x, y⟩ = Put.index ⟨x', y'⟩) : x = x' ∧ y = y' := by
  simp only [Put.index, vgaWidth] at hx hx' h
  omega

lemma index_lt {x y : ℕ} (hx : x < vgaWidth) (hy : y < vgaHeight) :
    Put.index ⟨x, y⟩ < vgaWidth * vgaHeight :=
  (Put.onScreen_iff.mpr ⟨hx, hy⟩ : Put.OnScreen ⟨x, y⟩).2.2

/-- The spaces of `terminal_initialize` and of `terminal_backspace`. -/
lemma shows_space : Shows none (terminalMakeChar charSpace 0) ∧
    Shows none (terminalMakeChar charSpace 15) := by
  unfold Shows
  decide

/-- One cell is stored, and the page changes there. -/
lemma cells_update {p' : Page (BitVec 16)} {x y : ℕ} {v : BitVec 16} {entry : Option (BitVec 16)}
    (hx : x < vgaWidth) (hy : y < vgaHeight)
    (hcell : ∀ x' y', p'.cell x' y' = if x' = x ∧ y' = y then entry else p.cell x' y')
    (hentry : Shows entry v) (h : Displays videoMem p t) :
    (∀ x' < vgaWidth, ∀ y' < vgaHeight, Shows (p'.cell x' y')
      (Function.update t.videoMem (Put.index ⟨x, y⟩) v (Put.index ⟨x', y'⟩))) ∧
    ∀ i, vgaWidth * vgaHeight ≤ i →
      Function.update t.videoMem (Put.index ⟨x, y⟩) v i = videoMem i := by
  refine ⟨fun x' hx' y' hy' => ?_, fun i hi => ?_⟩
  · rw [hcell]
    by_cases heq : x' = x ∧ y' = y
    · rw [if_pos heq, heq.1, heq.2, Function.update_self]
      exact hentry
    · rw [if_neg heq, Function.update_of_ne fun hindex => heq (index_inj hx' hx hindex)]
      exact h.cells x' hx' y' hy'
  · rw [Function.update_of_ne (by have := index_lt hx hy; omega)]
    exact h.outside i hi

/-! ## One character -/

lemma terminalWritePrintable_cursor (hcol : t.terminalCol.toNat < vgaWidth)
    (hrow : t.terminalRow.toNat < vgaHeight) :
    (terminalWritePrintable c color t).terminalRow.toNat =
        (if t.terminalCol.toNat + 1 = vgaWidth then t.terminalRow.toNat + 1
        else t.terminalRow.toNat) ∧
      (terminalWritePrintable c color t).terminalCol.toNat =
        if t.terminalCol.toNat + 1 = vgaWidth then 0 else t.terminalCol.toNat + 1 := by
  simp only [vgaWidth, vgaHeight] at hcol hrow ⊢
  by_cases hfull : t.terminalCol.toNat + 1 = 80
  · have hge : (t.terminalCol + 1).toNat ≥ vgaWidth := by
      simp only [vgaWidth]
      bv_omega
    rw [if_pos hfull, if_pos hfull]
    have hwrite : terminalWritePrintable c color t =
        { terminalPutchar t.terminalCol.toNat t.terminalRow.toNat c color t with
          terminalCol := 0, terminalRow := t.terminalRow + 1 } := if_pos hge
    rw [hwrite]
    constructor
    · show (t.terminalRow + 1).toNat = _
      bv_omega
    · rfl
  · rw [if_neg hfull, if_neg hfull, terminalWritePrintable_row (by omega),
      terminalWritePrintable_col hcol, if_neg (by omega)]
    refine ⟨rfl, ?_⟩
    bv_omega

/-- A printable character. -/
lemma Displays.type (h : Displays videoMem p t) (hroom : p.lines.length < vgaHeight) :
    Displays videoMem (p.type vgaWidth (terminalMakeChar c color))
      (terminalWritePrintable c color t) := by
  have hcol : t.terminalCol.toNat < vgaWidth := h.col ▸ h.width
  have hrow : t.terminalRow.toNat < vgaHeight := h.row ▸ hroom
  rcases @terminalWritePrintable_cursor t c color hcol hrow with ⟨hrow', hcol'⟩
  rw [h.row, h.col] at hrow'
  rw [h.col] at hcol'
  have hcells := cells_update h.width hroom (Page.cell_type vgaWidth p (terminalMakeChar c color))
    rfl h
  rw [← h.row, ← h.col, ← terminalWritePrintable_videoMem] at hcells
  refine ⟨?_, ?_, ?_, ?_, hcells.1, hcells.2⟩
  · rw [hrow', Page.type_lines]
  · rw [hcol', Page.type_current]
  · rw [Page.type_current]
    have hwidth := h.width
    split_ifs
    · decide
    · omega
  · rw [Page.type_lines]
    split_ifs
    · exact hroom
    · exact hroom.le

lemma Displays.newline (h : Displays videoMem p t) (hroom : p.lines.length < vgaHeight) :
    Displays videoMem p.newline { t with terminalRow := t.terminalRow + 1, terminalCol := 0 } := by
  have hrow : (t.terminalRow + 1).toNat = t.terminalRow.toNat + 1 := by
    have hlt : t.terminalRow.toNat < 20 := h.row ▸ hroom
    bv_omega
  have hlines : p.newline.lines.length = p.lines.length + 1 := List.length_append
  refine ⟨?_, rfl, Nat.succ_pos _, ?_, fun x hx y hy => ?_, h.outside⟩
  · rw [hlines, ← h.row]
    exact hrow
  · rw [hlines]
    exact hroom
  · rw [Page.cell_newline]
    exact h.cells x hx y hy

/-- A backspace within a line stores a space in front of the cursor. -/
lemma terminalBackspace_within (hcol : t.terminalCol.toNat < vgaWidth)
    (hpos : 0 < t.terminalCol.toNat) :
    (terminalBackspace t).terminalRow = t.terminalRow ∧
      (terminalBackspace t).terminalCol.toNat = t.terminalCol.toNat - 1 ∧
      (terminalBackspace t).videoMem = Function.update t.videoMem
        (Put.index ⟨t.terminalCol.toNat - 1, t.terminalRow.toNat⟩)
        (terminalMakeChar charSpace 15) := by
  have hne : t.terminalCol ≠ 0 := by bv_omega
  have hto : backspaceTo t = { t with terminalCol := t.terminalCol - 1 } := if_neg hne
  simp only [vgaWidth] at hcol
  have hcol' : (backspaceTo t).terminalCol.toNat = t.terminalCol.toNat - 1 := by
    rw [hto]
    bv_omega
  have hlt : (backspaceTo t).terminalCol.toNat < 79 := by omega
  rw [terminalBackspace_eq fun h => hne h.2]
  refine ⟨?_, ?_, ?_⟩
  · show (terminalWritePrintable charSpace 15 (backspaceTo t)).terminalRow = _
    rw [terminalWritePrintable_row hlt, hto]
  · show ((terminalWritePrintable charSpace 15 (backspaceTo t)).terminalCol - 1).toNat = _
    rw [terminalWritePrintable_col (Nat.lt_trans hlt (by decide)), if_neg hlt.ne, ← hcol']
    bv_omega
  · show (terminalWritePrintable charSpace 15 (backspaceTo t)).videoMem = _
    rw [terminalWritePrintable_videoMem, hcol', backspaceTo_videoMem, hto]

lemma Displays.rubout (h : Displays videoMem p t) (hroom : p.lines.length < vgaHeight)
    (hback : p.current ≠ [] ∨ p.lines = []) :
    Displays videoMem p.rubout (terminalBackspace t) := by
  by_cases hempty : p.current = []
  · -- the very beginning
    have hlines : p.lines = [] := hback.resolve_left fun hne => hne hempty
    have hrow : t.terminalRow = 0 := by
      apply BitVec.eq_of_toNat_eq
      rw [h.row, hlines]
      rfl
    have hcol : t.terminalCol = 0 := by
      apply BitVec.eq_of_toNat_eq
      rw [h.col, hempty]
      rfl
    rw [Page.rubout_nil hempty, terminalBackspace, if_pos ⟨hrow, hcol⟩]
    exact h
  · have hpos := List.length_pos_iff.mpr hempty
    have hlength : p.rubout.current.length = p.current.length - 1 := List.length_dropLast
    have hwidth := h.width
    rcases terminalBackspace_within (h.col ▸ h.width) (h.col ▸ hpos) with ⟨hrow', hcol', hmem⟩
    rw [h.col, h.row] at hmem
    have hcells := cells_update (x := p.current.length - 1) (by omega) hroom
      (Page.cell_rubout hempty) shows_space.2 h
    rw [← hmem] at hcells
    refine ⟨?_, ?_, ?_, h.height, hcells.1, hcells.2⟩
    · rw [hrow']
      exact h.row
    · rw [hcol', h.col, hlength]
    · rw [hlength]
      omega

/-- **Step lemma.** -/
lemma Displays.step (h : Displays videoMem p t) (hfits : FitsPage p (c, color)) :
    Displays videoMem (typeChar c color p) (terminalWritechar c color t) := by
  unfold typeChar terminalWritechar
  split_ifs with hnewline hbackspace
  · exact h.newline hfits.1
  · exact h.rubout hfits.1 (hfits.2 hbackspace)
  · exact h.type hfits.1

/-! ## Texts -/

lemma Displays.text (h : Displays videoMem p t) {text : List (BitVec 8 × BitVec 8)}
    (hfits : Meets pageStep FitsPage p text) :
    ∃ p' t', run pageStep p text = some p' ∧ run terminalStep t text = some t' ∧
      Displays videoMem p' t' := by
  induction text generalizing p t with
  | nil => exact ⟨p, t, rfl, rfl, h⟩
  | cons c text ih =>
    rcases ih (h.step hfits.1) (hfits.2 _ rfl) with ⟨p', t', hp, ht, hshows⟩
    exact ⟨p', t', hp, ht, hshows⟩

/-! ## The blank screen -/

lemma clearRow_videoMem (w y i : ℕ) (t : Terminal) :
    ((List.range w).foldl (fun t x => terminalPutchar x y charSpace 0 t) t).videoMem i =
      if y * vgaWidth ≤ i ∧ i < y * vgaWidth + w then terminalMakeChar charSpace 0
      else t.videoMem i := by
  induction w with
  | zero => rw [if_neg (by omega)]; rfl
  | succ w ih =>
    rw [List.range_succ, List.foldl_append, List.foldl_cons, List.foldl_nil]
    show Function.update _ (y * vgaWidth + w) _ i = _
    by_cases hi : i = y * vgaWidth + w
    · rw [hi, Function.update_self, if_pos (by omega)]
    · rw [Function.update_of_ne hi, ih]
      split_ifs <;> first | rfl | omega

lemma clearRows_videoMem (h i : ℕ) (t : Terminal) :
    ((List.range h).foldl (fun t y =>
      (List.range vgaWidth).foldl (fun t x => terminalPutchar x y charSpace 0 t) t) t).videoMem i =
      if i < vgaWidth * h then terminalMakeChar charSpace 0 else t.videoMem i := by
  induction h with
  | zero => rw [if_neg (by omega)]; rfl
  | succ h ih =>
    rw [@List.range_succ h, List.foldl_append, List.foldl_cons, List.foldl_nil, clearRow_videoMem,
      ih]
    simp only [vgaWidth]
    split_ifs <;> first | rfl | omega

lemma displays_blank (videoMem : ℕ → BitVec 16) :
    Displays videoMem Page.empty (terminalInitialize videoMem) := by
  rcases terminalInitialize_spec videoMem with ⟨-, hrow, hcol⟩
  have hmem : ∀ i, (terminalInitialize videoMem).videoMem i =
      if i < vgaWidth * vgaHeight then terminalMakeChar charSpace 0 else videoMem i := fun i =>
    clearRows_videoMem vgaHeight i _
  refine ⟨?_, ?_, Nat.succ_pos _, Nat.zero_le _, fun x hx y hy => ?_, fun i hi => ?_⟩
  · rw [hrow]
    rfl
  · rw [hcol]
    rfl
  · rw [hmem, if_pos (index_lt hx hy), Page.cell_empty]
    exact shows_space.1
  · rw [hmem, if_neg (not_lt.mpr hi)]

/-- **The screen** shows what a typewriter would have written: after a text that fits on the page,
every cell of the screen is that of the page or blank, the cursor is where the page goes on, and
the memory behind the screen is what it was. -/
theorem terminal_shows_page (videoMem : ℕ → BitVec 16) {text : List (BitVec 8 × BitVec 8)}
    (hfits : Meets pageStep FitsPage Page.empty text) :
    ∃ p t, run pageStep Page.empty text = some p ∧
      run terminalStep (terminalInitialize videoMem) text = some t ∧ Displays videoMem p t :=
  (displays_blank videoMem).text hfits

/-- Two letters of which one is taken back, on two lines. -/
theorem terminal_shows_page_two : ∃ p t,
    run pageStep Page.empty [(0x41, 15), (0x42, 15), (charBackspace, 15), (charNewline, 15),
      (0x43, 15)] = some p ∧
    run terminalStep (terminalInitialize fun _ => 0) [(0x41, 15), (0x42, 15), (charBackspace, 15),
      (charNewline, 15), (0x43, 15)] = some t ∧ Displays (fun _ => 0) p t := by
  refine terminal_shows_page (fun _ => 0) ⟨by decide, fun p₁ h₁ => ⟨?_, fun p₂ h₂ => ⟨?_,
    fun p₃ h₃ => ⟨?_, fun p₄ h₄ => ⟨?_, fun _ _ => trivial⟩⟩⟩⟩⟩
  all_goals
    cases h₁
    try cases h₂
    try cases h₃
    try cases h₄
    decide

end MarrowOS
