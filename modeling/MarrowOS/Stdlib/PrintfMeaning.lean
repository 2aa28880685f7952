import MarrowOS.Stdlib.FormatLanguage
import MarrowOS.Stdlib.PrintfTheorems

/-!
# `printf` interprets its format

On a format that is not cut short `printf` prints the meaning of the one list of directives that the
string writes down, and takes its arguments word by word (`printf_interprets`). With arguments that
fit the directives these are the texts that were meant (`printf_prints`).
-/

namespace MarrowOS

open ByteMem CInt Fallible

variable {stack mem : Mem} {s s' : Printf} {n p : ℕ} {c : UInt8} {w : CString}

/-! ## One directive -/

/-- The computation ends, prints the pieces, leaves the arguments and reads nothing. -/
def Emits (x : Except Fault Printf) (s : Printf) (out : List Printed × List UInt32) : Prop :=
  ∃ s', x = .ok s' ∧ s'.printed = out.1.reverse ++ s.printed ∧ s'.ap = out.2 ∧ s'.reads = s.reads

lemma printfInt_emits (s : Printf) : Emits (printfInt s) s
    ([.chars (intNumeral (i32 (takeWord s.ap).1))], (takeWord s.ap).2) := by
  have hrange := i32_range (takeWord s.ap).1
  have hval : s.vaArg = ((takeWord s.ap).1, { s with ap := (takeWord s.ap).2 }) := rfl
  unfold printfInt
  simp only [hval]
  generalize i32 (takeWord s.ap).1 = v at hrange ⊢
  rcases itoa_eq hrange.1 hrange.2 s.text with ⟨loc, text', hitoa, hlength, hstring⟩
  have hread : readString text' (12 - loc) loc = intNumeral v := by
    rw [hstring.readString, List.take_of_length_le (by omega)]
  simp only [hitoa, ok_bind, hread]
  exact ⟨_, rfl, rfl, rfl, rfl⟩

lemma printfUint_emits {base : ℕ} (hbase : 8 ≤ base) (hbase' : base ≤ 16) (upper : Bool)
    (s : Printf) : Emits (printfUint stack base upper s) s
      ([.chars (natNumeral base upper (takeWord s.ap).1)], (takeWord s.ap).2) := by
  unfold printfUint
  simp only [printUint_eq (vaArg_lt s) hbase hbase', ok_bind]
  exact ⟨_, rfl, rfl, rfl, rfl⟩

/-- The two words of a `long long`. -/
lemma vaArg64_eq (s : Printf) : s.vaArg64 =
    ((takeWords .longLong s.ap).1, { s with ap := (takeWords .longLong s.ap).2 }) := rfl

lemma printfLl_emits (s : Printf) : Emits (printfLl stack s) s
    ([.chars (intNumeral (Int.bmod (takeWords .longLong s.ap).1 (2 ^ 64)))],
      (takeWords .longLong s.ap).2) := by
  have hlo := Int.le_bmod (x := (takeWords .longLong s.ap).1) (m := 2 ^ 64) (by decide)
  have hhi := Int.bmod_lt (x := (takeWords .longLong s.ap).1) (m := 2 ^ 64) (by decide)
  have hprint := printLl_eq (v := Int.bmod (takeWords .longLong s.ap).1 (2 ^ 64)) (by omega)
    (by omega) stack
  unfold printfLl
  simp only [vaArg64_eq, hprint, ok_bind]
  exact ⟨_, rfl, rfl, rfl, rfl⟩

lemma printfUll_emits {base : ℕ} (hbase : 8 ≤ base) (hbase' : base ≤ 16) (upper : Bool)
    (s : Printf) : Emits (printfUll stack base upper s) s
      ([.chars (natNumeral base upper (takeWords .longLong s.ap).1)],
        (takeWords .longLong s.ap).2) := by
  unfold printfUll
  simp only [printUll_eq (vaArg64_lt s) hbase hbase', ok_bind]
  exact ⟨_, rfl, rfl, rfl, rfl⟩

/-- The conversions of integers, whatever the length; the other letters are left to the last
function. -/
lemma printfConversion_emits {signed otherwise : Printf → Except Fault Printf}
    {unsigned : ℕ → Bool → Printf → Except Fault Printf} {length : FormatLength}
    (hsigned : Emits (signed s) s
      ([.chars (intNumeral (Int.bmod (takeWords length s.ap).1 (2 ^ length.bits)))],
        (takeWords length s.ap).2))
    (hunsigned : ∀ base upper, 8 ≤ base → base ≤ 16 → Emits (unsigned base upper s) s
      ([.chars (natNumeral base upper (takeWords length s.ap).1)], (takeWords length s.ap).2))
    (hotherwise : conversionOf length c =
        (if length ≠ .short then .verbatim else if c = 0x73 then .str
        else if c = 0x63 then .char else if c = 0x70 then .pointer else .verbatim) →
      Emits (otherwise s) s ((Directive.conversion length c).meaning s.ap)) :
    Emits (printfConversion signed unsigned otherwise c s) s
      ((Directive.conversion length c).meaning s.ap) := by
  unfold printfConversion
  by_cases hd : c = 0x64 ∨ c = 0x69
  · rw [if_pos hd, Directive.meaning]
    simp only [conversionOf, if_pos hd]
    exact hsigned
  by_cases hu : c = 0x75
  · rw [if_neg hd, if_pos hu, Directive.meaning]
    simp only [conversionOf, if_neg hd, if_pos hu]
    exact hunsigned 10 false (by decide) (by decide)
  by_cases hx : c = 0x78
  · rw [if_neg hd, if_neg hu, if_pos hx, Directive.meaning]
    simp only [conversionOf, if_neg hd, if_neg hu, if_pos hx]
    exact hunsigned 16 false (by decide) (by decide)
  by_cases hX : c = 0x58
  · rw [if_neg hd, if_neg hu, if_neg hx, if_pos hX, Directive.meaning]
    simp only [conversionOf, if_neg hd, if_neg hu, if_neg hx, if_pos hX]
    exact hunsigned 16 true (by decide) (by decide)
  by_cases ho : c = 0x6F
  · rw [if_neg hd, if_neg hu, if_neg hx, if_neg hX, if_pos ho, Directive.meaning]
    simp only [conversionOf, if_neg hd, if_neg hu, if_neg hx, if_neg hX, if_pos ho]
    exact hunsigned 8 false (by decide) (by decide)
  rw [if_neg hd, if_neg hu, if_neg hx, if_neg hX, if_neg ho]
  apply hotherwise
  unfold conversionOf
  rw [if_neg hd, if_neg hu, if_neg hx, if_neg hX, if_neg ho]

/-- A letter that is no conversion stands for itself. -/
lemma verbatim_emits {length : FormatLength} (h : conversionOf length c = .verbatim) (s : Printf) :
    Emits (.ok (s.put [c])) s ((Directive.conversion length c).meaning s.ap) := by
  rw [Directive.meaning]
  simp only [h]
  exact ⟨_, rfl, rfl, rfl, rfl⟩

lemma printfLongLong_emits (c : UInt8) (s : Printf) : Emits (printfLongLong stack c s) s
    ((Directive.conversion .longLong c).meaning s.ap) :=
  printfConversion_emits (printfLl_emits s) (fun _ upper h h' => printfUll_emits h h' upper s)
    fun h => verbatim_emits h s

lemma printfLong_emits (c : UInt8) (s : Printf) : Emits (printfLong stack c s) s
    ((Directive.conversion .long c).meaning s.ap) :=
  printfConversion_emits (printfInt_emits s) (fun _ upper h h' => printfUint_emits h h' upper s)
    fun h => verbatim_emits h s

lemma printfDirective_emits (c : UInt8) (s : Printf) : Emits (printfDirective stack c s) s
    ((Directive.conversion .short c).meaning s.ap) := by
  refine printfConversion_emits (printfInt_emits s)
    (fun _ upper h h' => printfUint_emits h h' upper s) fun h => ?_
  rw [if_neg (not_not.mpr rfl)] at h
  unfold printfOther
  by_cases hs : c = 0x73
  · rw [if_pos hs] at h ⊢
    rw [Directive.meaning]
    simp only [h]
    exact ⟨_, rfl, rfl, rfl, rfl⟩
  by_cases hc : c = 0x63
  · rw [if_neg hs, if_pos hc] at h ⊢
    rw [Directive.meaning]
    simp only [h]
    exact ⟨_, rfl, rfl, rfl, rfl⟩
  by_cases hp : c = 0x70
  · rw [if_neg hs, if_neg hc, if_pos hp] at h ⊢
    rw [Directive.meaning]
    simp only [h]
    rcases @printfUint_emits stack 16 (by decide) le_rfl false (s.put [0x30, 0x78]) with
      ⟨s', hs', hprinted, hap, hreads⟩
    exact ⟨s', hs', hprinted, hap, hreads⟩
  rw [if_neg hs, if_neg hc, if_neg hp] at h ⊢
  exact verbatim_emits h s

/-! ## The loop -/

/-- What is read between `p` and `q`. -/
def ReadsIn (s s' : Printf) (p q : ℕ) : Prop := ∀ a ∈ s'.reads, a ∈ s.reads ∨ p ≤ a ∧ a < q

lemma readsIn_note {q : ℕ} (h : ReadsIn s s' p q) {a : ℕ} (hp : p ≤ a) (hq : a < q) :
    ReadsIn s (s'.note a) p q := by
  intro b hb
  rcases Printf.mem_note hb with heq | hb
  · exact Or.inr (heq ▸ ⟨hp, hq⟩)
  · exact h b hb

/-- The cursor goes on behind a directive, whose pieces are printed. -/
def Advances (stack mem : Mem) (n p q : ℕ) (s : Printf) (out : List Printed × List UInt32) : Prop :=
  ∃ s', printfLoop stack mem (n + 1) p s = printfLoop stack mem n q s' ∧
    s'.printed = out.1.reverse ++ s.printed ∧ s'.ap = out.2 ∧ ReadsIn s s' p q

/-- A directive that was read up to `q`, whatever had been read for it. -/
lemma advances_of_emits {x : Except Fault Printf} {out : List Printed × List UInt32} {q : ℕ}
    {s₀ : Printf} (hx : Emits x s₀ out) (hprinted : s₀.printed = s.printed)
    (hreads : ReadsIn s s₀ p (q + 1))
    (hloop : printfLoop stack mem (n + 1) p s =
      (do printfLoop stack mem n (q + 1) (← x))) : Advances stack mem n p (q + 1) s out := by
  rcases hx with ⟨s', hs', hprinted', hap', hreads'⟩
  refine ⟨s', ?_, by rw [hprinted', hprinted], hap', fun a ha => hreads a (hreads' ▸ ha)⟩
  rw [hloop, hs', ok_bind]

lemma printfLoop_directive (n : ℕ) {d : Directive} (hd : d.Valid)
    (h : StringAt mem p (d.render ++ w)) (hspace : p + d.render.length < 2 ^ 32) (s : Printf) :
    Advances stack mem n p (p + d.render.length) s (d.meaning s.ap) := by
  have hread : s.read mem p = .ok (mem p, s.note p) := read_eq (by omega) s
  have hnone : ∀ q, ReadsIn s s p q := fun q a ha => Or.inl ha
  cases d with
  | text c =>
    rcases h with ⟨hc, -⟩
    refine ⟨(s.note p).put [c], ?_, rfl, rfl,
      readsIn_note (hnone (p + 1)) le_rfl (Nat.lt_succ_self p)⟩
    rw [printfLoop, hread, ok_bind]
    simp only [hc, if_neg hd.1, if_pos hd.2]
    rfl
  | conversion length c =>
    have hpercent : mem p = charPercent := h.1
    have hloop : printfLoop stack mem (n + 1) p s =
        printfPercent stack mem p (s.note p) >>= fun r => printfLoop stack mem n (r.1 + 1) r.2 := by
      rw [printfLoop, hread, ok_bind]
      simp only [hpercent, if_neg (by decide : ¬ charPercent = 0), if_neg (not_not.mpr rfl)]
    cases length with
    | short =>
      have hc : mem (p + 1) = c := h.2.2.1
      have hspace : p + 2 < 2 ^ 32 := hspace
      have hemits : Emits (printfDirective stack c _) ((s.note p).note (p + 1)) _ :=
        printfDirective_emits c _
      have hreads : ReadsIn s ((s.note p).note (p + 1)) p (p + 1 + 1) :=
        readsIn_note (readsIn_note (hnone _) (by omega) (by omega)) (by omega) (by omega)
      refine advances_of_emits hemits rfl hreads ?_
      rw [hloop]
      simp only [printfPercent, read_eq (show p + 1 < 2 ^ 32 by omega), ok_bind, hc,
        if_neg hd.2, bind_assoc]
      rfl
    | long =>
      have hl : mem (p + 1) = charL := h.2.2.1
      have hc : mem (p + 2) = c := h.2.2.2.2.1
      have hspace : p + 3 < 2 ^ 32 := hspace
      have hemits : Emits (printfLong stack c _)
          ((((s.note p).note (p + 1)).note (p + 2)).note (p + 2)) _ := printfLong_emits c _
      have hreads : ReadsIn s ((((s.note p).note (p + 1)).note (p + 2)).note (p + 2)) p
          (p + 2 + 1) :=
        readsIn_note (readsIn_note (readsIn_note (readsIn_note (hnone _) (by omega) (by omega))
          (by omega) (by omega)) (by omega) (by omega)) (by omega) (by omega)
      refine advances_of_emits hemits rfl hreads ?_
      rw [hloop]
      simp only [printfPercent, read_eq (show p + 1 < 2 ^ 32 by omega),
        read_eq (show p + 2 < 2 ^ 32 by omega), ok_bind, hl, hc, if_pos, if_neg hd.2, bind_assoc]
      rfl
    | longLong =>
      have hl : mem (p + 1) = charL := h.2.2.1
      have hll : mem (p + 2) = charL := h.2.2.2.2.1
      have hc : mem (p + 3) = c := h.2.2.2.2.2.2.1
      have hspace : p + 4 < 2 ^ 32 := hspace
      have hemits : Emits (printfLongLong stack c _)
          ((((s.note p).note (p + 1)).note (p + 2)).note (p + 3)) _ := printfLongLong_emits c _
      have hreads : ReadsIn s ((((s.note p).note (p + 1)).note (p + 2)).note (p + 3)) p
          (p + 3 + 1) :=
        readsIn_note (readsIn_note (readsIn_note (readsIn_note (hnone _) (by omega) (by omega))
          (by omega) (by omega)) (by omega) (by omega)) (by omega) (by omega)
      refine advances_of_emits hemits rfl hreads ?_
      rw [hloop]
      simp only [printfPercent, read_eq (show p + 1 < 2 ^ 32 by omega),
        read_eq (show p + 2 < 2 ^ 32 by omega), read_eq (show p + 3 < 2 ^ 32 by omega), ok_bind,
        hl, hll, hc, if_pos, bind_assoc]
      rfl

lemma Directive.length_render_pos (d : Directive) : 0 < d.render.length := by
  cases d with
  | text c => exact Nat.one_pos
  | conversion length c => exact Nat.succ_pos _

lemma renderFormat_cons (d : Directive) (format : List Directive) :
    renderFormat (d :: format) = d.render ++ renderFormat format := List.flatMap_cons

/-- The loop on a list of directives and the NUL behind it. -/
lemma printfLoop_meaning {format : List Directive} (hvalid : ∀ d ∈ format, d.Valid)
    (h : StringAt mem p (renderFormat format))
    (hspace : p + (renderFormat format).length < 2 ^ 32)
    (hn : (renderFormat format).length < n) (s : Printf) :
    ∃ s', printfLoop stack mem n p s = .ok s' ∧
      s'.printed = (meaning format s.ap).1.reverse ++ s.printed ∧
      s'.ap = (meaning format s.ap).2 ∧
      ReadsIn s s' p (p + (renderFormat format).length + 1) := by
  induction format generalizing n p s with
  | nil =>
    rcases n with - | n
    · exact absurd hn (Nat.not_lt_zero _)
    have hread : s.read mem p = .ok (mem p, s.note p) := read_eq hspace s
    refine ⟨s.note p, ?_, rfl, rfl,
      readsIn_note (fun a ha => Or.inl ha) le_rfl (Nat.lt_succ_self p)⟩
    rw [printfLoop, hread, ok_bind]
    simp only [if_pos (stringAt_nil.mp h)]
    rfl
  | cons d format ih =>
    rw [List.forall_mem_cons] at hvalid
    rw [renderFormat_cons] at h hspace hn
    rw [List.length_append] at hspace hn
    have hpos := d.length_render_pos
    rcases n with - | n
    · exact absurd hn (Nat.not_lt_zero _)
    have hrest : StringAt mem (p + d.render.length) (renderFormat format) := by
      have hdrop := h.drop (k := d.render.length)
        (by rw [List.length_append]; exact Nat.le_add_right ..)
      rwa [List.drop_left] at hdrop
    rcases @printfLoop_directive stack mem p _ n d hvalid.1 h (by omega) s with
      ⟨s₁, hloop, hprinted, hap, hreads⟩
    have hn' : (renderFormat format).length < n := by omega
    rcases ih hvalid.2 hrest (by omega) hn' s₁ with ⟨s', hs', hprinted', hap', hreads'⟩
    rw [hap] at hprinted' hap'
    refine ⟨s', hloop.trans hs', ?_, hap', fun a ha => ?_⟩
    · rw [hprinted', hprinted, meaning, List.reverse_append, List.append_assoc]
    · rw [renderFormat_cons, List.length_append]
      rcases hreads' a ha with ha | ha
      · rcases hreads a ha with ha | ha
        · exact Or.inl ha
        · exact Or.inr (by omega)
      · exact Or.inr (by omega)

/-! ## Formats that are not cut short -/

lemma foldl_render {d : Directive} (hd : d.Valid) :
    d.render.foldl FormatState.step .text = .text := by
  cases d with
  | text c => exact if_neg hd.2
  | conversion length c =>
    cases length with
    | short => exact if_neg hd.2
    | long => exact if_neg hd.2
    | longLong => rfl

lemma complete_render_append {d : Directive} (hd : d.Valid) (w : CString) :
    Complete (d.render ++ w) ↔ Complete w := by
  rw [Complete, List.foldl_append, foldl_render hd]
  rfl

/-- A format that goes on starts with a directive. -/
lemma Complete.directive {c : UInt8} (hcomplete : Complete (c :: w)) (hw : 0 ∉ c :: w) :
    ∃ (d : Directive) (v : CString), d.Valid ∧ c :: w = d.render ++ v ∧ Complete v ∧ 0 ∉ v := by
  rw [List.mem_cons, not_or] at hw
  by_cases hc : c = charPercent
  · subst hc
    rcases w with - | ⟨c, w⟩
    · exact absurd hcomplete (by decide)
    rw [List.mem_cons, not_or] at hw
    by_cases hl : c = charL
    · subst hl
      rcases w with - | ⟨c, w⟩
      · exact absurd hcomplete (by decide)
      rw [List.mem_cons, not_or] at hw
      by_cases hll : c = charL
      · subst hll
        rcases w with - | ⟨c, w⟩
        · exact absurd hcomplete (by decide)
        rw [List.mem_cons, not_or] at hw
        exact ⟨.conversion .longLong c, w, Ne.symm hw.2.2.2.1, rfl, hcomplete, hw.2.2.2.2⟩
      · have hd : (Directive.conversion .long c).Valid := ⟨Ne.symm hw.2.2.1, hll⟩
        exact ⟨_, w, hd, rfl, (complete_render_append hd w).mp hcomplete, hw.2.2.2⟩
    · have hd : (Directive.conversion .short c).Valid := ⟨Ne.symm hw.2.1, hl⟩
      exact ⟨_, w, hd, rfl, (complete_render_append hd w).mp hcomplete, hw.2.2⟩
  · have hd : (Directive.text c).Valid := ⟨Ne.symm hw.1, hc⟩
    exact ⟨_, w, hd, rfl, (complete_render_append hd w).mp hcomplete, hw.2⟩

/-- The directives of a complete format. -/
lemma Complete.format (hcomplete : Complete w) (hw : 0 ∉ w) :
    ∃ format : List Directive, (∀ d ∈ format, d.Valid) ∧ renderFormat format = w := by
  induction hlength : w.length using Nat.strong_induction_on generalizing w with
  | _ n ih =>
    subst hlength
    rcases w with - | ⟨c, w⟩
    · exact ⟨[], fun d hd => absurd hd List.not_mem_nil, rfl⟩
    rcases hcomplete.directive hw with ⟨d, v, hd, heq, hv, hv0⟩
    have hpos := d.length_render_pos
    have hlength : (c :: w).length = d.render.length + v.length := by
      rw [heq, List.length_append]
    rcases ih v.length (by omega) hv hv0 rfl with ⟨format, hvalid, hrender⟩
    refine ⟨d :: format, List.forall_mem_cons.mpr ⟨hd, hvalid⟩, ?_⟩
    rw [renderFormat_cons, hrender, heq]

/-! ## `printf` -/

variable {fmt : ℕ} {ap : List UInt32} {text : Mem}

/-- **`printf`** interprets its format: a string that no directive is cut short in is one list of
directives, and `printf` prints their meaning and leaves the arguments they do not use. -/
theorem printf_interprets (h : StringAt mem fmt w) (hspace : fmt + w.length < 2 ^ 32)
    (hcomplete : Complete w) : ∃ format s', parseFormat w = some format ∧
      renderFormat format = w ∧ printf stack mem fmt ap text = .ok s' ∧
      (s'.printed.reverse, s'.ap) = meaning format ap ∧
      ∀ a ∈ s'.reads, fmt ≤ a ∧ a ≤ fmt + w.length := by
  rcases hcomplete.format h.not_mem_zero with ⟨format, hvalid, rfl⟩
  rcases printfLoop_meaning hvalid h hspace (n := 2 ^ 32 - fmt + 1) (by omega)
    ⟨ap, text, [], []⟩ with ⟨s', hs', hprinted, hap, hreads⟩
  refine ⟨format, s', parseFormat_renderFormat hvalid, rfl, hs', ?_, fun a ha => ?_⟩
  · rw [hprinted, hap, List.append_nil, List.reverse_reverse]
  · rcases hreads a ha with ha | ha
    · exact absurd ha List.not_mem_nil
    · omega

/-- `%d%%` -/
theorem printf_interprets_percent : ∃ format s',
    parseFormat [0x25, 0x64, 0x25, 0x25] = some format ∧
      renderFormat format = [0x25, 0x64, 0x25, 0x25] ∧
      printf (fun _ => 0) (writeBytes (fun _ => 0) 4096 [0x25, 0x64, 0x25, 0x25]) 4096 [7]
        (fun _ => 0) = .ok s' ∧
      (s'.printed.reverse, s'.ap) = meaning format [7] ∧ ∀ a ∈ s'.reads, 4096 ≤ a ∧ a ≤ 4100 := by
  have hformat : StringAt (writeBytes (fun _ => 0) 4096 [0x25, 0x64, 0x25, 0x25]) 4096
      [0x25, 0x64, 0x25, 0x25] := by
    decide
  exact printf_interprets hformat (by decide) (by decide)

/-- **`printf`** with an argument of the right type for every directive prints the text that is
meant, and takes these arguments and no others. -/
theorem printf_prints {items : List FormatItem} (hitems : ∀ item ∈ items, item.Valid mem)
    (h : StringAt mem fmt (renderFormat (items.map FormatItem.directive)))
    (hspace : fmt + (renderFormat (items.map FormatItem.directive)).length < 2 ^ 32)
    (rest : List UInt32) :
    ∃ s', printf stack mem fmt (items.flatMap FormatItem.args ++ rest) text = .ok s' ∧
      s'.printed.reverse.flatMap (Printed.text mem) = items.flatMap FormatItem.shows ∧
      s'.ap = rest := by
  have hvalid : ∀ d ∈ items.map FormatItem.directive, d.Valid := by
    intro d hd
    rcases List.mem_map.mp hd with ⟨item, hitem, rfl⟩
    exact FormatItem.directive_valid (hitems item hitem)
  rcases printfLoop_meaning hvalid h hspace (n := 2 ^ 32 - fmt + 1) (by omega)
    ⟨items.flatMap FormatItem.args ++ rest, text, [], []⟩ with ⟨s', hs', hprinted, hap, -⟩
  rcases meaning_items hitems rest with ⟨hshows, hrest⟩
  refine ⟨s', hs', ?_, hap.trans hrest⟩
  rw [hprinted, List.append_nil, List.reverse_reverse]
  exact hshows

/-- `%d%%` with `-7`, and a word that is not used. -/
theorem printf_prints_percent :
    ∃ s', printf (fun _ => 0) (writeBytes (fun _ => 0) 4096 [0x25, 0x64, 0x25, 0x25]) 4096
        [UInt32.ofNat (2 ^ 32 - 7), 5] (fun _ => 0) = .ok s' ∧
      s'.printed.reverse.flatMap
        (Printed.text (writeBytes (fun _ => 0) 4096 [0x25, 0x64, 0x25, 0x25])) =
          [0x2D, 0x37, 0x25] ∧ s'.ap = [5] := by
  have hformat : StringAt (writeBytes (fun _ => 0) 4096 [0x25, 0x64, 0x25, 0x25]) 4096
      [0x25, 0x64, 0x25, 0x25] := by
    decide
  have hitems : ∀ item ∈ [FormatItem.signed .short (-7), .percent], item.Valid
      (writeBytes (fun _ => 0) 4096 [0x25, 0x64, 0x25, 0x25]) := by
    rw [List.forall_mem_cons, List.forall_mem_singleton]
    have hrange : (-2 : ℤ) ^ 31 ≤ -7 ∧ (-7 : ℤ) < 2 ^ 31 := by norm_num
    exact ⟨hrange, trivial⟩
  exact printf_prints hitems hformat (by decide) [5]

end MarrowOS
