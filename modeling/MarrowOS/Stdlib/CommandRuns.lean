import MarrowOS.Stdlib.CommandLineTheorems
import MarrowOS.Task.ArgumentWalk

/-!
# Commands in a row

Between two calls of `marrowos_parse_command` a program does with its memory and its allocations
what it likes; what is left from one call to the next is the saved pointer of `strtok`. A call that
gets a node for every word leaves none (`parseCalls_list`), one that is refused a node leaves the
others out and the pointer behind (`parsing_whole`).
-/

namespace MarrowOS

open ByteMem CInt Fallible Tokens

variable {σ : Type} {A : Allocator σ} {held : σ → ℕ → Prop} {s s' : Program σ}
  {buf scommand command : ℕ} {max : ℤ} {text : CString}

/-- The texts of the nodes that a command should have. -/
def argumentTexts (text : CString) : List CString := (words text).map (List.take 511)

/-! ## Allocations that run out -/

/-- As many allocations as there are slots, one behind the other. The state is the number of slots
that are free and the next address. -/
def slots : Allocator (ℕ × ℕ) where
  kmalloc size h :=
    if h.1 = 0 ∨ 2 ^ 32 < h.2 + size then (0, h) else (h.2, (h.1 - 1, h.2 + size))
  kfree _ h := h

lemma slots_grantsApart : GrantsApart slots fun h x => x < h.2 := by
  have hcases : ∀ size h, slots.kmalloc size h = (0, h) ∨
      slots.kmalloc size h = (h.2, (h.1 - 1, h.2 + size)) ∧ h.2 + size ≤ 2 ^ 32 := by
    intro size h
    by_cases hfull : h.1 = 0 ∨ 2 ^ 32 < h.2 + size
    · exact Or.inl (if_pos hfull)
    · exact Or.inr ⟨if_neg hfull, not_lt.mp fun hlt => hfull (Or.inr hlt)⟩
  refine ⟨fun size h x hx => ?_, fun size h hne => ?_, fun size h hne x h₀ h₁ => ?_⟩
  · rcases hcases size h with heq | ⟨heq, -⟩
    · rw [heq]
      exact hx
    · rw [heq]
      exact Nat.lt_add_right size hx
  · rcases hcases size h with heq | ⟨heq, hfits⟩
    · rw [heq] at hne
      exact absurd rfl hne
    · rw [heq]
      exact hfits
  · rcases hcases size h with heq | ⟨heq, -⟩
    · rw [heq] at hne
      exact absurd rfl hne
    · rw [heq] at h₀ h₁ ⊢
      exact ⟨not_lt.mpr h₀, h₁⟩

/-- `a b` at 4096. -/
def twoWords : Mem := writeBytes (fun _ => 0) 4096 [0x61, 0x20, 0x62]

lemma twoWords_commandAt (buf size : ℕ) (hbuf : 8192 ≤ buf) :
    CommandAt twoWords 4096 [0x61, 0x20, 0x62] buf size :=
  ⟨by decide, by decide, fun _ _ h₁ => Or.inl (lt_of_le_of_lt h₁ (lt_of_lt_of_le (by decide) hbuf))⟩

/-- A program with no saved pointer and so many free slots, whose stack is below 65536. -/
def withSlots (n : ℕ) : Program (ℕ × ℕ) := ⟨⟨twoWords, 0, []⟩, (n, 65536)⟩

lemma onStack_slots (n buf size : ℕ) (hbuf : 8192 ≤ buf) (hsize : buf + size ≤ 65536) :
    OnStack (fun h x => x < h.2) (n, 65536) buf size := by
  refine ⟨by omega, by omega, fun x _ h₁ => ?_⟩
  exact lt_of_lt_of_le h₁ hsize

/-! ## All allocations granted -/

/-- A call of `marrowos_parse_command`: the memory and the allocations that it finds. The command is
short enough, and there are allocations for all of its words. -/
structure ParseCall (A : Allocator σ) (held : σ → ℕ → Prop) (scommand : ℕ) where
  mem : Mem
  heap : σ
  command : ℕ
  max : ℤ
  text : CString
  stack : OnStack held heap scommand sizeofScommand
  commandAt : CommandAt mem command text scommand sizeofScommand
  length_le : text.length ≤ 1024
  max_le : max ≤ 1024
  granted : grantedRequests A (words text).length heap = (words text).length

/-- The list that each call answers, and the memory it is in. -/
def parseCalls : List (ParseCall A held scommand) → Program σ →
    Except Fault (List (ℕ × Mem) × Program σ)
  | [], s => .ok ([], s)
  | call :: calls, s => do
    let (root, s) ← marrowosParseCommand A scommand call.command call.max
      { s with mem := call.mem, heap := call.heap }
    let (results, s') ← parseCalls calls s
    return ((root, s.mem) :: results, s')

lemma ParseCall.parse (hA : GrantsApart A held) (call : ParseCall A held scommand)
    (hsp : s.sp = 0) : ∃ root s', marrowosParseCommand A scommand call.command call.max
      { s with mem := call.mem, heap := call.heap } = .ok (root, s') ∧
      Lists s'.mem root (argumentTexts call.text) ∧ s'.sp = 0 := by
  have hmax : call.max < sizeofScommand := Int.lt_add_one_of_le call.max_le
  rcases marrowosParseCommand_eq (s := { s with mem := call.mem, heap := call.heap }) hA
    call.stack hsp call.commandAt hmax with ⟨root, s', hrun, hparsed⟩
  rw [List.take_of_length_le call.length_le] at hparsed
  have hlists := hparsed.lists
  rw [call.granted, List.take_length] at hlists
  exact ⟨root, s', hrun, hlists, hparsed.saved.mpr call.granted⟩

/-- **`marrowos_parse_command`** answers the list of the words of its command, each cut to 511
characters, in every sequence of calls whose allocations are granted. -/
theorem parseCalls_list (hA : GrantsApart A held) (hsp : s.sp = 0)
    (calls : List (ParseCall A held scommand)) :
    ∃ results s', parseCalls calls s = .ok (results, s') ∧ s'.sp = 0 ∧
      List.Forall₂ (fun call result => Lists result.2 result.1 (argumentTexts call.text)) calls
        results := by
  induction calls generalizing s with
  | nil => exact ⟨[], s, rfl, hsp, List.Forall₂.nil⟩
  | cons call calls ih =>
    rcases call.parse hA hsp with ⟨root, s₁, hrun, hlists, hsp₁⟩
    rcases ih hsp₁ with ⟨results, s', hruns, hsp', hresults⟩
    refine ⟨(root, s₁.mem) :: results, s', ?_, hsp', List.Forall₂.cons hlists hresults⟩
    rw [parseCalls, hrun, ok_bind]
    simp only [hruns]
    rfl

/-- `a b`, with two slots. -/
def twoWordsCall : ParseCall slots (fun h x => x < h.2) 8192 where
  mem := twoWords
  heap := (2, 65536)
  command := 4096
  max := 1024
  text := [0x61, 0x20, 0x62]
  stack := onStack_slots 2 8192 sizeofScommand (by decide) (by decide)
  commandAt := twoWords_commandAt 8192 sizeofScommand (by decide)
  length_le := by decide
  max_le := le_rfl
  granted := by decide

theorem parseCalls_twoWords : ∃ results s',
    parseCalls [twoWordsCall, twoWordsCall] (withSlots 2) = .ok (results, s') ∧ s'.sp = 0 ∧
      List.Forall₂ (fun call result => Lists result.2 result.1 (argumentTexts call.text))
        [twoWordsCall, twoWordsCall] results :=
  parseCalls_list slots_grantsApart rfl [twoWordsCall, twoWordsCall]

/-! ## Some allocations refused -/

/-- A node is passed through once. -/
lemma ArgumentChain.unique {mem : Mem} {current : ℕ} {nodes nodes' : List ℕ}
    (h : ArgumentChain mem current nodes) (h' : ArgumentChain mem current nodes') :
    nodes = nodes' := by
  induction nodes generalizing current nodes' with
  | nil =>
    cases nodes' with
    | nil => rfl
    | cons node' nodes' => exact absurd (h'.1.symm.trans h) h'.2.1
  | cons node nodes ih =>
    cases nodes' with
    | nil => exact absurd (h.1.symm.trans h') h.2.1
    | cons node' nodes' =>
      have hnode : node = node' := h.1.symm.trans h'.1
      subst hnode
      rw [ih h.2.2 h'.2.2]

lemma Lists.unique {mem : Mem} {root : ℕ} {texts texts' : List CString} (h : Lists mem root texts)
    (h' : Lists mem root texts') : texts = texts' := by
  rcases h with ⟨nodes, hchain, htexts⟩
  rcases h' with ⟨nodes', hchain', htexts'⟩
  rw [← htexts, ← htexts', hchain.unique hchain']

lemma lists_zero (mem : Mem) : Lists mem 0 [] := ⟨[], rfl, rfl⟩

/-- What a copy of `n` characters leaves out does not belong to a word, as far as a node holds
words. -/
def CutsNoWord (n : ℕ) (text : CString) : Prop := argumentTexts (text.take n) = argumentTexts text

/-- Of the allocations for the words of a copy of `n` characters the first one is refused, or there
is none; or all of them are granted and the copy has all words. -/
def WholeOrNothing (A : Allocator σ) (n : ℕ) (text : CString) (h : σ) : Prop :=
  grantedRequests A (words (text.take n)).length h = 0 ∨
  grantedRequests A (words (text.take n)).length h = (words (text.take n)).length ∧
    CutsNoWord n text

instance (n : ℕ) (text : CString) : Decidable (CutsNoWord n text) :=
  inferInstanceAs (Decidable (_ = _))

instance (A : Allocator σ) (n : ℕ) (text : CString) (h : σ) :
    Decidable (WholeOrNothing A n text h) :=
  inferInstanceAs (Decidable (_ ∨ _ ∧ _))

/-- The copy has no more words than the command. -/
lemma length_words_take_le (n : ℕ) (text : CString) :
    (words (text.take n)).length ≤ (words text).length := by
  have hle := length_tokens_append_le (p := (· == 0x20)) (text.take n) (text.drop n)
  rwa [List.take_append_drop] at hle

/-- The list has every word, or there is none, under that condition only. -/
lemma Parsed.whole_iff {n root : ℕ} {h : σ}
    (hparsed : Parsed A held (words (text.take n)) h s' root) :
    root = 0 ∨ Lists s'.mem root (argumentTexts text) ↔ WholeOrNothing A n text h := by
  have hlists := hparsed.lists
  unfold WholeOrNothing CutsNoWord
  generalize hk : grantedRequests A (words (text.take n)).length h = k at hlists ⊢
  constructor
  · rintro (hroot | hall)
    · left
      have hnil := hlists.unique (by rw [hroot]; exact lists_zero s'.mem)
      rw [List.map_eq_nil_iff, List.take_eq_nil_iff] at hnil
      rcases hnil with hk0 | hempty
      · exact hk0
      · rw [hempty] at hk
        exact hk.symm
    · -- as many nodes as there are words, so that no request was refused
      have heq := hlists.unique hall
      have hlength := congrArg List.length heq
      rw [argumentTexts, List.length_map, List.length_map, List.length_take] at hlength
      have hle := length_words_take_le n text
      have hk_le := grantedRequests_le A (words (text.take n)).length h
      have hfull : k = (words (text.take n)).length := by omega
      rw [hfull, List.take_length] at heq
      exact Or.inr ⟨hfull, heq⟩
  · rintro (hk0 | ⟨hkall, hcut⟩)
    · left
      rw [hk0, List.take_zero] at hlists
      rcases hlists with ⟨nodes, hchain, htexts⟩
      rw [List.map_nil, List.map_eq_nil_iff] at htexts
      rw [htexts] at hchain
      exact hchain
    · right
      rw [hkall, List.take_length] at hlists
      exact hcut ▸ hlists

/-- The answer of `marrowos_parse_command` is null, or the list of every word. -/
def ParsesWhole (A : Allocator σ) (scommand command : ℕ) (max : ℤ) (text : CString)
    (s : Program σ) : Prop :=
  ∃ root s', marrowosParseCommand A scommand command max s = .ok (root, s') ∧
    (root = 0 ∨ Lists s'.mem root (argumentTexts text))

lemma parsesWhole_iff (hA : GrantsApart A held)
    (hstack : OnStack held s.heap scommand sizeofScommand) (hsp : s.sp = 0)
    (hcommand : CommandAt s.mem command text scommand sizeofScommand) :
    ParsesWhole A scommand command max text s ↔
      max ≥ sizeofScommand ∨ WholeOrNothing A 1024 text s.heap := by
  by_cases hmax : max ≥ sizeofScommand
  · exact iff_of_true ⟨0, s, if_pos hmax, Or.inl rfl⟩ (Or.inl hmax)
  · rcases marrowosParseCommand_eq hA hstack hsp hcommand (not_le.mp hmax) with
      ⟨root, s', hrun, hparsed⟩
    rw [or_iff_right hmax, ← hparsed.whole_iff]
    constructor
    · rintro ⟨root₁, s₁, hrun₁, hwhole⟩
      have heq := Prod.mk.inj (Except.ok.inj (hrun.symm.trans hrun₁))
      rwa [heq.1, heq.2]
    · exact fun hwhole => ⟨root, s', hrun, hwhole⟩

/-! ## A shell -/

/-- The frames of `marrowos_system_run` and of `marrowos_parse_command`. -/
structure Frames (held : σ → ℕ → Prop) (h : σ) (buf scommand : ℕ) : Prop where
  stack : OnStack held h scommand sizeofScommand
  buf_fits : buf + 1024 ≤ 2 ^ 32
  apart : ∀ x, buf ≤ x → x < buf + 1024 → x < scommand ∨ scommand + sizeofScommand ≤ x

/-- A command that is run, and the memory at that time. -/
structure RunCommand (buf : ℕ) where
  mem : Mem
  command : ℕ
  text : CString
  commandAt : CommandAt mem command text buf 1024

variable (A : Allocator σ) (scommand : ℕ)

/-- Commands that are run one after the other. The allocations of a command are not given back. -/
def runCommands : List (RunCommand buf) → Program σ →
    Except Fault (List (Option ℕ × Mem) × Program σ)
  | [], s => .ok ([], s)
  | c :: commands, s => do
    let (started, s) ← marrowosSystemRun A buf scommand c.command { s with mem := c.mem }
    let (results, s') ← runCommands commands s
    return ((started, s.mem) :: results, s')

/-- In every step no pointer is saved, and the allocations for the command are granted as a whole
or not at all. -/
def StepsGranted : List (RunCommand buf) → Program σ → Prop
  | [], _ => True
  | c :: commands, s => s.sp = 0 ∧ WholeOrNothing A 1023 c.text s.heap ∧
    ∀ started s', marrowosSystemRun A buf scommand c.command { s with mem := c.mem } =
      .ok (started, s') → StepsGranted commands s'

/-- Every command is run, and a program that is started gets every word of it. -/
def RunsWhole (commands : List (RunCommand buf)) (s : Program σ) : Prop :=
  ∃ results s', runCommands A scommand commands s = .ok (results, s') ∧
    List.Forall₂ (fun c result => ∀ root, result.1 = some root →
      Lists result.2 root (argumentTexts c.text)) commands results

variable {A scommand}

lemma marrowosSystemRun_eq (hA : GrantsApart A held) (hframes : Frames held s.heap buf scommand)
    (hsp : s.sp = 0) (hcommand : CommandAt s.mem command text buf 1024) :
    ∃ root s', marrowosSystemRun A buf scommand command s =
      .ok (if root = 0 then none else some root, s') ∧
      Parsed A held (words (text.take 1023)) s.heap s' root := by
  have hcopy := Program.strncpy_eq hcommand.string hcommand.space hframes.buf_fits (by decide)
    hcommand.apart
  have hstring := stringAt_copied hcommand.string 1023 s.mem buf
  have hlength : (text.take 1023).length ≤ 1023 := List.length_take_le ..
  have hfits := hframes.buf_fits
  have hcopied : CommandAt (writeBytes s.mem buf (text.take 1023 ++ [0])) buf (text.take 1023)
      scommand sizeofScommand :=
    ⟨hstring, by omega, fun x h₀ h₁ => hframes.apart x h₀ (by omega)⟩
  have h1024 : (1024 : ℤ) < sizeofScommand := by decide
  rcases marrowosParseCommand_eq
    (s := { s with mem := writeBytes s.mem buf (text.take 1023 ++ [0]) }) hA hframes.stack hsp
    hcopied h1024 with ⟨root, s', hrun, hparsed⟩
  rw [List.take_take] at hparsed
  refine ⟨root, s', ?_, hparsed⟩
  rw [marrowosSystemRun, hcopy, ok_bind]
  simp only [Nat.add_one_sub_one, hrun, ok_bind]
  by_cases hroot : root = 0
  · rw [if_pos hroot, if_pos hroot]
    rfl
  · rw [if_neg hroot, if_neg hroot]
    rfl

/-- **Step lemma**: a command whose allocations are granted as a whole or not at all. -/
lemma RunCommand.run (hA : GrantsApart A held) (c : RunCommand buf)
    (hframes : Frames held s.heap buf scommand) (hsp : s.sp = 0)
    (hgranted : WholeOrNothing A 1023 c.text s.heap) :
    ∃ started s', marrowosSystemRun A buf scommand c.command { s with mem := c.mem } =
      .ok (started, s') ∧ (∀ root, started = some root →
        Lists s'.mem root (argumentTexts c.text)) ∧ Frames held s'.heap buf scommand := by
  rcases marrowosSystemRun_eq (s := { s with mem := c.mem }) hA hframes hsp c.commandAt with
    ⟨root, s', hrun, hparsed⟩
  refine ⟨_, s', hrun, fun root' hstarted => ?_, ?_⟩
  · have hwhole := hparsed.whole_iff.mpr hgranted
    by_cases hroot : root = 0
    · rw [if_pos hroot] at hstarted
      cases hstarted
    · rw [if_neg hroot] at hstarted
      rw [← Option.some.inj hstarted]
      exact hwhole.resolve_left hroot
  · have hstack := hframes.stack
    exact ⟨⟨hstack.pos, hstack.fits, fun x h₀ h₁ => hparsed.kept x (hstack.held x h₀ h₁)⟩,
      hframes.buf_fits, hframes.apart⟩

lemma StepsGranted.runsWhole (hA : GrantsApart A held) {commands : List (RunCommand buf)}
    (hframes : Frames held s.heap buf scommand) (hsteps : StepsGranted A scommand commands s) :
    RunsWhole A scommand commands s := by
  induction commands generalizing s with
  | nil => exact ⟨[], s, rfl, List.Forall₂.nil⟩
  | cons c commands ih =>
    rcases hsteps with ⟨hsp, hgranted, hnext⟩
    rcases c.run hA hframes hsp hgranted with ⟨started, s₁, hrun, hwhole, hframes₁⟩
    rcases ih hframes₁ (hnext started s₁ hrun) with ⟨results, s', hruns, hresults⟩
    refine ⟨(started, s₁.mem) :: results, s', ?_, List.Forall₂.cons hwhole hresults⟩
    rw [runCommands, hrun, ok_bind]
    simp only [hruns]
    rfl

/-- **A command is parsed as a whole or not at all** exactly when the first allocation for it is
refused, or none is; and a shell in which this is so at every command, and no saved pointer is left
from the one before, starts no program without all of its arguments. -/
theorem parsing_whole (hA : GrantsApart A held) :
    (∀ (scommand command : ℕ) (max : ℤ) (text : CString) (s : Program σ),
      OnStack held s.heap scommand sizeofScommand → s.sp = 0 →
      CommandAt s.mem command text scommand sizeofScommand →
      (ParsesWhole A scommand command max text s ↔
        max ≥ sizeofScommand ∨ WholeOrNothing A 1024 text s.heap)) ∧
    ∀ (buf scommand : ℕ) (commands : List (RunCommand buf)) (s : Program σ),
      Frames held s.heap buf scommand → StepsGranted A scommand commands s →
      RunsWhole A scommand commands s :=
  ⟨fun _ _ _ _ _ hstack hsp hcommand => parsesWhole_iff hA hstack hsp hcommand,
    fun _ _ _ _ hframes hsteps => hsteps.runsWhole hA hframes⟩

/-- `a b`, run by a shell. -/
def twoWordsCommand : RunCommand 16384 where
  mem := twoWords
  command := 4096
  text := [0x61, 0x20, 0x62]
  commandAt := twoWords_commandAt 16384 1024 (by decide)

theorem parsing_whole_twoWords :
    ParsesWhole slots 8192 4096 1024 [0x61, 0x20, 0x62] (withSlots 2) ∧
      RunsWhole slots 8192 [twoWordsCommand] (withSlots 2) := by
  have hstack := onStack_slots 2 8192 sizeofScommand (by decide) (by decide)
  have hframes : Frames (fun h x => x < h.2) (2, 65536) 16384 8192 :=
    ⟨hstack, by decide, fun _ h₀ _ => Or.inr (le_trans (by decide) h₀)⟩
  constructor
  · apply ((parsing_whole slots_grantsApart).1 8192 4096 1024 _ (withSlots 2) hstack rfl
      (twoWords_commandAt 8192 sizeofScommand (by decide))).mpr
    exact Or.inr (by decide)
  · apply (parsing_whole slots_grantsApart).2 16384 8192 [twoWordsCommand] (withSlots 2) hframes
    exact ⟨rfl, by decide, fun _ _ _ => trivial⟩

/-- With one slot left `a b` becomes the list of `a`. -/
theorem not_parsing_whole : ¬ ∀ (A : Allocator (ℕ × ℕ)) (held : ℕ × ℕ → ℕ → Prop),
    GrantsApart A held → ∀ (scommand command : ℕ) (max : ℤ) (text : CString)
      (s : Program (ℕ × ℕ)), OnStack held s.heap scommand sizeofScommand → s.sp = 0 →
      CommandAt s.mem command text scommand sizeofScommand →
      ParsesWhole A scommand command max text s := by
  intro h
  have hstack := onStack_slots 1 8192 sizeofScommand (by decide) (by decide)
  have hcommand := twoWords_commandAt 8192 sizeofScommand (by decide)
  have hwhole := h slots _ slots_grantsApart 8192 4096 1024 _ (withSlots 1) hstack rfl hcommand
  rw [parsesWhole_iff slots_grantsApart hstack rfl hcommand] at hwhole
  exact absurd hwhole (by decide)

/-! ## The slots of a process -/

/-- The allocations of a process, made by `process_malloc`. -/
def processAllocator : Allocator (Process × Kernel) where
  kmalloc size h :=
    match processMalloc h.1 size h.2 with
    | .ok (ptr, process, k) => (ptr, (process, k))
    | .error _ => (0, h)
  kfree _ h := h

lemma processAllocator_kmalloc_ok {process process' : Process} {k k' : Kernel} {ptr size : ℕ}
    (h : processMalloc process size k = .ok (ptr, process', k')) :
    processAllocator.kmalloc size (process, k) = (ptr, (process', k')) := by
  show (match processMalloc process size k with
    | .ok (ptr, process, k) => (ptr, (process, k))
    | .error _ => (0, (process, k))) = _
  rw [h]

lemma processAllocator_kmalloc_error {process : Process} {k : Kernel} {size : ℕ} {fault : Fault}
    (h : processMalloc process size k = .error fault) :
    processAllocator.kmalloc size (process, k) = (0, (process, k)) := by
  show (match processMalloc process size k with
    | .ok (ptr, process, k) => (ptr, (process, k))
    | .error _ => (0, (process, k))) = _
  rw [h]

/-- A process gets no more nodes than it has free slots. It has 1024 of them at the start, and a
command gives none back. -/
theorem grantedRequests_processAllocator_le (n : ℕ) (process : Process) (k : Kernel) :
    grantedRequests processAllocator n (process, k) ≤ freeSlots process := by
  induction n generalizing process k with
  | zero => exact Nat.zero_le _
  | succ n ih =>
    by_cases h0 : (processAllocator.kmalloc sizeofCommandArgument (process, k)).1 = 0
    · rw [grantedRequests_refused n h0]
      exact Nat.zero_le _
    rw [grantedRequests_granted n h0]
    cases hcall : processMalloc process sizeofCommandArgument k with
    | error fault =>
      rw [processAllocator_kmalloc_error hcall] at h0
      exact absurd rfl h0
    | ok x =>
      rw [processAllocator_kmalloc_ok hcall] at h0 ⊢
      rcases processMalloc_record hcall with ⟨hptr, -⟩ | ⟨hptr, i, a, hi, ha, hprocess⟩
      · exact absurd hptr h0
      · have hfree : freeSlots { process with
            allocations := process.allocations.set i ⟨x.1, sizeofCommandArgument⟩ } + 1 =
            freeSlots process := freeSlots_record hi ha hptr
        rw [← hprocess] at hfree
        rw [← hfree]
        exact Nat.succ_le_succ (ih x.2.1 x.2.2)

end MarrowOS
