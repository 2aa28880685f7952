import MarrowOS.Stdlib.CommandLine
import MarrowOS.Stdlib.StrtokTheorems
import MarrowOS.Task.ArgumentCopies

/-!
# The list that a command is split into

Every word costs one allocation, and `marrowos_parse_command` keeps the words in front of the first
one that is refused (`marrowosParseCommand_eq`).
-/

namespace MarrowOS

open ByteMem CInt Fallible Tokens

variable {σ : Type} {A : Allocator σ} {held : σ → ℕ → Prop} {s s' s₁ : Program σ}
  {mem mem' : Mem} {T : List CString} {w t : CString}
  {n src dest count ptr token current scommand lo hi str x : ℕ}

/-! ## Copying a string -/

/-- `strncpy` of a string into a buffer beside it. -/
lemma strncpy_stringAt (h : StringAt mem src w) (hsrc : src + w.length < 2 ^ 32)
    (hdest : dest + count ≤ 2 ^ 32) (hcount : 1 ≤ count)
    (hapart : ∀ x, src ≤ x → x ≤ src + w.length → x < dest ∨ dest + count ≤ x) :
    strncpy .kernel dest src count mem =
      some (writeBytes mem dest (w.take (count - 1) ++ [0])) := by
  have hcopies : Copies .kernel mem dest src dest count (fun i => src + i) w := by
    refine ⟨fun c hc h0 => ?_, fun i hi _ => h.getD hi, fun i hi _ => ?_, fun mem' _ i hi _ => ?_,
      fun mem' _ i hlt => ?_⟩
    · rw [h0] at hc
      exact h.not_mem_zero hc
    · exact hapart _ (Nat.le_add_right _ _) (Nat.add_le_add_left hi _)
    · show some (u32 (src + i)) = some (src + i)
      rw [← Nat.cast_add, u32_natCast_of_lt (by omega)]
    · show some (u32 (dest + i)) = some (dest + i)
      rw [← Nat.cast_add, u32_natCast_of_lt (by omega)]
  exact strncpy_copies hcopies hcount

lemma Program.strncpy_eq (h : StringAt s.mem src w) (hsrc : src + w.length < 2 ^ 32)
    (hdest : dest + count ≤ 2 ^ 32) (hcount : 1 ≤ count)
    (hapart : ∀ x, src ≤ x → x ≤ src + w.length → x < dest ∨ dest + count ≤ x) :
    s.strncpy dest src count =
      .ok { s with mem := writeBytes s.mem dest (w.take (count - 1) ++ [0]) } := by
  rw [Program.strncpy, strncpy_stringAt h hsrc hdest hcount hapart]

/-- What is cut off a string is a string. -/
lemma stringAt_copied (h : StringAt mem src w) (n : ℕ) (mem' : Mem) (dest : ℕ) :
    StringAt (writeBytes mem' dest (w.take n ++ [0])) dest (w.take n) :=
  stringAt_writeBytes fun h0 => h.not_mem_zero (List.mem_of_mem_take h0)

lemma takeWhile_eq_readString (mem : Mem) (n a : ℕ) :
    ((List.range n).map fun i => mem (a + i)).takeWhile (· ≠ 0) = readString mem n a := by
  induction n generalizing a with
  | zero => rfl
  | succ n ih =>
    rw [List.range_succ_eq_map, List.map_cons, List.map_map, Nat.add_zero]
    have hshift : (fun i => mem (a + i)) ∘ Nat.succ = fun i => mem (a + 1 + i) := by
      funext i
      show mem (a + (i + 1)) = mem (a + 1 + i)
      rw [Nat.add_right_comm, Nat.add_assoc]
    rw [hshift, readString]
    by_cases h0 : mem a = 0
    · rw [if_pos h0, List.takeWhile_cons_of_neg (by simpa using h0)]
    · rw [if_neg h0, List.takeWhile_cons_of_pos (by simpa using h0), ih]

/-- The text of a node that holds a string. -/
lemma argumentText_of_stringAt {node : ℕ} (h : StringAt mem node w) (hlength : w.length ≤ 511) :
    argumentText mem node = w := by
  rw [argumentText, takeWhile_eq_readString, h.readString, List.take_take]
  exact List.take_of_length_le hlength

/-! ## Words -/

/-- The words of a command, the maximal runs of characters that are no spaces. -/
def words (text : CString) : List CString := tokens (· == 0x20) text

lemma isDelimiter_space : isDelimiter [0x20] = (· == 0x20) := by
  funext c
  rw [Bool.eq_iff_iff, isDelimiter_iff, List.mem_singleton, beq_iff_eq]

/-- `strtok` has answered `token`, the first one of `T`, and the others are in the string at the
saved pointer. All this is between `lo` and `hi`. -/
def Pending (lo hi : ℕ) (s : Strtok) (token : ℕ) : List CString → Prop
  | [] => token = 0 ∧ s.sp = 0
  | t :: T => token ≠ 0 ∧ lo ≤ token ∧ token + t.length ≤ hi ∧ StringAt s.mem token t ∧
    s.sp ≠ 0 ∧ lo ≤ s.sp ∧ ∃ v, words v = T ∧ StringAt s.mem s.sp v ∧ s.sp + v.length ≤ hi

/-- Nothing but the bytes from `lo` to `hi` matters for it. -/
lemma Pending.congr {s s' : Strtok} (h : Pending lo hi s token T) (hsp : s'.sp = s.sp)
    (hsame : ∀ x, lo ≤ x → x ≤ hi → s'.mem x = s.mem x) : Pending lo hi s' token T := by
  cases T with
  | nil => exact ⟨h.1, hsp.trans h.2⟩
  | cons t T =>
    rcases h with ⟨hne, hlo, hhi, htoken, hsp₀, hsp₁, v, hv, hrest, hend⟩
    rw [← hsp] at hsp₀ hsp₁ hrest hend
    refine ⟨hne, hlo, hhi, htoken.congr fun x h₀ h₁ => hsame x (by omega) (by omega), hsp₀, hsp₁, v,
      hv, hrest.congr fun x h₀ h₁ => hsame x (by omega) (by omega), hend⟩

lemma Program.strtok_pending (hlo : lo ≠ 0) (hhi : hi < 2 ^ 32) (hstart : lo ≤ s.start str)
    (h : StringAt s.mem (s.start str) w) (hend : s.start str + w.length ≤ hi) :
    ∃ token s', s.strtok str = .ok (token, s') ∧ Pending lo hi s'.toStrtok token (words w) ∧
      (∀ x, x < lo ∨ hi < x → s'.mem x = s.mem x) ∧ s'.heap = s.heap := by
  have hd : (0 : UInt8) ∉ [0x20] := by decide
  have hwords : words w = tokens (isDelimiter [0x20]) w := by
    rw [isDelimiter_space]
    rfl
  by_cases hnone : w.dropWhile (isDelimiter [0x20]) = []
  · rcases strtok_none hd (by omega) h (by omega) hnone with ⟨s₁, hcall, hsp, hwithin, -⟩
    rw [hwords, ← tokens_dropWhile, hnone]
    refine ⟨0, { s with toStrtok := s₁ }, ?_, ⟨rfl, hsp⟩, fun x hx => ?_, rfl⟩
    · rw [Program.strtok, hcall, ok_bind]
      rfl
    · exact hwithin.outside x (by omega)
  · rcases strtok_token hd (by omega) h (by omega) hnone with ⟨q, s₁, t, v, hcall, htokens, hfinds⟩
    have hfirst := hfinds.first
    have hbelow := hfinds.below
    have hlength := hfinds.length
    rw [hwords, htokens]
    refine ⟨q, { s with toStrtok := s₁ }, ?_, ?_, fun x hx => ?_, rfl⟩
    · rw [Program.strtok, hcall, ok_bind]
      rfl
    · have hsp : s₁.sp ≠ 0 ∧ lo ≤ s₁.sp ∧ s₁.sp + v.length ≤ hi := by omega
      refine ⟨by omega, by omega, by omega, hfinds.token, hsp.1, hsp.2.1, v, ?_, hfinds.rest,
        hsp.2.2⟩
      rw [words, isDelimiter_space]
    · exact hfinds.within.outside x (by omega)

/-! ## Allocations -/

/-- A block that is granted was not held before, and is held from then on. -/
structure GrantsApart (A : Allocator σ) (held : σ → ℕ → Prop) : Prop where
  kept : ∀ size h x, held h x → held (A.kmalloc size h).2 x
  fits : ∀ size h, (A.kmalloc size h).1 ≠ 0 → (A.kmalloc size h).1 + size ≤ 2 ^ 32
  fresh : ∀ size h, (A.kmalloc size h).1 ≠ 0 → ∀ x, (A.kmalloc size h).1 ≤ x →
    x < (A.kmalloc size h).1 + size → ¬ held h x ∧ held (A.kmalloc size h).2 x

/-- How many requests for a node are granted before one is refused, of the next `n`. -/
def grantedRequests (A : Allocator σ) : (n : ℕ) → σ → ℕ
  | 0, _ => 0
  | n + 1, h =>
    match A.kmalloc sizeofCommandArgument h with
    | (ptr, h) => if ptr = 0 then 0 else grantedRequests A n h + 1

/-- A buffer on the stack, which no allocation gets. -/
structure OnStack (held : σ → ℕ → Prop) (h : σ) (buf size : ℕ) : Prop where
  pos : buf ≠ 0
  fits : buf + size ≤ 2 ^ 32
  held : ∀ x, buf ≤ x → x < buf + size → held h x

lemma OnStack.kmalloc {h : σ} {buf size : ℕ} (hstack : OnStack held h buf size)
    (hA : GrantsApart A held) (n : ℕ) : OnStack held (A.kmalloc n h).2 buf size :=
  ⟨hstack.pos, hstack.fits, fun x h₀ h₁ => hA.kept n h x (hstack.held x h₀ h₁)⟩

lemma grantedRequests_refused {h : σ} (n : ℕ) (h0 : (A.kmalloc sizeofCommandArgument h).1 = 0) :
    grantedRequests A (n + 1) h = 0 := if_pos h0

lemma grantedRequests_ne {h : σ} (n : ℕ) (h0 : (A.kmalloc sizeofCommandArgument h).1 = 0) :
    grantedRequests A (n + 1) h ≠ n + 1 := by
  rw [grantedRequests_refused n h0]
  exact (Nat.succ_ne_zero n).symm

lemma marrowosMalloc_refused (h0 : (A.kmalloc sizeofCommandArgument s.heap).1 = 0) :
    marrowosMalloc A sizeofCommandArgument s =
      (0, { s with heap := (A.kmalloc sizeofCommandArgument s.heap).2 }) := if_pos h0

lemma grantedRequests_granted {h : σ} (n : ℕ) (hne : (A.kmalloc sizeofCommandArgument h).1 ≠ 0) :
    grantedRequests A (n + 1) h =
      grantedRequests A n (A.kmalloc sizeofCommandArgument h).2 + 1 := if_neg hne

lemma grantedRequests_le (A : Allocator σ) (n : ℕ) (h : σ) : grantedRequests A n h ≤ n := by
  induction n generalizing h with
  | zero => exact le_rfl
  | succ n ih =>
    by_cases h0 : (A.kmalloc sizeofCommandArgument h).1 = 0
    · rw [grantedRequests_refused n h0]
      exact Nat.zero_le _
    · rw [grantedRequests_granted n h0]
      exact Nat.succ_le_succ (ih _)

/-- A node with the text `t`, which was made in a block at `ptr`. -/
structure NewNode (A : Allocator σ) (s s' : Program σ) (ptr : ℕ) (t : CString) : Prop where
  sp : s'.sp = s.sp
  heap : s'.heap = (A.kmalloc sizeofCommandArgument s.heap).2
  outside : ∀ x, ¬ InNode ptr x → s'.mem x = s.mem x
  text : StringAt s'.mem ptr (t.take 511)
  next : commandArgumentNext s'.mem ptr = 0

/-- An allocation that is granted becomes a node with the token. -/
lemma marrowosMalloc_node (hfits : ptr + sizeofCommandArgument ≤ 2 ^ 32)
    (hmalloc : (A.kmalloc sizeofCommandArgument s.heap).1 = ptr) (hne : ptr ≠ 0)
    (h : StringAt s.mem token t) (hspace : token + t.length < 2 ^ 32)
    (hapart : ∀ x, token ≤ x → x ≤ token + t.length → ¬ InNode ptr x) :
    ∃ s₀ s₁, marrowosMalloc A sizeofCommandArgument s = (ptr, s₀) ∧
      s₀.strncpy ptr token sizeofArgument = .ok s₁ ∧ NewNode A s (s₁.setNext ptr 0) ptr t := by
  have h512 : sizeofArgument = 512 := rfl
  have h516 : sizeofCommandArgument = 516 := rfl
  have hcall : marrowosMalloc A sizeofCommandArgument s =
      (ptr, { s with heap := (A.kmalloc sizeofCommandArgument s.heap).2,
                     mem := fill s.mem ptr sizeofCommandArgument 0 }) := by
    subst hmalloc
    exact if_neg hne
  have hlength : (t.take 511).length ≤ 511 := List.length_take_le ..
  have hlength' : (t.take 511 ++ [0]).length ≤ 512 := by
    rw [List.length_append, List.length_singleton]
    omega
  -- the token lies in the buffer on the stack, so neither `calloc` nor the copy writes it
  have houtside : ∀ x, token ≤ x → x ≤ token + t.length → x < ptr ∨ ptr + 516 ≤ x := by
    intro x h₀ h₁
    have hx := hapart x h₀ h₁
    unfold InNode at hx
    omega
  have hstring : StringAt (fill s.mem ptr sizeofCommandArgument 0) token t :=
    h.congr fun x h₀ h₁ => fill_of_outside (houtside x h₀ h₁)
  refine ⟨_, _, hcall, Program.strncpy_eq hstring hspace (by omega) (by decide) ?_, rfl, rfl, ?_,
    ?_, ?_⟩
  · intro x h₀ h₁
    have hx := houtside x h₀ h₁
    omega
  · intro x hx
    rw [InNode] at hx
    have hnext : x < ptr + 512 ∨ ptr + 512 + 4 ≤ x := by omega
    have htext : x < ptr ∨ ptr + (t.take 511 ++ [0]).length ≤ x := by omega
    -- `next`, the text and the clearing: each writes inside the node only
    calc writeU32 _ (ptr + 512) 0 x = writeBytes _ ptr (t.take 511 ++ [0]) x :=
          writeU32_of_outside hnext
      _ = fill s.mem ptr sizeofCommandArgument 0 x := writeBytes_of_outside htext
      _ = s.mem x := fill_of_outside (by omega)
  · apply (stringAt_copied h 511 _ ptr).congr
    intro x h₀ h₁
    exact writeU32_of_outside (show x < ptr + 512 ∨ ptr + 512 + 4 ≤ x by omega)
  · exact readU32_writeU32_self (by norm_num)

/-! ## The loop -/

/-- The byte belongs to the pointer to the next node. -/
def InNext (node x : ℕ) : Prop := node + sizeofArgument ≤ x ∧ x < node + sizeofCommandArgument

/-- What the loop does that has the words `T` to go and the node `current` to append to: there are
nodes for the words in front of the first allocation that is refused, and the saved pointer is left
when there is one. -/
structure Appends (A : Allocator σ) (held : σ → ℕ → Prop) (lo hi current : ℕ) (T : List CString)
    (s s' : Program σ) (nodes : List ℕ) : Prop where
  chain : ArgumentChain s'.mem (commandArgumentNext s'.mem current) nodes
  texts : nodes.map (argumentText s'.mem) =
    (T.take (grantedRequests A T.length s.heap)).map (List.take 511)
  same : ∀ x, held s.heap x → x < lo ∨ hi < x → ¬ InNext current x → s'.mem x = s.mem x
  kept : ∀ x, held s.heap x → held s'.heap x
  saved : s'.sp = 0 ↔ grantedRequests A T.length s.heap = T.length

/-- The node that the loop appends to: it is the last one, and not on the stack. -/
structure LastNode (held : σ → ℕ → Prop) (lo hi current : ℕ) (s : Program σ) : Prop where
  next : commandArgumentNext s.mem current = 0
  held : ∀ x, InNext current x → held s.heap x
  apart : ∀ x, InNext current x → x < lo ∨ hi < x

/-- A refused allocation ends the loop, with the saved pointer where it is. -/
lemma appends_refused (hA : GrantsApart A held) (hcurrent : LastNode held lo hi current s)
    (hrefused : (A.kmalloc sizeofCommandArgument s.heap).1 = 0) (hsp : s.sp ≠ 0) (t : CString)
    (T : List CString) : Appends A held lo hi current (t :: T) s
      { s with heap := (A.kmalloc sizeofCommandArgument s.heap).2 } [] := by
  have hless := grantedRequests_ne T.length hrefused
  refine ⟨hcurrent.next, ?_, fun _ _ _ _ => rfl, hA.kept _ _, iff_of_false hsp hless⟩
  rw [List.length_cons, grantedRequests_refused _ hrefused]
  rfl

lemma InNext.inNode {node : ℕ} (h : InNext node x) : InNode node x :=
  ⟨(Nat.le_add_right node 512).trans h.1, h.2⟩

lemma setNext_outside {node next : ℕ} (hx : ¬ InNext node x) :
    (s.setNext node next).mem x = s.mem x := by
  have hx' : ¬ (node + 512 ≤ x ∧ x < node + 516) := hx
  exact writeU32_of_outside (show x < node + 512 ∨ node + 512 + 4 ≤ x by omega)

/-- A node in a block that is new, so neither in the buffer on the stack nor held before. -/
structure Made (A : Allocator σ) (held : σ → ℕ → Prop) (lo hi ptr : ℕ) (s s₁ : Program σ)
    (t : CString) : Prop extends NewNode A s s₁ ptr t where
  stack : ∀ x, InNode ptr x → x < lo ∨ hi < x
  other : ∀ x, InNode ptr x → ¬ held s.heap x
  mine : ∀ x, InNode ptr x → held s₁.heap x
  granted : ∀ n, grantedRequests A (n + 1) s.heap = grantedRequests A n s₁.heap + 1
  ptr_ne : ptr ≠ 0
  ptr_lt : ptr < 2 ^ 32

/-- The new node is the last one, also after a call of `strtok`. -/
lemma Made.lastNode (hnode : Made A held lo hi ptr s s₁ t) {s₂ : Program σ}
    (hheap : s₂.heap = s₁.heap) (hmem : ∀ x, InNode ptr x → s₂.mem x = s₁.mem x) :
    LastNode held lo hi ptr s₂ := by
  have hword : commandArgumentNext s₂.mem ptr = commandArgumentNext s₁.mem ptr :=
    readU32_congr fun x h₀ h₁ => hmem x (InNext.inNode ⟨h₀, h₁⟩)
  refine ⟨hword.trans hnode.next, fun x hin => ?_, fun x hin => hnode.stack x hin.inNode⟩
  rw [hheap]
  exact hnode.mine x hin.inNode

/-- Its text stays when nodes are appended to it. -/
lemma Made.argumentText_eq {nodes : List ℕ} (hnode : Made A held lo hi ptr s s₁ t)
    {s₂ : Program σ} (hheap : s₂.heap = s₁.heap)
    (hmem : ∀ x, InNode ptr x → s₂.mem x = s₁.mem x)
    (h : Appends A held lo hi ptr T s₂ s' nodes) : argumentText s'.mem ptr = t.take 511 := by
  have hlength : (t.take 511).length ≤ 511 := List.length_take_le ..
  refine argumentText_of_stringAt (hnode.text.congr fun x h₀ h₁ => ?_) hlength
  have hin : InNode ptr x := ⟨h₀, show x < ptr + 516 by omega⟩
  have hno : ¬ InNext ptr x := fun hin => absurd (show ptr + 512 ≤ x from hin.1) (by omega)
  have hmine := hnode.mine x hin
  rw [← hheap] at hmine
  rw [h.same x hmine (hnode.stack x hin) hno, hmem x hin]

lemma Made.kept (hA : GrantsApart A held) (hnode : Made A held lo hi ptr s s₁ t) (x : ℕ)
    (hx : held s.heap x) : held s₁.heap x := by
  rw [hnode.heap]
  exact hA.kept _ _ x hx

/-- One more node in front of those that are appended to it. -/
lemma Appends.cons {nodes : List ℕ} (hA : GrantsApart A held)
    (hcurrent : LastNode held lo hi current s) (hnode : Made A held lo hi ptr s s₁ t)
    {s₂ : Program σ} (hheap : s₂.heap = s₁.heap)
    (hmem : ∀ x, x < lo ∨ hi < x → s₂.mem x = (s₁.setNext current ptr).mem x)
    (h : Appends A held lo hi ptr T s₂ s' nodes) :
    Appends A held lo hi current (t :: T) s s' (ptr :: nodes) := by
  have hkept := hnode.kept hA
  rw [← hheap] at hkept
  have hgranted := hnode.granted T.length
  rw [← hheap] at hgranted
  -- what was held before is not in the node that was made
  have hold : ∀ x, held s.heap x → x < lo ∨ hi < x → s'.mem x = (s₁.setNext current ptr).mem x := by
    intro x hx happart
    rw [h.same x (hkept x hx) happart fun hin => hnode.other x hin.inNode hx]
    exact hmem x happart
  -- the link that was set before the rest was appended is still there
  have hnext : commandArgumentNext s'.mem current = ptr := by
    have hword : readU32 s'.mem (current + sizeofArgument) =
        readU32 (s₁.setNext current ptr).mem (current + sizeofArgument) := by
      apply readU32_congr
      intro x h₀ h₁
      have hin : InNext current x := ⟨h₀, h₁⟩
      exact hold x (hcurrent.held x hin) (hcurrent.apart x hin)
    exact hword.trans (readU32_writeU32_self hnode.ptr_lt)
  have htext := hnode.argumentText_eq hheap (fun x hin => ?_) h
  · refine ⟨⟨hnext, hnode.ptr_ne, h.chain⟩, ?_, ?_, fun x hx => h.kept x (hkept x hx), ?_⟩
    · rw [List.length_cons, hgranted, List.take_succ_cons, List.map_cons, List.map_cons, htext,
        h.texts]
    · intro x hx happart hno
      rw [hold x hx happart, setNext_outside hno]
      exact hnode.outside x fun hin => hnode.other x hin hx
    · rw [List.length_cons, hgranted, Nat.succ_inj]
      exact h.saved
  · -- the text of the new node lies apart from the link to it
    rw [hmem x (hnode.stack x hin)]
    exact setNext_outside fun hcur => hnode.other x hin (hcurrent.held x hcur)

/-- A request that is granted, for the word that `strtok` has answered. -/
lemma marrowosMalloc_made (hA : GrantsApart A held)
    (hstack : OnStack held s.heap lo (hi + 1 - lo)) (hhi : lo ≤ hi) (hlo : lo ≤ token)
    (hend : token + t.length ≤ hi) (h : StringAt s.mem token t)
    (hne : (A.kmalloc sizeofCommandArgument s.heap).1 ≠ 0) :
    ∃ ptr s₀ s₁, ptr ≠ 0 ∧ marrowosMalloc A sizeofCommandArgument s = (ptr, s₀) ∧
      s₀.strncpy ptr token sizeofArgument = .ok s₁ ∧
      Made A held lo hi ptr s (s₁.setNext ptr 0) t := by
  have hfits := hA.fits _ _ hne
  have hfresh := hA.fresh _ _ hne
  have hspace := hstack.fits
  have hapart : ∀ x, InNode (A.kmalloc sizeofCommandArgument s.heap).1 x → x < lo ∨ hi < x := by
    intro x hin
    by_contra hno
    exact (hfresh x hin.1 hin.2).1 (hstack.held x (by omega) (by omega))
  rcases marrowosMalloc_node hfits rfl hne h (by omega)
    (fun x h₀ h₁ hin => absurd (hapart x hin) (by omega)) with ⟨s₀, s₁, hcall, hcopy, hnode⟩
  refine ⟨_, s₀, s₁, hne, hcall, hcopy, hnode, hapart, fun x hin => (hfresh x hin.1 hin.2).1,
    fun x hin => ?_, fun n => ?_, hne, lt_of_lt_of_le (Nat.lt_add_of_pos_right (by decide)) hfits⟩
  · rw [hnode.heap]
    exact (hfresh x hin.1 hin.2).2
  · rw [hnode.heap]
    exact grantedRequests_granted n hne

/-- `strtok` with null answers the next word. -/
lemma Pending.next (hstack : OnStack held s.heap lo (hi + 1 - lo)) (hhi : lo ≤ hi)
    (hpending : Pending lo hi s.toStrtok token (t :: T)) (hsp : s₁.sp = s.sp)
    (hsame : ∀ x, lo ≤ x → x ≤ hi → s₁.mem x = s.mem x) :
    ∃ token' s₂, s₁.strtok 0 = .ok (token', s₂) ∧ Pending lo hi s₂.toStrtok token' T ∧
      (∀ x, x < lo ∨ hi < x → s₂.mem x = s₁.mem x) ∧ s₂.heap = s₁.heap := by
  rcases hpending with ⟨-, -, -, -, hne, hlo, v, hv, hrest, hend⟩
  have hstart : s₁.start 0 = s.sp := by
    rw [Strtok.start, if_neg (by rw [hsp]; exact hne), hsp]
  have hspace := hstack.fits
  have hpos := hstack.pos
  rw [← hv]
  apply Program.strtok_pending hpos (by omega)
  · rw [hstart]
    exact hlo
  · rw [hstart]
    exact hrest.congr fun x h₀ h₁ => hsame x (by omega) (by omega)
  · rw [hstart]
    exact hend

/-- **Step lemma** and run: the loop makes nodes until a request is refused. -/
lemma marrowosParseCommandLoop_eq (hA : GrantsApart A held)
    (hstack : OnStack held s.heap lo (hi + 1 - lo)) (hhi : lo ≤ hi)
    (hpending : Pending lo hi s.toStrtok token T) (hcurrent : LastNode held lo hi current s)
    (hn : T.length < n) :
    ∃ s' nodes, marrowosParseCommandLoop A n current token s = .ok s' ∧
      Appends A held lo hi current T s s' nodes := by
  -- on the tokens that are left; the saved pointer is in front of them
  induction T generalizing s current token n with
  | nil =>
    obtain ⟨n, rfl⟩ : ∃ m, n = m + 1 := ⟨n - 1, by omega⟩
    exact ⟨s, [], if_pos hpending.1, hcurrent.next, rfl, fun _ _ _ _ => rfl, fun _ hx => hx,
      iff_of_true hpending.2 rfl⟩
  | cons t T ih =>
    obtain ⟨n, rfl⟩ : ∃ m, n = m + 1 := ⟨n - 1, by omega⟩
    rcases id hpending with ⟨htoken, hlo, hend, hstring, hsp, -⟩
    rw [marrowosParseCommandLoop, if_neg htoken]
    -- a refused node ends the list, and the tokens behind it are dropped
    by_cases hrefused : (A.kmalloc sizeofCommandArgument s.heap).1 = 0
    · refine ⟨_, [], ?_, appends_refused hA hcurrent hrefused hsp t T⟩
      rw [marrowosMalloc_refused hrefused]
      exact if_pos rfl
    · rcases marrowosMalloc_made hA hstack hhi hlo hend hstring hrefused with
        ⟨ptr, s₀, s₁, hne, hcall, hcopy, hmade⟩
      -- the node and the link to it are written apart from the buffer, so `strtok` goes on
      have hsame : ∀ x, lo ≤ x → x ≤ hi →
          ((s₁.setNext ptr 0).setNext current ptr).mem x = s.mem x := by
        intro x h₀ h₁
        rw [setNext_outside fun hin => absurd (hcurrent.apart x hin) (by omega)]
        exact hmade.outside x fun hin => absurd (hmade.stack x hin) (by omega)
      have hsp' : ((s₁.setNext ptr 0).setNext current ptr).sp = s.sp := hmade.sp
      rcases Pending.next hstack hhi hpending hsp' hsame with
        ⟨token', s₂, hstrtok, hpending, hmem, hheap⟩
      have hstack' : OnStack held s₂.heap lo (hi + 1 - lo) := by
        have hsame : s₂.heap = (A.kmalloc sizeofCommandArgument s.heap).2 := hheap.trans hmade.heap
        rw [hsame]
        exact hstack.kmalloc hA _
      -- the new node is the last one, for the next pass
      have hlast : LastNode held lo hi ptr s₂ := by
        apply hmade.lastNode hheap
        intro x hin
        rw [hmem x (hmade.stack x hin)]
        exact setNext_outside fun hcur => hmade.other x hin (hcurrent.held x hcur)
      rw [List.length_cons] at hn
      rcases ih (n := n) hstack' hpending hlast (by omega) with ⟨s', nodes, hloop, happends⟩
      refine ⟨s', ptr :: nodes, ?_, happends.cons hA hcurrent hmade hheap hmem⟩
      rw [hcall]
      simp only [if_neg hne, hcopy, ok_bind, hstrtok]
      exact hloop

/-! ## `marrowos_parse_command` -/

/-- The list of arguments at `root` has these texts; the empty list is null. -/
def Lists (mem : Mem) (root : ℕ) (texts : List CString) : Prop :=
  ∃ nodes, ArgumentChain mem root nodes ∧ nodes.map (argumentText mem) = texts

/-- A command, beside the buffer that it is copied to. -/
structure CommandAt (mem : Mem) (command : ℕ) (text : CString) (buf size : ℕ) : Prop where
  string : StringAt mem command text
  space : command + text.length < 2 ^ 32
  apart : ∀ x, command ≤ x → x ≤ command + text.length → x < buf ∨ buf + size ≤ x

/-- What the words `T` become when no pointer was saved before. -/
structure Parsed (A : Allocator σ) (held : σ → ℕ → Prop) (T : List CString) (h : σ)
    (s' : Program σ) (root : ℕ) : Prop where
  lists : Lists s'.mem root ((T.take (grantedRequests A T.length h)).map (List.take 511))
  kept : ∀ x, held h x → held s'.heap x
  saved : s'.sp = 0 ↔ grantedRequests A T.length h = T.length

lemma marrowosParseCommandTokens_eq (hA : GrantsApart A held)
    (hstack : OnStack held s.heap lo (hi + 1 - lo)) (hhi : lo ≤ hi)
    (hpending : Pending lo hi s.toStrtok token T) (hT : T.length ≤ 2 ^ 32) :
    ∃ root s', marrowosParseCommandTokens A token s = .ok (root, s') ∧
      Parsed A held T s.heap s' root := by
  cases T with
  | nil =>
    exact ⟨0, s, if_pos hpending.1, ⟨[], rfl, rfl⟩, fun _ hx => hx, iff_of_true hpending.2 rfl⟩
  | cons t T =>
    rcases id hpending with ⟨htoken, hlo, hend, hstring, hsp, -⟩
    rw [marrowosParseCommandTokens, if_neg htoken]
    -- without a root there is no list
    by_cases hrefused : (A.kmalloc sizeofCommandArgument s.heap).1 = 0
    · have hless := grantedRequests_ne T.length hrefused
      refine ⟨0, { s with heap := (A.kmalloc sizeofCommandArgument s.heap).2 }, ?_,
        ⟨[], rfl, ?_⟩, hA.kept _ _, iff_of_false hsp hless⟩
      · rw [marrowosMalloc_refused hrefused]
        exact if_pos rfl
      · rw [List.length_cons, grantedRequests_refused _ hrefused]
        rfl
    · rcases marrowosMalloc_made hA hstack hhi hlo hend hstring hrefused with
        ⟨ptr, s₀, s₁, hne, hcall, hcopy, hmade⟩
      -- the root lies apart from the buffer
      have hsame : ∀ x, lo ≤ x → x ≤ hi → (s₁.setNext ptr 0).mem x = s.mem x :=
        fun x h₀ h₁ => hmade.outside x fun hin => absurd (hmade.stack x hin) (by omega)
      rcases Pending.next hstack hhi hpending hmade.sp hsame with
        ⟨token', s₂, hstrtok, hpending, hmem, hheap⟩
      have hstack' : OnStack held s₂.heap lo (hi + 1 - lo) := by
        rw [hheap, hmade.heap]
        exact hstack.kmalloc hA _
      have hblock : ∀ x, InNode ptr x → s₂.mem x = (s₁.setNext ptr 0).mem x :=
        fun x hin => hmem x (hmade.stack x hin)
      rw [List.length_cons] at hT
      rcases marrowosParseCommandLoop_eq (n := 2 ^ 32) hA hstack' hhi hpending
        (hmade.lastNode hheap hblock) (by omega) with ⟨s', nodes, hloop, happends⟩
      have hkept := hmade.kept hA
      have hgranted := hmade.granted T.length
      rw [← hheap] at hkept hgranted
      refine ⟨ptr, s', ?_, ⟨ptr :: nodes, ⟨rfl, hne, happends.chain⟩, ?_⟩,
        fun x hx => happends.kept x (hkept x hx), ?_⟩
      · rw [hcall]
        simp only [if_neg hne, hcopy, ok_bind, hstrtok, hloop]
        rfl
      · rw [List.length_cons, hgranted, List.take_succ_cons, List.map_cons, List.map_cons,
          hmade.argumentText_eq hheap hblock happends, happends.texts]
      · rw [List.length_cons, hgranted, Nat.succ_inj]
        exact happends.saved

/-- **`marrowos_parse_command`** lists the words in front of the first allocation that is refused,
cut to 511 characters, when no pointer was saved before. -/
theorem marrowosParseCommand_eq {max : ℤ} {command : ℕ} {text : CString}
    (hA : GrantsApart A held) (hstack : OnStack held s.heap scommand sizeofScommand)
    (hsp : s.sp = 0) (hcommand : CommandAt s.mem command text scommand sizeofScommand)
    (hmax : max < sizeofScommand) :
    ∃ root s', marrowosParseCommand A scommand command max s = .ok (root, s') ∧
      Parsed A held (words (text.take 1024)) s.heap s' root := by
  have h1025 : sizeofScommand = 1025 := rfl
  have hfits := hstack.fits
  have hmax' : ¬ max ≥ sizeofScommand := not_le.mpr hmax
  have hcopy := Program.strncpy_eq hcommand.string hcommand.space hfits (by decide) hcommand.apart
  have hstring := stringAt_copied hcommand.string 1024 s.mem scommand
  have hlength : (text.take 1024).length ≤ 1024 := List.length_take_le ..
  have hwords : (words (text.take 1024)).length ≤ (text.take 1024).length + 1 :=
    length_tokens_le (text.take 1024)
  rw [marrowosParseCommand, if_neg hmax', hcopy, ok_bind]
  -- the copy is cut off at 1024 characters, and its end is the buffer's last byte
  generalize hs₁ : { s with mem := writeBytes s.mem scommand (text.take 1024 ++ [0]) } = s₁
  -- no string was left over, so `strtok` starts on the copy
  have hstart : s₁.start scommand = scommand := by
    rw [← hs₁]
    exact if_pos hsp
  have hheap₁ : s₁.heap = s.heap := by rw [← hs₁]
  have hstring₁ : StringAt s₁.mem (s₁.start scommand) (text.take 1024) := by
    rw [hstart, ← hs₁]
    exact hstring
  have hhi : scommand + 1024 < 2 ^ 32 := by omega
  rcases Program.strtok_pending hstack.pos hhi hstart.ge hstring₁ (by omega) with
    ⟨token, s₂, hstrtok, hpending, -, hheap⟩
  rw [hheap₁] at hheap
  have hstack' : OnStack held s₂.heap scommand (scommand + 1024 + 1 - scommand) := by
    rw [hheap, show scommand + 1024 + 1 - scommand = sizeofScommand by omega]
    exact hstack
  rcases marrowosParseCommandTokens_eq hA hstack' (Nat.le_add_right _ _) hpending (by omega) with
    ⟨root, s', htokens, hparsed⟩
  rw [hheap] at hparsed
  refine ⟨root, s', ?_, hparsed⟩
  simp only [hstrtok, ok_bind, htokens]

end MarrowOS
