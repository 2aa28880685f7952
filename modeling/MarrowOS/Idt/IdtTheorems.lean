import MarrowOS.Idt.Idt
import MarrowOS.Lib.Fallible
import Mathlib.Data.List.Nodup

/-!
# Gates and tables

After `idt_init` the processor finds the entry point of every vector behind its gate, open to user
code (`idtInitGates_vectors`). A series of registrations of commands panics, or else every number
has the one function that was registered for it (`isr80hRegisterAll_dispatch`).
-/

namespace MarrowOS

open ByteMem Fallible

/-! ## Gates -/

/-- The entry point of a vector. -/
def EntryPoints.entry (entries : EntryPoints) (vector : ℕ) : UInt32 :=
  if vector = 0x80 then entries.isr80hWrapper
  else if vector = 0 then entries.idtZero
  else entries.interruptPointerTable vector

/-- A gate of the kernel: into the kernel's code, for everyone, with interrupts off. -/
def kernelGate (address : UInt32) : Gate := ⟨address.toNat, kernelCodeSelector, true, 3, 0xE⟩

section
variable {mem mem' : Mem} {a table : ℕ}

/-- A gate only depends on its own eight bytes. -/
lemma gateAt_congr (h : ∀ x, a ≤ x → x < a + 8 → mem' x = mem x) :
    gateAt mem' a = gateAt mem a := by
  unfold gateAt
  rw [readU16_congr fun x hx hx' => h x hx (by omega),
    readU16_congr fun x hx hx' => h x (by omega) (by omega),
    readU16_congr fun x hx hx' => h x (by omega) (by omega), h (a + 5) (by omega) (by omega)]

lemma idtSet_of_outside {n x : ℕ} (address : UInt32)
    (h : x < table + 8 * n ∨ table + 8 * n + 8 ≤ x) :
    idtSet table n address mem x = mem x := by
  rw [idtSet]
  simp only [sizeofIdtDesc]
  rw [writeU16_of_outside (by omega), Function.update_of_ne (by omega),
    Function.update_of_ne (by omega), writeU16_of_outside (by omega),
    writeU16_of_outside (by omega)]

/-- The two halves of an address. -/
lemma toNat_halves (address : UInt32) : (address &&& 0x0000ffff).toNat = address.toNat % 2 ^ 16 ∧
    (address >>> 16).toNat = address.toNat / 2 ^ 16 := by
  constructor
  · rw [UInt32.toNat_and]
    exact Nat.and_two_pow_sub_one_eq_mod _ 16
  · rw [UInt32.toNat_shiftRight, Nat.shiftRight_eq_div_pow]
    rfl

lemma gateAt_idtSet (n : ℕ) (address : UInt32) :
    gateAt (idtSet table n address mem) (table + 8 * n) = kernelGate address := by
  rcases toNat_halves address with ⟨hlow, hhigh⟩
  have hlt := address.toNat_lt
  generalize hm : idtSet table n address mem = mem'
  rw [idtSet] at hm
  simp only [sizeofIdtDesc] at hm
  have h0 : readU16 mem' (table + 8 * n) = address.toNat % 2 ^ 16 := by
    rw [← hm, readU16_congr fun x _ _ => writeU16_of_outside (by omega),
      readU16_congr fun x _ _ => Function.update_of_ne (by omega) _ _,
      readU16_congr fun x _ _ => Function.update_of_ne (by omega) _ _,
      readU16_congr fun x _ _ => writeU16_of_outside (by omega), readU16_writeU16_self (by omega),
      hlow]
  have h2 : readU16 mem' (table + 8 * n + 2) = kernelCodeSelector := by
    rw [← hm, readU16_congr fun x _ _ => writeU16_of_outside (by omega),
      readU16_congr fun x _ _ => Function.update_of_ne (by omega) _ _,
      readU16_congr fun x _ _ => Function.update_of_ne (by omega) _ _,
      readU16_writeU16_self (by decide)]
  have h5 : mem' (table + 8 * n + 5) = 0xEE := by
    rw [← hm, writeU16_of_outside (by omega), Function.update_self]
  have h6 : readU16 mem' (table + 8 * n + 6) = address.toNat / 2 ^ 16 := by
    rw [← hm, readU16_writeU16_self (by omega), hhigh]
  unfold gateAt kernelGate
  rw [h0, h2, h5, h6, show address.toNat % 2 ^ 16 + address.toNat / 2 ^ 16 * 2 ^ 16 = address.toNat
    by omega]
  rfl

/-- The table is set for the vectors below `n`, and no byte beyond the table has changed. -/
structure GatesSet (entry : ℕ → UInt32) (table n : ℕ) (mem mem' : Mem) : Prop where
  gates : ∀ i < n, gateAt mem' (table + 8 * i) = kernelGate (entry i)
  outside : ∀ x, x < table ∨ table + 8 * marrowosTotalInterrupts ≤ x → mem' x = mem x

/-- One more gate, or another one. -/
lemma GatesSet.idtSet {entry : ℕ → UInt32} {n k m : ℕ} (h : GatesSet entry table n mem mem')
    (hk : k < marrowosTotalInterrupts) (hm : m ≤ n ∨ m ≤ n + 1 ∧ k = n) (address : UInt32) :
    GatesSet (Function.update entry k address) table m mem (idtSet table k address mem') := by
  simp only [marrowosTotalInterrupts] at hk
  constructor
  · intro i hi
    by_cases heq : i = k
    · rw [heq, gateAt_idtSet, Function.update_self]
    · rw [gateAt_congr fun x hx hx' => idtSet_of_outside address (by omega),
        h.gates i (by omega), Function.update_of_ne heq]
  · intro x hx
    have hx' := hx
    simp only [marrowosTotalInterrupts] at hx'
    rw [idtSet_of_outside address (by omega), h.outside x hx]

/-- The loop over all vectors. -/
lemma gatesSet_range (entry : ℕ → UInt32) (table : ℕ) (mem : Mem) {n : ℕ}
    (hn : n ≤ marrowosTotalInterrupts) :
    GatesSet entry table n mem ((List.range n).foldl (fun mem i => idtSet table i (entry i) mem)
      (fill mem table (sizeofIdtDesc * marrowosTotalInterrupts) 0)) := by
  induction n with
  | zero => exact ⟨fun i hi => absurd hi (Nat.not_lt_zero i), fun x hx => fill_of_outside hx⟩
  | succ n ih =>
    rw [List.range_succ, List.foldl_append, List.foldl_cons, List.foldl_nil]
    have hstep := (ih (by omega)).idtSet (k := n) (m := n + 1) (by omega) (Or.inr ⟨le_rfl, rfl⟩)
      (entry n)
    rwa [Function.update_eq_self] at hstep

end

/-- **Vectors.** After `idt_init` the processor finds the gate of every vector below 512 and no
other: it leads to the entry point of the vector, in the kernel's code segment, and user code may
ask for it. Beyond the table no byte of memory has changed. -/
theorem idtInitGates_vectors (entries : EntryPoints) (idtrDescriptors : UInt32) (mem : Mem) :
    (∀ vector, vectorGate (idtInitGates entries idtrDescriptors mem).1
        (idtInitGates entries idtrDescriptors mem).2 vector =
      if vector < marrowosTotalInterrupts then some (kernelGate (entries.entry vector))
      else none) ∧
    ∀ x, x < idtrDescriptors.toNat ∨
        idtrDescriptors.toNat + sizeofIdtDesc * marrowosTotalInterrupts ≤ x →
      (idtInitGates entries idtrDescriptors mem).2 x = mem x := by
  have hset : GatesSet entries.entry idtrDescriptors.toNat marrowosTotalInterrupts mem
      (idtInitGates entries idtrDescriptors mem).2 := by
    have hloop := gatesSet_range entries.interruptPointerTable idtrDescriptors.toNat mem le_rfl
    have hzero := hloop.idtSet (k := 0) (by decide) (Or.inl le_rfl) entries.idtZero
    have hwrapper := hzero.idtSet (k := 0x80) (by decide) (Or.inl le_rfl) entries.isr80hWrapper
    have hentry : entries.entry = Function.update (Function.update entries.interruptPointerTable 0
        entries.idtZero) 0x80 entries.isr80hWrapper := by
      funext vector
      simp only [EntryPoints.entry, Function.update_apply]
    rw [hentry]
    exact hwrapper
  refine ⟨fun vector => ?_, hset.outside⟩
  unfold vectorGate
  by_cases hlt : vector < marrowosTotalInterrupts
  · rw [if_pos hlt, if_pos]
    · exact congrArg some (hset.gates vector hlt)
    · simp only [idtInitGates, marrowosTotalInterrupts, sizeofIdtDesc] at hlt ⊢
      omega
  · rw [if_neg hlt, if_neg]
    simp only [idtInitGates, marrowosTotalInterrupts, sizeofIdtDesc] at hlt ⊢
    omega

/-! ## Callbacks -/

section
variable {γ : Type} (idtHandleException idtClock : γ)

lemma idtRegister_range (t : Callbacks γ) {n : ℕ} (hn : n ≤ marrowosTotalInterrupts) (vector : ℕ) :
    (List.range n).foldl
      (fun t (i : ℕ) => (idtRegisterInterruptCallback i (some idtHandleException) t).2) t vector =
      if vector < n then some idtHandleException else t vector := by
  induction n with
  | zero => rfl
  | succ n ih =>
    have hin : ¬ ((n : ℤ) < 0 ∨ (n : ℤ) ≥ marrowosTotalInterrupts) := by omega
    rw [List.range_succ, List.foldl_append, List.foldl_cons, List.foldl_nil,
      idtRegisterInterruptCallback, if_neg hin]
    simp only [Int.toNat_natCast, Function.update_apply, ih (by omega)]
    split_ifs <;> first | rfl | omega

/-- Exceptions below 32, the clock at 32. -/
lemma idtInitCallbacks_apply (t : Callbacks γ) (vector : ℕ) :
    idtInitCallbacks idtHandleException idtClock t vector =
      if vector < 0x20 then some idtHandleException
      else if vector = 0x20 then some idtClock else t vector := by
  have hloop := idtRegister_range idtHandleException t (n := 0x20) (by decide) vector
  rw [idtInitCallbacks, idtRegisterInterruptCallback, if_neg (by decide)]
  show (Function.update _ (0x20 : ℕ) (some idtClock) : Callbacks γ) vector = _
  rw [Function.update_apply, hloop]
  split_ifs <;> first | rfl | omega

end

/-! ## Commands -/

section
variable {γ : Type}

/-- A number that can be registered. -/
def CommandId (id : ℤ) : Prop := 0 ≤ id ∧ id < marrowosMaxIsr80hCommands

instance (id : ℤ) : Decidable (CommandId id) :=
  inferInstanceAs (Decidable (0 ≤ id ∧ id < marrowosMaxIsr80hCommands))

lemma isr80hRegisterCommand_ok_iff {id : ℤ} {command : Option γ} {t t' : Callbacks γ} :
    isr80hRegisterCommand id command t = .ok t' ↔
      CommandId id ∧ t id.toNat = none ∧ Function.update t id.toNat command = t' := by
  unfold isr80hRegisterCommand CommandId
  by_cases hid : id < 0 ∨ id ≥ marrowosMaxIsr80hCommands
  · rw [if_pos hid]
    exact ⟨fun h => (nomatch h), fun h => absurd h.1 (by omega)⟩
  · rw [if_neg hid]
    cases ht : t id.toNat with
    | some command' =>
      rw [if_pos Option.isSome_some]
      exact ⟨fun h => (nomatch h), fun h => (nomatch h.2.1)⟩
    | none =>
      rw [if_neg (by simp)]
      exact ⟨fun h => ⟨by omega, rfl, Except.ok.inj h⟩, fun h => congrArg Except.ok h.2.2⟩

/-- What a number stands for after one more registration. -/
lemma isr80hCommandFunc_update {id : ℤ} (hid : CommandId id) (command : Option γ) (t : Callbacks γ)
    (k : ℤ) : isr80hCommandFunc (Function.update t id.toNat command) k =
      if k = id then command else isr80hCommandFunc t k := by
  unfold CommandId at hid
  unfold isr80hCommandFunc
  by_cases hk : k = id
  · rw [if_neg (by omega), if_pos hk, hk, Function.update_self]
  · rw [if_neg hk]
    split
    · rfl
    · rw [Function.update_of_ne (by omega)]

/-- A series of registrations over a table that has commands already. -/
lemma isr80hRegisterAll_ok (calls : List (ℤ × γ)) (t : Callbacks γ) :
    ((∃ t', isr80hRegisterAll calls t = .ok t') ↔
      (∀ call ∈ calls, CommandId call.1 ∧ t call.1.toNat = none) ∧ (calls.map Prod.fst).Nodup) ∧
    ∀ t', isr80hRegisterAll calls t = .ok t' → ∀ k : ℤ,
      isr80hCommandFunc t' k = (calls.lookup k).or (isr80hCommandFunc t k) := by
  induction calls generalizing t with
  | nil =>
    refine ⟨⟨fun _ => ⟨by simp, List.nodup_nil⟩, fun _ => ⟨t, rfl⟩⟩, fun t' ht' k => ?_⟩
    rw [← Except.ok.inj ht']
    rfl
  | cons call calls ih =>
    rcases call with ⟨id, f⟩
    have hcons (t' : Callbacks γ) : isr80hRegisterAll ((id, f) :: calls) t = .ok t' ↔
        (CommandId id ∧ t id.toNat = none) ∧
          isr80hRegisterAll calls (Function.update t id.toNat (some f)) = .ok t' := by
      rw [isr80hRegisterAll, List.foldlM_cons, bind_eq_ok]
      simp only [isr80hRegisterCommand_ok_iff]
      exact ⟨fun ⟨u, ⟨hid, hnone, hu⟩, h⟩ => ⟨⟨hid, hnone⟩, hu ▸ h⟩,
        fun ⟨⟨hid, hnone⟩, h⟩ => ⟨_, ⟨hid, hnone, rfl⟩, h⟩⟩
    rcases ih (Function.update t id.toNat (some f)) with ⟨hiff, hlookup⟩
    constructor
    · simp only [hcons, exists_and_left, hiff]
      rw [List.forall_mem_cons, List.map_cons, List.nodup_cons]
      constructor
      · rintro ⟨⟨hid, hnone⟩, hrest, hnodup⟩
        refine ⟨⟨⟨hid, hnone⟩, fun call hcall => ?_⟩, fun hmem => ?_, hnodup⟩
        · rcases hrest call hcall with ⟨hcallId, hupdate⟩
          have hne : call.1.toNat ≠ id.toNat := fun heq => by
            rw [heq, Function.update_self] at hupdate
            cases hupdate
          rw [Function.update_of_ne hne] at hupdate
          exact ⟨hcallId, hupdate⟩
        · rcases List.mem_map.mp hmem with ⟨call, hcall, heq⟩
          have hupdate := (hrest call hcall).2
          rw [heq, Function.update_self] at hupdate
          cases hupdate
      · rintro ⟨⟨hfirst, hrest⟩, hnotin, hnodup⟩
        refine ⟨hfirst, fun call hcall => ⟨(hrest call hcall).1, ?_⟩, hnodup⟩
        have hne : call.1 ≠ id := fun heq => hnotin (List.mem_map.mpr ⟨call, hcall, heq⟩)
        have hcallId := (hrest call hcall).1
        have hid := hfirst.1
        unfold CommandId at hcallId hid
        rw [Function.update_of_ne (by omega)]
        exact (hrest call hcall).2
    · intro t' ht' k
      rcases (hcons t').mp ht' with ⟨⟨hid, hnone⟩, hrest⟩
      rw [hlookup t' hrest k, isr80hCommandFunc_update hid, List.lookup_cons]
      by_cases hk : k = id
      · -- the number is not registered again behind its first registration
        have hlater : calls.lookup id = none := by
          rw [List.lookup_eq_none_iff]
          intro call hcall
          have hupdate := ((hiff.mp ⟨t', hrest⟩).1 call hcall).2
          rw [bne_iff_ne]
          intro heq
          rw [← heq, Function.update_self] at hupdate
          cases hupdate
        rw [if_pos hk, hk, hlater, beq_self_eq_true]
        rfl
      · rw [if_neg hk, beq_false_of_ne hk]

end

/-- **Commands.** A series of registrations of commands ends without a panic if and only if its
numbers are below 1024 and none comes twice. Then every number stands for the function that was
registered for it, and every other `int` for none. -/
theorem isr80hRegisterAll_dispatch {γ : Type} (calls : List (ℤ × γ)) :
    ((∃ t, isr80hRegisterAll calls (fun _ => none) = .ok t) ↔
      (∀ call ∈ calls, CommandId call.1) ∧ (calls.map Prod.fst).Nodup) ∧
    ∀ t, isr80hRegisterAll calls (fun _ => none) = .ok t → ∀ command : ℤ,
      isr80hCommandFunc t command = calls.lookup command := by
  rcases isr80hRegisterAll_ok calls (fun _ => none) with ⟨hiff, hlookup⟩
  refine ⟨by simpa using hiff, fun t ht command => ?_⟩
  have hnone : isr80hCommandFunc (fun _ => (none : Option γ)) command = none := by
    unfold isr80hCommandFunc
    split <;> rfl
  rw [hlookup t ht command, hnone, Option.or_none]

/-- The kernel's ten commands. -/
lemma isr80hRegisterCommands_dispatch : ∃ t, isr80hRegisterCommands (fun _ => none) = .ok t ∧
    ∀ command : ℤ, isr80hCommandFunc t command = isr80hRegistrations.lookup command := by
  rcases isr80hRegisterAll_ok isr80hRegistrations (fun _ => none) with ⟨hiff, hlookup⟩
  obtain ⟨t, ht⟩ := hiff.mpr ⟨by decide, by decide⟩
  refine ⟨t, ht, fun command => ?_⟩
  have hnone : isr80hCommandFunc (fun _ => (none : Option Isr80hCommand)) command = none := by
    unfold isr80hCommandFunc
    split <;> rfl
  rw [hlookup t ht command, hnone, Option.or_none]

end MarrowOS
