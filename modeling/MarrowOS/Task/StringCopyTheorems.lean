import MarrowOS.Task.Allocations
import MarrowOS.Task.StringCopy

/-!
# Copying a string out of a task

`strncpy` copies what comes before the first NUL, as far as there is room for another
(`strncpy_copies`). `copy_string_from_task` does so twice, and puts the entry of its temporary block
back in between: of the task's address space nothing has changed (`copyStringFromTask_intact`).
-/

namespace MarrowOS

open ByteMem CInt Fallible

variable {k : Kernel} {process : Process} {live : List Alloc} {tables : List ℕ} {mem mem' : Mem}
  {page : ActivePage} {directory virtual dest src d count i n tmp phys max : ℕ} {loc : ℕ → ℕ}
  {s : List UInt8}

/-! ## `strncpy` -/

/-- The memories agree but for `count` bytes from `d` on. -/
def SameBut (d count : ℕ) (mem mem' : Mem) : Prop := ∀ x, x < d ∨ d + count ≤ x → mem' x = mem x

lemma SameBut.writeBytes {bs : List UInt8} (h : bs.length ≤ count) :
    SameBut d count mem (ByteMem.writeBytes mem d bs) := by
  intro x hx
  apply writeBytes_of_outside
  omega

/-- What a copy of the string `s` relies on: byte `i` of it lies at `loc i`, the bytes that are
written lie from `d` on, and both pointers lead there while nothing else is written. -/
structure Copies (page : ActivePage) (mem : Mem) (dest src d count : ℕ) (loc : ℕ → ℕ)
    (s : List UInt8) : Prop where
  nonzero : ∀ c ∈ s, c ≠ 0
  bytes : ∀ i ≤ s.length, i < count → mem (loc i) = s.getD i 0
  apart : ∀ i ≤ s.length, i < count → loc i < d ∨ d + count ≤ loc i
  source : ∀ mem', SameBut d count mem mem' → ∀ i ≤ s.length, i < count →
    page.physical mem' (u32 (src + i)) = some (loc i)
  destination : ∀ mem', SameBut d count mem mem' → ∀ i < count,
    page.physical mem' (u32 (dest + i)) = some (d + i)

lemma Copies.load (h : Copies page mem dest src d count loc s) (hmem : SameBut d count mem mem')
    (hi : i ≤ s.length) (hlt : i < count) : page.load mem' (u32 (src + i)) = some (s.getD i 0) := by
  rw [ActivePage.load, h.source mem' hmem i hi hlt]
  show some (mem' (loc i)) = _
  rw [hmem _ (h.apart i hi hlt), h.bytes i hi hlt]

lemma Copies.store (h : Copies page mem dest src d count loc s) (hmem : SameBut d count mem mem')
    (hlt : i < count) (c : UInt8) :
    page.store mem' (u32 (dest + i)) c = some (Function.update mem' (d + i) c) := by
  rw [ActivePage.store, h.destination mem' hmem i hlt]
  rfl

/-- The loop, when `i` bytes have been copied. -/
lemma strncpyLoop_copies (h : Copies page mem dest src d count loc s) : ∀ (n i : ℕ),
    i ≤ s.length → i + n + 1 = count →
    strncpyLoop page dest src n i (writeBytes mem d (s.take i)) =
      some (min s.length (count - 1), writeBytes mem d (s.take (count - 1))) := by
  intro n
  induction n with
  | zero =>
    intro i hi hn
    have hcount : count - 1 = i := by omega
    rw [strncpyLoop, hcount, Nat.min_eq_right hi]
  | succ n ih =>
    intro i hi hn
    have hsame : SameBut d count mem (writeBytes mem d (s.take i)) :=
      SameBut.writeBytes ((List.length_take_le _ _).trans (by omega))
    rw [strncpyLoop, h.load hsame hi (by omega)]
    show (if s.getD i 0 = 0 then _ else _) = _
    by_cases hend : i = s.length
    · -- the terminator
      rw [hend, List.getD_eq_default _ _ le_rfl, if_pos rfl, List.take_length,
        List.take_of_length_le (by omega), Nat.min_eq_left (by omega)]
      rfl
    · have hlt : i < s.length := lt_of_le_of_ne hi hend
      have hget : s.getD i 0 = s[i] := List.getD_eq_getElem _ _ hlt
      have hlength : (s.take i).length = i := List.length_take_of_le hi
      have hbyte : Function.update (writeBytes mem d (s.take i)) (d + i) s[i] =
          writeBytes mem d (s.take (i + 1)) := by
        have hconcat := @writeBytes_concat mem d (s.take i) s[i]
        rw [hlength, List.take_append_getElem hlt] at hconcat
        exact hconcat
      rw [hget, if_neg (h.nonzero _ (List.getElem_mem hlt)), h.store hsame (by omega), hbyte]
      exact ih (i + 1) hlt (by omega)

/-- **`strncpy`** writes the string, cut off where the buffer ends, and a NUL. -/
theorem strncpy_copies (h : Copies page mem dest src d count loc s) (hcount : 1 ≤ count) :
    strncpy page dest src count mem = some (writeBytes mem d (s.take (count - 1) ++ [0])) := by
  have hloop := strncpyLoop_copies h (count - 1) 0 (Nat.zero_le _) (by omega)
  rw [List.take_zero, writeBytes_nil] at hloop
  have hn : ((count : ℤ) - 1).toNat = count - 1 := by omega
  have hlength : (s.take (count - 1)).length = min s.length (count - 1) := by
    rw [List.length_take, Nat.min_comm]
  have hsame : SameBut d count mem (writeBytes mem d (s.take (count - 1))) :=
    SameBut.writeBytes (by omega)
  rw [strncpy, hn, hloop]
  show page.store _ (u32 (dest + (min s.length (count - 1) : ℕ))) 0 = _
  rw [h.store hsame (by omega), ← hlength, writeBytes_concat]

/-! ## The temporary block -/

/-- The byte lies in the block at `tmp`. -/
def InBlock (tmp x : ℕ) : Prop := tmp ≤ x ∧ x < tmp + 4096

/-- The block that a call with `max` allocates. -/
def tmpBlock (max : ℕ) (k : Kernel) : ℕ :=
  match kzalloc kernelAllocator max k.machine with
  | .ok (tmp, _) => tmp
  | .error _ => 0

/-- A block that belongs neither to the directory nor to its tables. -/
structure TmpBlock (directory : ℕ) (tables : List ℕ) (tmp : ℕ) : Prop where
  aligned : tmp % 4096 = 0
  fits : tmp + 4096 ≤ 2 ^ 31
  directory : ∀ x, InBlock tmp x → ¬ InBlock directory x
  tables : ∀ x, InBlock tmp x → ¬ InTables tables x

/-- What is allocated: a new block, cleared as far as it was asked for. Freeing it undoes that. -/
lemma OwnsSpace.kzalloc_tmp (h : OwnsSpace process k live tables)
    (hrun : HasFreeRun k.machine.heap.heap.table 1) (hmin : 1 ≤ max) (hmax : max < 4096) :
    ∃ heap, kzalloc kernelAllocator max k.machine =
        .ok (tmpBlock max k, ⟨heap, fill k.machine.mem (tmpBlock max k) max 0⟩) ∧
      tmpBlock max k ≠ 0 ∧ kernelAllocator.kfree (tmpBlock max k) heap = k.machine.heap ∧
      k.machine.heap.heap.saddr ≤ tmpBlock max k ∧
      TmpBlock (k.pageDirectory process).directoryEntry tables (tmpBlock max k) := by
  have hone : blocksFor max = 1 := by
    unfold blocksFor
    omega
  rw [← hone] at hrun
  obtain ⟨b, hb, -, hkz⟩ := kzalloc_run h.heap.pool hmin (by omega) hrun
  have hfit := hb.1
  have hown := h.heap.take hmin (show b < k.machine.heap.heap.table.total by omega)
    fun j h₀ h₁ h₂ => hb.2 j h₀ h₂
  have hfree := h.heap.heapFree_take hmin hb
  have htmp : tmpBlock max k = k.machine.heap.heap.saddr + 4096 * b := by
    unfold tmpBlock
    rw [hkz]
  rw [← htmp] at hkz hown hfree
  -- the new block is none of the old ones
  have hnew : ∀ a ∈ live, ∀ x, InBlock (tmpBlock max k) x → ¬ a.Covers x := by
    intro a ha x hx hax
    have happart := (List.pairwise_cons.mp hown.before_or_behind).1 a ha
    dsimp only at happart
    rw [hone] at happart
    unfold InBlock at hx
    unfold Alloc.Covers at hax
    omega
  refine ⟨_, hkz, (HeapOwns.ptr_pos hown List.mem_cons_self).ne', ?_, by omega,
    HeapOwns.ptr_aligned hown List.mem_cons_self, HeapOwns.ptr_lt hown List.mem_cons_self,
    fun x hx hdirectory => ?_, fun x hx htables => ?_⟩
  · show KernelHeap.mk (heapFree _ _) k.machine.heap.overdrawn = k.machine.heap
    rw [hfree]
  · exact hnew _ h.directory x hx (page_covers.mpr hdirectory)
  · rcases htables with ⟨t, ht, h₀, h₁⟩
    exact hnew _ (h.tables _ (List.mem_map.mpr ⟨t, ht, rfl⟩)) x hx (page_covers.mpr ⟨h₀, h₁⟩)

/-- Writing neither the directory nor its tables leaves the translation alone. -/
lemma AddressSpace.same (h : AddressSpace mem directory tables)
    (hdirectory : ∀ x, InBlock directory x → mem' x = mem x)
    (htables : ∀ x, InTables tables x → mem' x = mem x) :
    AddressSpace mem' directory tables ∧
      ∀ p < 2 ^ 20, pageAt mem' directory p = pageAt mem directory p := by
  have hspace := h.congr fun x h₀ h₁ => hdirectory x ⟨h₀, h₁⟩
  exact ⟨hspace, fun p hp => h.pageAt_congr hspace htables hp⟩

lemma AddressSpace.sameBut (h : AddressSpace mem directory tables)
    (htmp : TmpBlock directory tables tmp) (hcount : count ≤ 4096)
    (hsame : SameBut tmp count mem mem') :
    AddressSpace mem' directory tables ∧
      ∀ p < 2 ^ 20, pageAt mem' directory p = pageAt mem directory p := by
  have hout : ∀ x, ¬ InBlock tmp x → mem' x = mem x := by
    intro x hx
    apply hsame
    unfold InBlock at hx
    omega
  exact h.same (fun x hx => hout x fun hin => htmp.directory x hin hx)
    fun x hx => hout x fun hin => htmp.tables x hin hx

/-- An access looks at the entry of its page. -/
lemma ActivePage.physical_task (mem : Mem) (directory virt : ℕ) :
    (ActivePage.task directory).physical mem virt =
      if pageAt mem directory (virt / 4096) &&& pagingIsPresent ≠ 0 then
        some (entryAddress (pageAt mem directory (virt / 4096)) + virt % 4096)
      else none := by
  show (if pageEntry mem directory virt &&& pagingIsPresent ≠ 0 then
    some (translate mem directory virt) else none) = _
  rw [translate, pageEntry_eq_pageAt]

/-- The temporary block is mapped to itself, the other pages are left alone. -/
lemma AddressSpace.mapTmp (h : AddressSpace mem directory tables)
    (htmp : TmpBlock directory tables tmp) {flags : ℕ} (hflags : flags < 4096) :
    AddressSpace (writeU32 mem (tableSlot tables (tmp / 4096)) (tmp ||| flags)) directory tables ∧
    ∀ p < 2 ^ 20,
      pageAt (writeU32 mem (tableSlot tables (tmp / 4096)) (tmp ||| flags)) directory p =
        if p = tmp / 4096 then tmp ||| flags else pageAt mem directory p := by
  have haligned := htmp.aligned
  have hfits := htmp.fits
  have hpage : tmp / 4096 < 2 ^ 20 := by omega
  have hspace : AddressSpace (writeU32 mem (tableSlot tables (tmp / 4096)) (tmp ||| flags))
      directory tables := h.write fun x hx => h.writeSlot_outside hpage hx
  refine ⟨hspace, fun p hp => ?_⟩
  rw [hspace.pageAt_eq hp]
  by_cases heq : p = tmp / 4096
  · rw [if_pos heq, heq, readU32_writeU32_self]
    rw [or_flags haligned hflags]
    omega
  · rw [if_neg heq, readU32_writeU32_of_apart (h.slot_apart hp hpage heq), h.pageAt_eq hp]

/-! ## `copy_string_from_task` -/

/-- A string that the task has at `virtual`: pages that are present, and a NUL at its end. -/
structure UserString (mem : Mem) (directory virtual : ℕ) (s : List UInt8) : Prop where
  nonzero : ∀ c ∈ s, c ≠ 0
  present : ∀ i ≤ s.length,
    pageEntry mem directory (u32 (virtual + i)) &&& pagingIsPresent ≠ 0
  bytes : ∀ i ≤ s.length, mem (translate mem directory (u32 (virtual + i))) = s.getD i 0

/-- No byte of the string lies in the block at `tmp` or in the tables. -/
structure StringApart (mem : Mem) (directory virtual : ℕ) (tables : List ℕ) (tmp : ℕ)
    (s : List UInt8) : Prop where
  virt : ∀ i ≤ s.length, ¬ InBlock tmp (u32 (virtual + i))
  phys : ∀ i ≤ s.length, ¬ InBlock tmp (translate mem directory (u32 (virtual + i)))
  tables : ∀ i ≤ s.length, ¬ InTables tables (translate mem directory (u32 (virtual + i)))

/-- The buffer of the caller is none of the memory that the call works with. -/
structure BufferApart (directory : ℕ) (tables : List ℕ) (tmp phys max : ℕ) : Prop where
  fits : phys + max ≤ 2 ^ 32
  tmp : ∀ x, phys ≤ x → x < phys + max → ¬ InBlock tmp x
  directory : ∀ x, phys ≤ x → x < phys + max → ¬ InBlock directory x
  tables : ∀ x, phys ≤ x → x < phys + max → ¬ InTables tables x

/-- The bytes that both copies write. -/
def copied (max : ℕ) (s : List UInt8) : List UInt8 := s.take (max - 1) ++ [0]

lemma length_copied (hmin : 1 ≤ max) : (copied max s).length ≤ max := by
  rw [copied, List.length_append, List.length_singleton, List.length_take]
  omega

/-- The first copy goes through the task's directory. -/
lemma copies_task (h : AddressSpace mem directory tables) (htmp : TmpBlock directory tables tmp)
    (hmax : max < 4096) (hstring : UserString mem directory virtual s)
    (happart : StringApart mem directory virtual tables tmp s) :
    Copies (.task directory) (writeU32 mem (tableSlot tables (tmp / 4096)) (tmp ||| 7)) tmp virtual
      tmp max (fun i => translate mem directory (u32 (virtual + i))) s := by
  have haligned := htmp.aligned
  have hfits := htmp.fits
  rcases h.mapTmp htmp (show 7 < 4096 by norm_num) with ⟨hspace, hpages⟩
  -- whatever is written to the block, the pages stay where they are
  have hphysical : ∀ mem', SameBut tmp max
      (writeU32 mem (tableSlot tables (tmp / 4096)) (tmp ||| 7)) mem' → ∀ p < 2 ^ 20,
      pageAt mem' directory p = if p = tmp / 4096 then tmp ||| 7 else pageAt mem directory p := by
    intro mem' hsame p hp
    rw [(hspace.sameBut htmp hmax.le hsame).2 p hp, hpages p hp]
  refine ⟨hstring.nonzero, fun i hi _ => ?_, fun i hi _ => ?_, fun mem' hsame i hi _ => ?_,
    fun mem' hsame i hi => ?_⟩
  · rw [h.writeSlot_outside (by omega) (happart.tables i hi)]
    exact hstring.bytes i hi
  · have hout := happart.phys i hi
    unfold InBlock at hout
    omega
  · have hlt := u32_lt ((virtual : ℤ) + i)
    have hout := happart.virt i hi
    unfold InBlock at hout
    have hpresent := hstring.present i hi
    rw [pageEntry_eq_pageAt] at hpresent
    have hentry := hphysical mem' hsame (u32 ((virtual : ℤ) + i) / 4096) (by omega)
    rw [if_neg (by omega)] at hentry
    rw [ActivePage.physical_task, hentry, if_pos hpresent, translate, pageEntry_eq_pageAt]
  · have hu : u32 ((tmp : ℤ) + i) = tmp + i := by
      rw [← Nat.cast_add, u32_natCast_of_lt (by omega)]
    have hentry := hphysical mem' hsame ((tmp + i) / 4096) (by omega)
    rw [if_pos (by omega)] at hentry
    rw [ActivePage.physical_task, hu, hentry, if_pos (or_and_ne_zero (by decide)),
      entryAddress_or haligned (by omega) (by norm_num)]
    congr 1
    omega

/-- The second copy goes from the block to the buffer. -/
lemma copies_kernel (hmin : 1 ≤ max) (hmax : max < 4096) (hfits : tmp + 4096 ≤ 2 ^ 31)
    (hnonzero : ∀ c ∈ s, c ≠ 0) (hbuffer : BufferApart directory tables tmp phys max) :
    Copies .kernel (writeBytes mem tmp (copied max s)) phys tmp phys max (tmp + ·)
      (s.take (max - 1)) := by
  have hlength : (s.take (max - 1)).length ≤ max - 1 := List.length_take_le _ _
  have hend := hbuffer.fits
  have hu : ∀ a i : ℕ, a + i < 2 ^ 32 → u32 ((a : ℤ) + i) = a + i := by
    intro a i hlt
    rw [← Nat.cast_add, u32_natCast_of_lt hlt]
  refine ⟨fun c hc => hnonzero c (List.mem_of_mem_take hc), fun i hi _ => ?_, fun i hi _ => ?_,
    fun mem' _ i hi hlt => ?_, fun mem' _ i hi => ?_⟩
  · rw [writeBytes_at, copied]
    · rcases Nat.lt_or_eq_of_le hi with hlt | heq
      · rw [List.getD_append _ _ _ _ hlt]
      · rw [List.getD_append_right _ _ _ _ heq.ge, heq, Nat.sub_self,
          List.getD_eq_default _ _ le_rfl]
        rfl
    · rw [copied, List.length_append, List.length_singleton]
      omega
  · by_contra hin
    exact hbuffer.tmp (tmp + i) (by omega) (by omega) ⟨by omega, by omega⟩
  · show some (u32 _) = _
    rw [hu tmp i (by omega)]
  · show some (u32 _) = _
    rw [hu phys i (by omega)]

/-- Clearing the block moves no byte of the string. -/
lemma UserString.sameBut (h : UserString mem directory virtual s)
    (happart : StringApart mem directory virtual tables tmp s)
    (hspace : AddressSpace mem directory tables) (htmp : TmpBlock directory tables tmp)
    (hcount : count ≤ 4096) (hsame : SameBut tmp count mem mem') :
    UserString mem' directory virtual s ∧ StringApart mem' directory virtual tables tmp s := by
  have hpages := (hspace.sameBut htmp hcount hsame).2
  have hentry : ∀ i : ℕ, pageEntry mem' directory (u32 (virtual + i)) =
      pageEntry mem directory (u32 (virtual + i)) := by
    intro i
    have hlt := u32_lt ((virtual : ℤ) + i)
    rw [pageEntry_eq_pageAt, pageEntry_eq_pageAt, hpages _ (by omega)]
  have htranslate : ∀ i : ℕ, translate mem' directory (u32 (virtual + i)) =
      translate mem directory (u32 (virtual + i)) := by
    intro i
    rw [translate, translate, hentry]
  refine ⟨⟨h.nonzero, fun i hi => ?_, fun i hi => ?_⟩, ⟨happart.virt, fun i hi => ?_,
    fun i hi => ?_⟩⟩
  · rw [hentry]
    exact h.present i hi
  · have hout := happart.phys i hi
    unfold InBlock at hout
    rw [htranslate, hsame _ (by omega)]
    exact h.bytes i hi
  · rw [htranslate]
    exact happart.phys i hi
  · rw [htranslate]
    exact happart.tables i hi

/-- What the call leaves: the string, and nothing else but the freed block. -/
structure StringCopied (directory tmp phys max : ℕ) (s : List UInt8) (k k' : Kernel) : Prop where
  kernel : k' = k.withMachine k'.machine
  heap : k'.machine.heap = k.machine.heap
  pages : ∀ p < 2 ^ 20, pageAt k'.machine.mem directory p = pageAt k.machine.mem directory p
  bytes : ∀ i < min s.length (max - 1), k'.machine.mem (phys + i) = s.getD i 0
  nul : k'.machine.mem (phys + min s.length (max - 1)) = 0
  rest : ∀ x, ¬ InBlock tmp x → x < phys ∨ phys + min s.length (max - 1) < x →
    k'.machine.mem x = k.machine.mem x

/-- The memory that the two copies leave. -/
lemma stringCopied {heap : KernelHeap} (h : OwnsSpace process k live tables) (hmin : 1 ≤ max)
    (hmax : max < 4096) (htmp : TmpBlock (k.pageDirectory process).directoryEntry tables tmp)
    (hbuffer : BufferApart (k.pageDirectory process).directoryEntry tables tmp phys max)
    (hheap : heap = k.machine.heap) :
    StringCopied (k.pageDirectory process).directoryEntry tmp phys max s k (k.withMachine ⟨heap,
      writeBytes (writeBytes (fill k.machine.mem tmp max 0) tmp (copied max s)) phys
        (copied max s)⟩) := by
  have hlength : (copied max s).length = min s.length (max - 1) + 1 := by
    rw [copied, List.length_append, List.length_singleton, List.length_take, Nat.min_comm]
  have hle := @length_copied max s hmin
  have hrest : ∀ x, ¬ InBlock tmp x → x < phys ∨ phys + min s.length (max - 1) < x →
      writeBytes (writeBytes (fill k.machine.mem tmp max 0) tmp (copied max s)) phys
        (copied max s) x = k.machine.mem x := by
    intro x hblock hx
    unfold InBlock at hblock
    rw [writeBytes_of_outside (by omega), writeBytes_of_outside (by omega),
      fill_of_outside (by omega)]
  have hget : ∀ i < min s.length (max - 1), (copied max s).getD i 0 = s.getD i 0 := by
    intro i hi
    rw [copied, List.getD_append _ _ _ _ (by rw [List.length_take]; omega),
      List.getD_eq_getElem _ _ (by rw [List.length_take]; omega), List.getElem_take,
      List.getD_eq_getElem _ _ (by omega)]
  have hlast : (copied max s).getD (min s.length (max - 1)) 0 = 0 := by
    rw [copied, List.getD_append_right _ _ _ _ (by rw [List.length_take]; omega),
      List.length_take, Nat.min_comm, Nat.sub_self]
    rfl
  refine ⟨rfl, hheap, ?_, fun i hi => ?_, ?_, hrest⟩
  · -- neither the block nor the buffer is part of the address space
    refine (h.space.same (fun x hx => hrest x (fun hin => htmp.directory x hin hx) ?_)
      fun x hx => hrest x (fun hin => htmp.tables x hin hx) ?_).2
    · by_contra hin
      exact hbuffer.directory x (by omega) (by omega) hx
    · by_contra hin
      exact hbuffer.tables x (by omega) (by omega) hx
  · show writeBytes _ phys (copied max s) (phys + i) = _
    rw [writeBytes_at (by omega), hget i hi]
  · show writeBytes _ phys (copied max s) (phys + min s.length (max - 1)) = _
    rw [writeBytes_at (by omega), hlast]

/-- **`copy_string_from_task`** copies the string as far as the buffer goes, and leaves the task's
address space and the heap as they were. -/
theorem copyStringFromTask_intact (h : OwnsSpace process k live tables)
    (hrun : HasFreeRun k.machine.heap.heap.table 1) (hmin : 1 ≤ max) (hmax : max < 4096)
    (hstring : UserString k.machine.mem (k.pageDirectory process).directoryEntry virtual s)
    (happart : StringApart k.machine.mem (k.pageDirectory process).directoryEntry virtual tables
      (tmpBlock max k) s)
    (hbuffer : BufferApart (k.pageDirectory process).directoryEntry tables (tmpBlock max k) phys
      max) :
    ∃ k', copyStringFromTask process.task virtual phys max k = some (0, k') ∧
      StringCopied (k.pageDirectory process).directoryEntry (tmpBlock max k) phys max s k k' := by
  obtain ⟨heap, hkz, hne, hfree, -, htmp⟩ := h.kzalloc_tmp hrun hmin hmax
  have hcopied := @stringCopied _ _ _ _ _ _ _ s _ h hmin hmax htmp hbuffer hfree
  generalize tmpBlock max k = tmp at hkz hne hfree htmp happart hbuffer hcopied
  have hdirectory : (k.tasks.tasks process.task).pageDirectory = k.pageDirectory process := rfl
  have haligned := htmp.aligned
  have hlt : tmp < 2 ^ 32 := by
    have hfits := htmp.fits
    omega
  -- the block is cleared
  have hfill : SameBut tmp max k.machine.mem (fill k.machine.mem tmp max 0) := fun x hx =>
    fill_of_outside hx
  rcases hstring.sameBut happart h.space htmp hmax.le hfill with ⟨hstring₁, happart₁⟩
  have hspace₁ := (h.space.sameBut htmp hmax.le hfill).1
  generalize hm₁ : fill k.machine.mem tmp max 0 = mem₁ at hkz hstring₁ happart₁ hspace₁ hcopied
  generalize k.pageDirectory process = chunk at *
  -- the block is mapped, and the string copied there
  have hold : pagingGet mem₁ chunk.directoryEntry tmp =
      readU32 mem₁ (tableSlot tables (tmp / 4096)) := by
    rw [pagingGet_eq haligned, hspace₁.entrySlot_eq hlt]
  have hmap := @AddressSpace.pagingMap _ _ tmp tmp 7 tables hspace₁ chunk rfl haligned hlt haligned
  have hfirst := strncpy_copies (copies_task hspace₁ htmp hmax hstring₁ happart₁) hmin
  rw [← copied] at hfirst
  have hspace₃ : AddressSpace (writeBytes
      (writeU32 mem₁ (tableSlot tables (tmp / 4096)) (tmp ||| 7)) tmp (copied max s))
      chunk.directoryEntry tables :=
    ((hspace₁.mapTmp htmp (by norm_num)).1.sameBut htmp hmax.le
      (SameBut.writeBytes (length_copied hmin))).1
  -- the entry is put back
  have hset : pagingSet (writeBytes (writeU32 mem₁ (tableSlot tables (tmp / 4096)) (tmp ||| 7))
      tmp (copied max s)) chunk.directoryEntry tmp (readU32 mem₁ (tableSlot tables (tmp / 4096))) =
      (0, writeBytes mem₁ tmp (copied max s)) := by
    rw [pagingSet_eq haligned, hspace₃.entrySlot_eq hlt, writeU32_restore]
    intro x h₀ h₁
    have hin := hspace₁.slot_inTables (show tmp / 4096 < 2 ^ 20 by omega) h₀ h₁
    have hle := @length_copied max s hmin
    by_contra hblock
    exact htmp.tables x ⟨by omega, by omega⟩ hin
  -- the string goes on to the buffer
  have hsecond := strncpy_copies (@copies_kernel _ mem₁ _ _ _ _ _ hmin hmax htmp.fits
    hstring.nonzero hbuffer) hmin
  rw [List.take_take, Nat.min_self, ← copied] at hsecond
  refine ⟨_, ?_, hcopied⟩
  have hu : u32 (max : ℤ) = max := u32_natCast_of_lt (by omega)
  have hflags : pagingIsWritable ||| pagingIsPresent ||| pagingAccessFromAll = 7 := by decide
  rw [copyStringFromTask, if_neg (by simp only [pagingPageSize]; omega), hu, hkz]
  show (if tmp = 0 then _ else _) = _
  rw [if_neg hne]
  simp only [Kernel.withMachine_tasks, Kernel.withMachine_machine, hdirectory, hflags, hold, hmap,
    hfirst, Option.bind_eq_bind, Option.bind_some, hset, lt_irrefl, if_false]
  show Option.bind (strncpy .kernel phys tmp max (writeBytes mem₁ tmp (copied max s))) _ = _
  rw [hsecond]
  rfl

/-! ### Two letters -/

/-- The two letters, below the heap. -/
def hiMem (mem : Mem) : Mem := writeBytes mem 0x5000 [104, 105, 0]

/-- A kernel with one address space, and the string in its memory. -/
lemma exists_hiKernel : ∃ (m : Machine KernelHeap) (chunk : Paging4gbChunk) (live : List Alloc)
    (tables : List ℕ),
    (∀ process, OwnsSpace process (oneSpaceKernel ⟨m.heap, hiMem m.mem⟩ chunk) live tables) ∧
    (∀ p < 2 ^ 20, pageAt (hiMem m.mem) chunk.directoryEntry p = 4096 * p ||| 7) ∧
    HasFreeRun m.heap.heap.table 1 ∧ m.heap.heap.saddr = 0x1000000 := by
  obtain ⟨chunk, m, hnew, htail⟩ :=
    @pagingNew4gb_progress 7 24574 _ serves_freeTail bootMachine bootMachine_freeTail
  obtain ⟨tables, hnewSpace⟩ := pagingNew4gb_owns bootMachine_owns (by decide) hnew
  have hsaddr : m.heap.heap.saddr = 0x1000000 := hnewSpace.pool.1
  have hptr : ∀ a ∈ spaceAllocs chunk tables ++ [], 0x1000000 ≤ a.ptr := by
    intro a ha
    have hptr := hnewSpace.owns.ptr_eq a ha
    omega
  have hdirectory : ⟨chunk.directoryEntry, 4096⟩ ∈ spaceAllocs chunk tables ++ [] :=
    List.mem_append_left _ (directory_mem chunk tables)
  have htables : ∀ a ∈ pageAllocs tables, a ∈ spaceAllocs chunk tables ++ [] := fun a ha =>
    List.mem_append_left _ (List.mem_cons_of_mem _ (List.mem_append_left _ ha))
  have hlow : ∀ x, 0x1000000 ≤ x → hiMem m.mem x = m.mem x := by
    intro x hx
    apply writeBytes_of_outside
    simp only [List.length_cons, List.length_nil]
    omega
  have hin : ∀ x, InTables tables x → hiMem m.mem x = m.mem x := by
    rintro x ⟨t, ht, h₀, -⟩
    exact hlow x ((hptr _ (htables _ (List.mem_map.mpr ⟨t, ht, rfl⟩))).trans h₀)
  rcases hnewSpace.space.same (fun x hx => hlow x ((hptr _ hdirectory).trans hx.1)) hin with
    ⟨hspace, hpages⟩
  refine ⟨m, chunk, _, tables, fun process => ⟨hnewSpace.owns, hspace, hdirectory, htables⟩,
    fun p hp => ?_, hasFreeRun_one htail.freeBlocks_pos, hsaddr⟩
  rw [hpages p hp]
  exact hnewSpace.identity p hp

/-- They are copied. -/
theorem copyStringFromTask_hi : ∃ k k' directory tmp,
    copyStringFromTask 0 0x5000 0x6000 100 k = some (0, k') ∧
    StringCopied directory tmp 0x6000 100 [104, 105] k k' := by
  obtain ⟨m, chunk, live, tables, hown, hpages, hrun, hsaddr⟩ := exists_hiKernel
  generalize hk : oneSpaceKernel ⟨m.heap, hiMem m.mem⟩ chunk = k at hown
  have hmem : k.machine.mem = hiMem m.mem := by
    rw [← hk]
    rfl
  have hheap : k.machine.heap = m.heap := by
    rw [← hk]
    rfl
  have hdirectory : k.pageDirectory (processInit 0) = chunk := by
    rw [← hk]
    rfl
  have hk₀ := hown (processInit 0)
  rw [← hheap] at hrun hsaddr
  obtain ⟨-, -, -, -, htmp, -⟩ := hk₀.kzalloc_tmp hrun (show 1 ≤ 100 by norm_num) (by norm_num)
  rw [hsaddr] at htmp
  -- the address space lies in the heap, behind the string and the buffer
  have hlow : ∀ a ∈ live, 0x1000000 ≤ a.ptr := by
    intro a ha
    have hptr := hk₀.heap.ptr_eq a ha
    omega
  have htables : ∀ x < 0x1000000, ¬ InTables tables x := by
    rintro x hx ⟨t, ht, h₀, -⟩
    have hptr := hlow _ (hk₀.tables _ (List.mem_map.mpr ⟨t, ht, rfl⟩))
    exact absurd (hptr.trans h₀) (by omega)
  have hdirectory₀ : 0x1000000 ≤ chunk.directoryEntry := by
    rw [← hdirectory]
    exact hlow _ hk₀.directory
  have hentry : ∀ i : ℕ, i ≤ 2 → pageEntry k.machine.mem chunk.directoryEntry (0x5000 + i) =
      4096 * 5 ||| 7 := by
    intro i hi
    have hpage : (0x5000 + i) / 4096 = 5 := by omega
    rw [pageEntry_eq_pageAt, hpage, hmem, hpages 5 (by norm_num)]
  have htranslate : ∀ i : ℕ, i ≤ 2 →
      translate k.machine.mem chunk.directoryEntry (0x5000 + i) = 0x5000 + i := by
    intro i hi
    rw [translate, hentry i hi, entryAddress_or (by norm_num) (by norm_num) (by norm_num)]
    omega
  have hu : ∀ i : ℕ, i ≤ 2 → u32 ((0x5000 : ℕ) + i : ℤ) = 0x5000 + i := by
    intro i hi
    rw [← Nat.cast_add, u32_natCast_of_lt (by omega)]
  have hstring : UserString k.machine.mem chunk.directoryEntry 0x5000 [104, 105] := by
    refine ⟨fun c hc => ?_, fun i hi => ?_, fun i hi => ?_⟩
    · rcases List.mem_cons.mp hc with rfl | hc
      · decide
      · rw [List.mem_singleton.mp hc]
        decide
    · rw [hu i hi, hentry i hi]
      decide
    · have hi' : i ≤ 2 := hi
      have hlt : i < [(104 : UInt8), 105, 0].length := Nat.lt_succ_of_le hi'
      rw [hu i hi, htranslate i hi, hmem, hiMem, writeBytes_at hlt]
      rcases (by omega : i = 0 ∨ i = 1 ∨ i = 2) with rfl | rfl | rfl
      · rfl
      · rfl
      · rfl
  have happart : StringApart k.machine.mem chunk.directoryEntry 0x5000 tables (tmpBlock 100 k)
      [104, 105] := by
    have hout : ∀ i : ℕ, i ≤ 2 → ¬ InBlock (tmpBlock 100 k) (0x5000 + i) := by
      intro i hi hin
      have hle := hin.1
      omega
    refine ⟨fun i hi => ?_, fun i hi => ?_, fun i hi => ?_⟩
    · rw [hu i hi]
      exact hout i hi
    · rw [hu i hi, htranslate i hi]
      exact hout i hi
    · rw [hu i hi, htranslate i hi]
      apply htables
      have hi' : i ≤ 2 := hi
      omega
  have hbuffer : BufferApart chunk.directoryEntry tables (tmpBlock 100 k) 0x6000 100 := by
    refine ⟨by norm_num, fun x _ hx hin => ?_, fun x _ hx hin => ?_, fun x _ hx => ?_⟩
    · have hle := hin.1
      omega
    · have hle := hin.1
      omega
    · exact htables x (by omega)
  rw [← hdirectory] at hstring happart hbuffer
  obtain ⟨k', hcopy, hcopied⟩ := copyStringFromTask_intact hk₀ hrun (by norm_num) (by norm_num)
    hstring happart hbuffer
  exact ⟨k, k', _, _, hcopy, hcopied⟩

end MarrowOS
