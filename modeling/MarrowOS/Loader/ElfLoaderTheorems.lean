import MarrowOS.Loader.ElfLoader
import MarrowOS.Memory.HeapOwnership

/-!
# What loading a file leaves behind

`elf_load` keeps the file's buffer and the `elf_file` when it succeeds, and gives both back when it
fails, although it then frees them twice (`elfLoad_owns`). Nothing but the heap and the blocks it
hands out is touched.
-/

namespace MarrowOS

open ByteMem CInt Fallible

/-! ## The blocks of the kernel -/

/-- The heap holds the blocks of the file layer and those of `live`. -/
def Kernel.Owns (k : Kernel) (live : List Alloc) : Prop :=
  HeapOwns k.machine.heap.heap (k.fileBlocks ++ live)

/-- The pointer is the address of a block that is free. -/
def Kernel.Unowned (k : Kernel) (live : List Alloc) (ptr : ℕ) : Prop :=
  MarrowOS.Unowned k.machine.heap.heap (k.fileBlocks ++ live) ptr

/-- From `k` to `k'` the blocks of `live`, the tasks among them and the process table stay the same,
except for the links of the task list. -/
structure Kernel.Keeps (live : List Alloc) (k k' : Kernel) : Prop where
  pool : SamePool k.machine.heap.heap k'.machine.heap.heap
  same : SameOn live k.machine.mem k'.machine.mem
  task : ∀ t, ⟨t, sizeofTask⟩ ∈ live → (k'.tasks.tasks t).process = (k.tasks.tasks t).process ∧
    (k'.tasks.tasks t).pageDirectory = (k.tasks.tasks t).pageDirectory
  processes : k'.processes = k.processes

variable {k k' k'' : Kernel} {live live' : List Alloc} {a : Alloc} {size ptr : ℕ}
  {m' : Machine KernelHeap}

lemma Kernel.Keeps.refl (live : List Alloc) (k : Kernel) : k.Keeps live k :=
  ⟨SamePool.refl _, SameOn.refl _ _, fun _ _ => ⟨rfl, rfl⟩, rfl⟩

lemma Kernel.Keeps.trans (h : k.Keeps live k') (h' : k'.Keeps live k'') : k.Keeps live k'' :=
  ⟨h.pool.trans h'.pool, h.same.trans h'.same,
    fun t ht => ⟨(h'.task t ht).1.trans (h.task t ht).1, (h'.task t ht).2.trans (h.task t ht).2⟩,
    h'.processes.trans h.processes⟩

lemma Kernel.Keeps.mono (h : k.Keeps live k') (hsub : ∀ a ∈ live', a ∈ live) : k.Keeps live' k' :=
  ⟨h.pool, h.same.mono hsub, fun t ht => h.task t (hsub _ ht), h.processes⟩

lemma Kernel.Keeps.tail (h : k.Keeps (a :: live) k') : k.Keeps live k' :=
  h.mono fun _ hb => List.mem_cons_of_mem a hb

/-- A change of heap and memory only. -/
lemma Kernel.Keeps.withMachine (hpool : SamePool k.machine.heap.heap m'.heap.heap)
    (hsame : SameOn live k.machine.mem m'.mem) : k.Keeps live (k.withMachine m') :=
  ⟨hpool, hsame, fun _ _ => ⟨rfl, rfl⟩, rfl⟩

lemma Kernel.Owns.perm (h : k.Owns live) (hperm : live.Perm live') : k.Owns live' :=
  HeapOwns.perm h (hperm.append_left k.fileBlocks)

/-- A new block, taken by `kzalloc`. -/
lemma Kernel.Owns.kzalloc (h : k.Owns live) (hsize : size < 2 ^ 32)
    (hkz : kzalloc kernelAllocator size k.machine = .ok (ptr, m')) :
    k.Keeps live (k.withMachine m') ∧
    ((ptr = 0 ∧ (k.withMachine m').Owns live) ∨
    (size = 0 ∧ ptr ≠ 0 ∧ (k.withMachine m').Unowned live ptr ∧ (k.withMachine m').Owns live) ∨
    (ptr ≠ 0 ∧ 1 ≤ size ∧ (k.withMachine m').Owns (⟨ptr, size⟩ :: live) ∧
      m'.mem = fill k.machine.mem ptr size 0)) := by
  unfold Kernel.Owns Kernel.Unowned at *
  simp only [Kernel.withMachine_machine, Kernel.withMachine_fileBlocks]
  have hsame : ∀ mem : Mem, mem = k.machine.mem → SameOn live k.machine.mem mem := by
    rintro mem rfl
    exact SameOn.refl _ _
  rcases kzalloc_owns h hsize hkz with ⟨h0, hheap, hmem⟩ | ⟨h0, hne, hun, hheap, hmem⟩ |
    ⟨hne, hpos, hown, hpool, hmem⟩
  · refine ⟨Kernel.Keeps.withMachine ?_ (hsame _ hmem), Or.inl ⟨h0, by rw [hheap]; exact h⟩⟩
    rw [hheap]
    exact SamePool.refl _
  · refine ⟨Kernel.Keeps.withMachine ?_ (hsame _ hmem), Or.inr (Or.inl ⟨h0, hne, ?_, ?_⟩)⟩
    · rw [hheap]
      exact SamePool.refl _
    · rw [hheap]
      exact hun
    · rw [hheap]
      exact h
  · have hown' := hown.perm List.perm_middle.symm
    refine ⟨Kernel.Keeps.withMachine hpool ?_, Or.inr (Or.inr ⟨hne, hpos, hown', hmem⟩)⟩
    rw [hmem]
    refine (hown.sameOn_of_head fun x hx => ?_).mono fun b hb => List.mem_append_right _ hb
    apply fill_of_outside
    by_contra hin
    exact hx (Alloc.covers_of_lt (by omega) (by omega))

/-- The pointer at the head is given back. -/
lemma Kernel.Owns.kfree (h : k.Owns (a :: live)) :
    (k.withMachine (kfree kernelAllocator a.ptr k.machine)).Owns live ∧
    (k.withMachine (kfree kernelAllocator a.ptr k.machine)).Unowned live a.ptr ∧
    k.Keeps live (k.withMachine (kfree kernelAllocator a.ptr k.machine)) := by
  have hown : HeapOwns k.machine.heap.heap (a :: (k.fileBlocks ++ live)) :=
    HeapOwns.perm h List.perm_middle
  have hpool := heapFree_samePool k.machine.heap.heap a.ptr
  exact ⟨hown.heapFree_head, hown.unowned_head.samePool hpool,
    Kernel.Keeps.withMachine hpool (SameOn.refl _ _)⟩

/-- Nothing happens when the pointer is given back once more. -/
lemma Kernel.Owns.kfree_unowned (h : k.Owns live) (hptr : k.Unowned live ptr) :
    MarrowOS.kfree kernelAllocator ptr k.machine = k.machine := by
  have hheap : heapFree k.machine.heap.heap ptr = k.machine.heap.heap :=
    HeapOwns.heapFree_unowned h hptr
  have hkernel : kernelAllocator.kfree ptr k.machine.heap = k.machine.heap := by
    show { k.machine.heap with heap := heapFree k.machine.heap.heap ptr } = k.machine.heap
    rw [hheap]
  rw [MarrowOS.kfree, hkernel]

/-! ## The file layer -/

/-- What the file layer does to the heap. -/
structure Kernel.FileStep (live : List Alloc) (k k' : Kernel) : Prop where
  owns : k'.Owns live
  keeps : k.Keeps live k'
  mem : k'.machine.mem = k.machine.mem

lemma Kernel.FileStep.trans (h : k.FileStep live k') (h' : k'.FileStep live k'') :
    k.FileStep live k'' :=
  ⟨h'.owns, h.keeps.trans h'.keeps, h'.mem.trans h.mem⟩

/-- The file layer takes and gives back blocks of its own. -/
lemma fileHeapOp_owns (h : k.Owns live) (op : FileHeapOp) : k.FileStep live (fileHeapOp k op) := by
  have hrefl : k.FileStep live k := ⟨h, Kernel.Keeps.refl live k, rfl⟩
  cases op with
  | kmalloc size =>
    by_cases hsize : heapTotalBlocks size = 0 ∨ 2 ^ 32 ≤ size
    · simp only [fileHeapOp, if_pos hsize]
      exact hrefl
    cases hk : kernelAllocator.kmalloc size k.machine.heap with
    | mk p heap =>
    simp only [fileHeapOp, if_neg hsize, hk]
    push Not at hsize
    rcases kmalloc_owns h hsize.2 hk with ⟨h0, hheap⟩ | ⟨hzero, -⟩ | ⟨hne, -, -, hown, hpool⟩
    · rw [if_pos h0]
      refine ⟨?_, Kernel.Keeps.withMachine ?_ (SameOn.refl _ _), rfl⟩
      · show HeapOwns heap.heap (k.fileBlocks ++ live)
        rw [hheap]
        exact h
      · show SamePool k.machine.heap.heap heap.heap
        rw [hheap]
        exact SamePool.refl _
    · exact absurd hzero hsize.1
    · rw [if_neg hne]
      exact ⟨hown, ⟨hpool, SameOn.refl _ _, fun _ _ => ⟨rfl, rfl⟩, rfl⟩, rfl⟩
  | kfree place =>
    unfold fileHeapOp
    dsimp only
    cases hplace : k.fileBlocks[place]? with
    | none => exact hrefl
    | some a =>
      have hperm : (k.fileBlocks ++ live).Perm (a :: (k.fileBlocks.eraseIdx place ++ live)) := by
        rcases List.getElem?_eq_some_iff.mp hplace with ⟨hlt, rfl⟩
        exact (List.getElem_cons_eraseIdx_perm hlt).symm.append_right live
      have hown := (HeapOwns.perm h hperm).heapFree_head
      exact ⟨hown, ⟨heapFree_samePool _ a.ptr, SameOn.refl _ _, fun _ _ => ⟨rfl, rfl⟩, rfl⟩, rfl⟩

lemma fileHeapOps_owns (ops : List FileHeapOp) :
    ∀ {k : Kernel}, k.Owns live → k.FileStep live (fileHeapOps ops k) := by
  induction ops with
  | nil => exact fun h => ⟨h, Kernel.Keeps.refl live _, rfl⟩
  | cons op ops ih =>
    intro k h
    have hop := fileHeapOp_owns h op
    exact hop.trans (ih hop.owns)

/-- `fclose` takes no block, so that what was free stays free. -/
lemma fileHeapOps_unowned (frees : List ℕ) : ∀ {k : Kernel}, k.Unowned live ptr →
    (fileHeapOps (frees.map .kfree) k).Unowned live ptr := by
  induction frees with
  | nil => exact fun h => h
  | cons place frees ih =>
    intro k h
    apply ih
    unfold fileHeapOp
    dsimp only
    cases hplace : k.fileBlocks[place]? with
    | none => exact h
    | some a =>
      refine (Unowned.mono h fun b hb => ?_).samePool (heapFree_samePool _ a.ptr)
      rcases List.mem_append.mp hb with hmem | hmem
      · exact List.mem_append_left _ (List.mem_of_mem_eraseIdx hmem)
      · exact List.mem_append_right _ hmem

/-- The file layer does not know of tasks. -/
lemma fileHeapOps_tasks (ops : List FileHeapOp) (k : Kernel) :
    (fileHeapOps ops k).tasks = k.tasks := by
  induction ops generalizing k with
  | nil => rfl
  | cons op ops ih =>
    refine (ih (fileHeapOp k op)).trans ?_
    cases op with
    | kmalloc size =>
      unfold fileHeapOp
      dsimp only
      split_ifs <;> rfl
    | kfree place =>
      unfold fileHeapOp
      dsimp only
      split <;> rfl

/-! ## Closing -/

variable {file : FileAnswers} {elfFile f : ElfFile}

/-- What belongs to an `elf_file`: its own block, and the buffer unless that points at a block that
is free. -/
def ElfBlocks (k : Kernel) (live : List Alloc) (f : ElfFile) (size : ℕ) : Prop :=
  k.Owns (⟨f.elfMemory, size⟩ :: ⟨f.addr, sizeofElfFile⟩ :: live) ∨
  (k.Owns (⟨f.addr, sizeofElfFile⟩ :: live) ∧
    (f.elfMemory = 0 ∨ k.Unowned (⟨f.addr, sizeofElfFile⟩ :: live) f.elfMemory))

/-- Closing a file gives back its blocks. -/
lemma elfClose_owns (h : ElfBlocks k live f size) :
    k.Keeps live (k.withMachine (elfClose f k.machine)) ∧
    (k.withMachine (elfClose f k.machine)).Owns live := by
  unfold elfClose
  rcases h with hown | ⟨hown, h0 | hptr⟩
  · have hne : f.elfMemory ≠ 0 :=
      (HeapOwns.ptr_pos hown (List.mem_append_right _ List.mem_cons_self)).ne'
    rw [if_pos hne]
    rcases hown.kfree with ⟨hown₁, -, hkeeps₁⟩
    rcases hown₁.kfree with ⟨hown₂, -, hkeeps₂⟩
    exact ⟨hkeeps₁.tail.trans hkeeps₂, hown₂⟩
  · rw [if_neg (not_not.mpr h0)]
    rcases hown.kfree with ⟨hown₁, -, hkeeps₁⟩
    exact ⟨hkeeps₁, hown₁⟩
  · have hsame : (if f.elfMemory ≠ 0 then kfree kernelAllocator f.elfMemory k.machine
        else k.machine) = k.machine := by
      rw [hown.kfree_unowned hptr, ite_self]
    rw [hsame]
    rcases hown.kfree with ⟨hown₁, -, hkeeps₁⟩
    exact ⟨hkeeps₁, hown₁⟩

/-- Closing a file that was freed changes nothing, whatever the pointers in it. -/
theorem elfClose_elfFileFree (f : ElfFile) (m : Machine KernelHeap) :
    elfClose f (elfFileFree f m) = elfFileFree f m := by
  have hfree : ∀ ptr (m : Machine KernelHeap), kfree kernelAllocator ptr m =
      ⟨⟨heapFree m.heap.heap ptr, m.heap.overdrawn⟩, m.mem⟩ := fun _ _ => rfl
  unfold elfClose elfFileFree
  by_cases h0 : f.elfMemory ≠ 0
  · -- the buffer stays free when the record is freed behind it
    rcases heapFree_again m.heap.heap f.elfMemory with ⟨-, hmemory⟩
    rcases heapFree_again (heapFree m.heap.heap f.elfMemory) f.addr with ⟨haddr, -⟩
    simp only [if_pos h0, hfree, hmemory, haddr]
  · rcases heapFree_again m.heap.heap f.addr with ⟨haddr, -⟩
    simp only [if_neg h0, hfree, haddr]

/-- A failure of `elf_load` gives back everything. -/
lemma elfLoadOut_failed {res : ℤ} (hres : res < 0) (h : ElfBlocks k live f size) :
    ∃ k', elfLoadOut file res f k = (res, none, k') ∧ k'.Owns live ∧ k.Keeps live k' := by
  have hblocks : ElfBlocks (fileHeapOps file.fcloseOps k) live f size := by
    rcases h with hown | ⟨hown, hptr⟩
    · exact Or.inl (fileHeapOps_owns _ hown).owns
    · refine Or.inr ⟨(fileHeapOps_owns _ hown).owns, hptr.imp_right ?_⟩
      exact fileHeapOps_unowned file.fcloseFrees
  have hclose : k.Keeps live (fileHeapOps file.fcloseOps k) := by
    rcases h with hown | ⟨hown, -⟩
    · exact (fileHeapOps_owns file.fcloseOps hown).keeps.tail.tail
    · exact (fileHeapOps_owns file.fcloseOps hown).keeps.tail
  rcases elfClose_owns hblocks with ⟨hkeeps, hown⟩
  refine ⟨(fileHeapOps file.fcloseOps k).withMachine
    (elfClose f (fileHeapOps file.fcloseOps k).machine), ?_, hown, hclose.trans hkeeps⟩
  simp only [elfLoadOut, if_pos hres, elfClose_elfFileFree]
  rfl

/-! ## The file in its buffer -/

/-- The bytes of the file. -/
def FileAnswers.image (file : FileAnswers) (offset : ℕ) : UInt8 :=
  (file.bytes.take file.filesize).getD offset 0

/-- The file lies at `addr`. -/
def FileAnswers.LoadedAt (file : FileAnswers) (addr : ℕ) (mem : Mem) : Prop :=
  ∀ x, addr ≤ x → x < addr + file.filesize → mem x = file.image (x - addr)

/-- What the loader sees of a file that lies at `addr`. -/
def FileAnswers.imageView (file : FileAnswers) (addr moment : ℕ) : Mem := fun x =>
  if addr ≤ x ∧ x < addr + file.filesize then file.image (x - addr) else file.stray moment x

/-- Where `elf_load` finds room for the file. -/
def elfImageAddress (file : FileAnswers) (k : Kernel) : ℕ :=
  match kzalloc kernelAllocator sizeofElfFile k.machine with
  | .error _ => 0
  | .ok (_, m) =>
    match kzalloc kernelAllocator file.filesize
      (fileHeapOps file.fopenOps (k.withMachine m)).machine with
    | .error _ => 0
    | .ok (elfMemory, _) => elfMemory

/-- The header that `elf_validate_loaded` checks. -/
def elfLoadedHeader (file : FileAnswers) (k : Kernel) : ElfHeader :=
  elfHeaderAt (file.imageView (elfImageAddress file k) 0) (elfImageAddress file k)

lemma FileAnswers.LoadedAt.view_eq {addr : ℕ} {mem : Mem} (h : file.LoadedAt addr mem)
    (moment : ℕ) : file.view addr moment mem = file.imageView addr moment := by
  funext x
  unfold FileAnswers.view FileAnswers.imageView
  by_cases hin : addr ≤ x ∧ x < addr + file.filesize
  · rw [if_pos hin, if_pos hin]
    exact h x hin.1 hin.2
  · rw [if_neg hin, if_neg hin]

lemma FileAnswers.LoadedAt.congr {addr : ℕ} {mem mem' : Mem} (h : file.LoadedAt addr mem)
    (hsame : SameOn (⟨addr, file.filesize⟩ :: live) mem mem') : file.LoadedAt addr mem' := by
  intro x h₀ h₁
  rw [hsame _ List.mem_cons_self x (Alloc.covers_of_lt h₀ h₁)]
  exact h x h₀ h₁

/-- After the `fread` the cleared buffer holds the file, and nothing else was written. -/
lemma freadInto_loadedAt (file : FileAnswers) (hpos : 1 ≤ file.filesize) {mem : Mem} :
    file.LoadedAt ptr (file.freadInto ptr (fill mem ptr file.filesize 0)).2 ∧
    ∀ x, x < ptr ∨ ptr + file.filesize ≤ x →
      (file.freadInto ptr (fill mem ptr file.filesize 0)).2 x = mem x := by
  have hlen : (file.bytes.take file.filesize).length ≤ file.filesize := List.length_take_le _ _
  have hread : file.freadInto ptr (fill mem ptr file.filesize 0) =
      (file.fread, writeBytes (fill mem ptr file.filesize 0) ptr (file.bytes.take file.filesize)) :=
    if_neg (by omega)
  rw [hread]
  constructor
  · intro x h₀ h₁
    show writeBytes _ ptr _ x = file.image (x - ptr)
    by_cases hin : x < ptr + (file.bytes.take file.filesize).length
    · exact if_pos ⟨h₀, hin⟩
    · rw [writeBytes_of_outside (by omega), fill, if_pos ⟨h₀, h₁⟩, FileAnswers.image,
        List.getD_eq_getElem?_getD, List.getElem?_eq_none (by omega)]
      rfl
  · intro x hx
    show writeBytes _ ptr _ x = mem x
    rw [writeBytes_of_outside (by omega), fill_of_outside hx]

/-! ## Loading -/

/-- The program headers do not change where the file lies. -/
lemma elfProcessLoaded_blocks (view : Mem) (f : ElfFile) :
    (elfProcessLoaded view f).2.addr = f.addr ∧
    (elfProcessLoaded view f).2.elfMemory = f.elfMemory := by
  have hphdr : ∀ (f : ElfFile) (phdr : Elf32Phdr), (elfProcessPheader f phdr).addr = f.addr ∧
      (elfProcessPheader f phdr).elfMemory = f.elfMemory := by
    intro f phdr
    unfold elfProcessPheader elfProcessPhdrPtLoad
    dsimp only
    constructor <;> split_ifs <;> rfl
  have hfold : ∀ (phdrs : List ℕ) (g : ElfFile → ℕ → Elf32Phdr) (f : ElfFile),
      (phdrs.foldl (fun f i => elfProcessPheader f (g f i)) f).addr = f.addr ∧
      (phdrs.foldl (fun f i => elfProcessPheader f (g f i)) f).elfMemory = f.elfMemory := by
    intro phdrs g
    induction phdrs with
    | nil => exact fun f => ⟨rfl, rfl⟩
    | cons i phdrs ih =>
      intro f
      rcases hphdr f (g f i) with ⟨haddr, hmemory⟩
      rcases ih (elfProcessPheader f (g f i)) with ⟨haddr', hmemory'⟩
      exact ⟨haddr'.trans haddr, hmemory'.trans hmemory⟩
  unfold elfProcessLoaded
  dsimp only
  split_ifs
  · exact ⟨rfl, rfl⟩
  · exact hfold _ (fun f i => elfProgramHeader view (elfPheader _ f) i) f

/-- What `elf_load` leaves when it succeeds. -/
structure ElfLoaded (file : FileAnswers) (live : List Alloc) (k k' : Kernel) (f : ElfFile) :
    Prop where
  owns : k'.Owns (⟨f.elfMemory, file.filesize⟩ :: ⟨f.addr, sizeofElfFile⟩ :: live)
  address : f.elfMemory = elfImageAddress file k
  loaded : file.LoadedAt f.elfMemory k'.machine.mem
  valid : 0 ≤ elfValidateLoaded (elfLoadedHeader file k)

/-- The statuses with which `elf_load` fails. -/
def ElfFailure (file : FileAnswers) (k : Kernel) (res : ℤ) : Prop :=
  res = -eio ∨ res = -einvarg ∨ res = -enomem ∨
    res = -einformat ∧ elfValidateLoaded (elfLoadedHeader file k) < 0

lemma ElfFailure.neg {res : ℤ} (h : ElfFailure file k res) : res < 0 := by
  simp only [ElfFailure, eio, einvarg, enomem, einformat] at h
  omega

/-- A header that is refused. -/
lemma elfFailure_of_invalid (h : elfValidateLoaded (elfLoadedHeader file k) < 0) :
    ElfFailure file k (elfValidateLoaded (elfLoadedHeader file k)) := by
  have hinformat : elfValidateLoaded (elfLoadedHeader file k) = -einformat := by
    unfold elfValidateLoaded at h ⊢
    split_ifs at h ⊢
    · exact absurd h (lt_irrefl 0)
    · rfl
  exact Or.inr (Or.inr (Or.inr ⟨hinformat, h⟩))

/-- What `elf_load` leaves when it fails. -/
structure ElfNotLoaded (file : FileAnswers) (live : List Alloc) (k k' : Kernel) (res : ℤ)
    (loaded : Option ElfFile) : Prop where
  keeps : k.Keeps live k'
  failure : ElfFailure file k res
  loaded : loaded = none
  owns : k'.Owns live

/-- The exit of `elf_load` with a failure. -/
lemma elfLoadOut_notLoaded {res res' : ℤ} {loaded : Option ElfFile} {k₁ : Kernel}
    (hres : ElfFailure file k res') (hblocks : ElfBlocks k₁ live f size) (hkeeps : k.Keeps live k₁)
    (hout : elfLoadOut file res' f k₁ = (res, loaded, k')) :
    ElfNotLoaded file live k k' res loaded := by
  rcases elfLoadOut_failed hres.neg hblocks with ⟨k₂, heq, hown, hkeeps'⟩
  rcases Prod.mk.inj (heq.symm.trans hout) with ⟨hres', hrest⟩
  rcases Prod.mk.inj hrest with ⟨hloaded, hk'⟩
  rw [← hres', ← hloaded, ← hk']
  exact ⟨hkeeps.trans hkeeps', hres, rfl, hown⟩

/-- The `fread` into the cleared buffer. -/
lemma freadInto_sameOn (hpos : 1 ≤ file.filesize) {m m₁ : Machine KernelHeap}
    (hown : HeapOwns m₁.heap.heap (⟨ptr, file.filesize⟩ :: live))
    (hfill : m₁.mem = fill m.mem ptr file.filesize 0) :
    file.LoadedAt ptr (file.freadInto ptr m₁.mem).2 ∧
      SameOn live m.mem (file.freadInto ptr m₁.mem).2 := by
  rcases @freadInto_loadedAt ptr file hpos m.mem with ⟨hat, hout⟩
  rw [← hfill] at hat hout
  refine ⟨hat, hown.sameOn_of_head fun x hx => hout x ?_⟩
  -- the bytes of the file lie in the blocks of the buffer
  by_contra hin
  exact hx (Alloc.covers_of_lt (by omega) (by omega))

/-- The status for a file in its buffer is that of the header. -/
lemma elfProcessLoaded_status (f : ElfFile) (hmemory : f.elfMemory = elfImageAddress file k) :
    (elfProcessLoaded (file.imageView f.elfMemory 0) f).1 =
      if elfValidateLoaded (elfLoadedHeader file k) < 0 then
        elfValidateLoaded (elfLoadedHeader file k) else 0 := by
  have hheader : elfHeader (file.imageView f.elfMemory 0) f = elfLoadedHeader file k := by
    rw [elfLoadedHeader, ← hmemory]
    rfl
  rw [← hheader, elfProcessLoaded]
  split_ifs <;> rfl

/-- **`elf_load`**, in any heap whatsoever. -/
theorem elfLoad_owns {res : ℤ} {loaded : Option ElfFile} (h : k.Owns live)
    (hload : elfLoad file k = .ok (res, loaded, k')) :
    k.Keeps live k' ∧
    (((res = -eio ∨ res = -einvarg ∨ res = -enomem ∨
        res = -einformat ∧ elfValidateLoaded (elfLoadedHeader file k) < 0) ∧
      loaded = none ∧ k'.Owns live) ∨
    (res = 0 ∧ ∃ f, loaded = some f ∧ ElfLoaded file live k k' f)) := by
  unfold elfLoad at hload
  rcases bind_eq_ok.mp hload with ⟨⟨addr, m₁⟩, haddr, hload⟩
  rcases h.kzalloc (by norm_num) haddr with ⟨hkeeps₁, ⟨h0, -⟩ | ⟨h0, -⟩ | ⟨hne, -, hown₁, -⟩⟩
  · simp [h0] at hload
  · exact absurd h0 (by norm_num)
  simp only [if_neg hne] at hload
  have hopen := fileHeapOps_owns file.fopenOps hown₁
  have hkeeps₂ := hkeeps₁.trans hopen.keeps.tail
  have hempty : ElfBlocks (fileHeapOps file.fopenOps (k.withMachine m₁)) live
      ⟨addr, 0, 0, 0, 0, 0⟩ 0 := Or.inr ⟨hopen.owns, Or.inl rfl⟩
  have haddress : ∀ {p : ℕ} {m : Machine KernelHeap}, kzalloc kernelAllocator file.filesize
      (fileHeapOps file.fopenOps (k.withMachine m₁)).machine = .ok (p, m) →
      p = elfImageAddress file k := by
    intro p m hp
    simp only [elfImageAddress, haddr, hp]
  generalize fileHeapOps file.fopenOps (k.withMachine m₁) = k₂
    at hload hkeeps₂ hempty hopen haddress
  -- every failure leaves through the same exit
  have hfail : ElfNotLoaded file live k k' res loaded → k.Keeps live k' ∧
      ((ElfFailure file k res ∧ loaded = none ∧ k'.Owns live) ∨
        (res = 0 ∧ ∃ f, loaded = some f ∧ ElfLoaded file live k k' f)) :=
    fun hout => ⟨hout.keeps, Or.inl ⟨hout.failure, hout.loaded, hout.owns⟩⟩
  by_cases hfd : file.fd ≤ 0
  · rw [if_pos hfd] at hload
    exact hfail (elfLoadOut_notLoaded (Or.inl rfl) hempty hkeeps₂ (Except.ok.inj hload))
  rw [if_neg hfd] at hload
  cases hstat : file.fstat with
  | eio =>
    rw [hstat] at hload
    exact hfail (elfLoadOut_notLoaded (Or.inl rfl) hempty hkeeps₂ (Except.ok.inj hload))
  | einvarg =>
    rw [hstat] at hload
    exact hfail (elfLoadOut_notLoaded (Or.inr (Or.inl rfl)) hempty hkeeps₂
      (Except.ok.inj hload))
  | ok filesize =>
  rw [hstat] at hload
  rcases bind_eq_ok.mp hload with ⟨⟨elfMemory, m₃⟩, hmemory, hload⟩
  have hsize : file.filesize = filesize.toNat := by rw [FileAnswers.filesize, hstat]
  rw [← hsize] at hmemory
  have hmemoryAddr := haddress hmemory
  have hlt : file.filesize < 2 ^ 32 := hsize ▸ filesize.toNat_lt
  rcases hopen.owns.kzalloc hlt hmemory with
    ⟨hkeeps₃, ⟨h0, hown₃⟩ | ⟨hzero, hne₃, hptr, hown₃⟩ | ⟨hne₃, hpos, hown₃, hfill⟩⟩
  · -- the buffer was not allocated
    simp only [if_pos h0] at hload
    have hblocks : ElfBlocks (k₂.withMachine m₃) live ⟨addr, elfMemory, 0, 0, 0, 0⟩ 0 :=
      Or.inr ⟨hown₃, Or.inl h0⟩
    exact hfail (elfLoadOut_notLoaded (Or.inr (Or.inr (Or.inl rfl))) hblocks
      (hkeeps₂.trans hkeeps₃.tail) (Except.ok.inj hload))
  · -- an empty file: the buffer is a block that nobody took, and `fread` refuses
    have hread : file.freadInto elfMemory m₃.mem = (-einvarg, m₃.mem) := if_pos hzero
    simp only [if_neg hne₃, Kernel.withMachine_machine, hread] at hload
    rw [if_pos (by decide)] at hload
    have hblocks : ElfBlocks ((k₂.withMachine m₃).withMem m₃.mem) live
        ⟨addr, elfMemory, 0, 0, 0, 0⟩ 0 := Or.inr ⟨hown₃, Or.inr hptr⟩
    exact hfail (elfLoadOut_notLoaded (Or.inl rfl) hblocks (hkeeps₂.trans hkeeps₃.tail)
      (Except.ok.inj hload))
  simp only [if_neg hne₃, Kernel.withMachine_machine] at hload
  -- the whole file is read into its own blocks
  have hhead : HeapOwns m₃.heap.heap
      (⟨elfMemory, file.filesize⟩ :: (k₂.fileBlocks ++ ⟨addr, sizeofElfFile⟩ :: live)) :=
    HeapOwns.perm hown₃ List.perm_middle
  rcases freadInto_sameOn hpos hhead hfill with ⟨hat, hout⟩
  have hsame : SameOn live k₂.machine.mem (file.freadInto elfMemory m₃.mem).2 :=
    hout.mono fun b hb => List.mem_append_right _ (List.mem_cons_of_mem _ hb)
  by_cases hone : (file.freadInto elfMemory m₃.mem).1 = 1
  case neg =>
    simp only [ne_eq, hone, not_false_eq_true, if_true] at hload
    have hblocks : ElfBlocks ((k₂.withMachine m₃).withMem (file.freadInto elfMemory m₃.mem).2) live
        ⟨addr, elfMemory, 0, 0, 0, 0⟩ file.filesize := Or.inl hown₃
    have hkeeps₄ : k.Keeps live ((k₂.withMachine m₃).withMem (file.freadInto elfMemory m₃.mem).2) :=
      hkeeps₂.trans (Kernel.Keeps.withMachine hkeeps₃.pool hsame)
    exact hfail (elfLoadOut_notLoaded (Or.inl rfl) hblocks hkeeps₄ (Except.ok.inj hload))
  simp only [ne_eq, hone, not_true_eq_false, if_false] at hload
  generalize (file.freadInto elfMemory m₃.mem).2 = mem at hload hat hsame
  have hkeeps₄ : k.Keeps live ((k₂.withMachine m₃).withMem mem) :=
    hkeeps₂.trans (Kernel.Keeps.withMachine hkeeps₃.pool hsame)
  have hview : file.view elfMemory 0 ((k₂.withMachine m₃).withMem mem).machine.mem =
      file.imageView elfMemory 0 := hat.view_eq 0
  rw [hview] at hload
  -- the program headers leave the two pointers alone
  rcases elfProcessLoaded_blocks (file.imageView elfMemory 0) ⟨addr, elfMemory, 0, 0, 0, 0⟩ with
    ⟨haddr', hmemory'⟩
  have hstatus := elfProcessLoaded_status ⟨addr, elfMemory, 0, 0, 0, 0⟩ hmemoryAddr
  generalize elfProcessLoaded (file.imageView elfMemory 0) ⟨addr, elfMemory, 0, 0, 0, 0⟩ =
    processed at hload haddr' hmemory' hstatus
  rcases processed with ⟨status, f⟩
  simp only at haddr' hmemory' hstatus hload
  have hblocks : ((k₂.withMachine m₃).withMem mem).Owns
      (⟨f.elfMemory, file.filesize⟩ :: ⟨f.addr, sizeofElfFile⟩ :: live) := by
    rw [haddr', hmemory']
    exact hown₃
  -- the header decides
  by_cases hvalid : elfValidateLoaded (elfLoadedHeader file k) < 0
  · rw [if_pos hvalid] at hstatus
    rw [hstatus] at hload
    exact hfail (elfLoadOut_notLoaded (elfFailure_of_invalid hvalid) (Or.inl hblocks) hkeeps₄
      (Except.ok.inj hload))
  · rw [if_neg hvalid] at hstatus
    have hclose := fileHeapOps_owns file.fcloseOps hblocks
    have hloaded : elfLoadOut file 0 f ((k₂.withMachine m₃).withMem mem) =
        (0, some f, fileHeapOps file.fcloseOps ((k₂.withMachine m₃).withMem mem)) := rfl
    rw [hstatus, hloaded] at hload
    rcases ok_triple_inj hload with ⟨hres, hf, hk'⟩
    rw [← hk', ← hf, ← hres]
    refine ⟨hkeeps₄.trans hclose.keeps.tail.tail,
      Or.inr ⟨rfl, f, rfl, hclose.owns, hmemory'.trans hmemoryAddr, ?_, not_lt.mp hvalid⟩⟩
    rw [hclose.mem, hmemory']
    exact hat

/-- Nor does `elf_load`. -/
lemma elfLoad_tasks {res : ℤ} {loaded : Option ElfFile}
    (hload : elfLoad file k = .ok (res, loaded, k')) : k'.tasks = k.tasks := by
  have hout : ∀ {res' : ℤ} {f : ElfFile} {k₁ : Kernel},
      elfLoadOut file res' f k₁ = (res, loaded, k') →
      k₁.tasks = k.tasks → k'.tasks = k.tasks := by
    intro res' f k₁ heq htasks
    have hk' : (elfLoadOut file res' f k₁).2.2.tasks = k₁.tasks := by
      unfold elfLoadOut
      dsimp only
      split_ifs
      · exact fileHeapOps_tasks _ _
      · exact fileHeapOps_tasks _ _
    rw [heq] at hk'
    exact hk'.trans htasks
  unfold elfLoad at hload
  rcases bind_eq_ok.mp hload with ⟨⟨addr, m₁⟩, -, hload⟩
  by_cases h0 : addr = 0
  · simp [h0] at hload
  simp only [if_neg h0] at hload
  have hopen : (fileHeapOps file.fopenOps (k.withMachine m₁)).tasks = k.tasks :=
    fileHeapOps_tasks _ _
  generalize fileHeapOps file.fopenOps (k.withMachine m₁) = k₁ at hload hopen
  by_cases hfd : file.fd ≤ 0
  · rw [if_pos hfd] at hload
    exact hout (Except.ok.inj hload) hopen
  rw [if_neg hfd] at hload
  cases hstat : file.fstat with
  | eio =>
    rw [hstat] at hload
    exact hout (Except.ok.inj hload) hopen
  | einvarg =>
    rw [hstat] at hload
    exact hout (Except.ok.inj hload) hopen
  | ok filesize =>
  rw [hstat] at hload
  rcases bind_eq_ok.mp hload with ⟨⟨elfMemory, m₂⟩, -, hload⟩
  dsimp only at hload
  split_ifs at hload
  · exact hout (Except.ok.inj hload) hopen
  · exact hout (Except.ok.inj hload) hopen
  · exact hout (Except.ok.inj hload) hopen

end MarrowOS
