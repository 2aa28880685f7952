import MarrowOS.Fs.Fat16Mount
import MarrowOS.Fs.FatFaults

/-!
# The size of a cluster as a divisor

A volume is accepted whatever it says about its clusters, and the size of a cluster is the divisor
of every read. An accepted volume never makes the driver divide by zero exactly when its clusters
have a sector, or nothing in its root directory leads to a cluster (`dividesSafely_iff`).
-/

namespace MarrowOS

open CInt Fallible Slice

variable {σ : Type} {A : Allocator σ} {device : Device} {disk : Disk} {e : FatDirectoryItem}
  {s s' : σ}

/-- No open and no read of a file that was opened divides by zero, and a read that goes on has less
to read than before. -/
structure DividesSafely (disk : Disk) : Prop where
  opens : ∀ (σ : Type) (A : Allocator σ) (path : List PathPart) (mode : FileMode) (s : σ),
    fat16Open A disk path mode s ≠ .error .divisionByZero
  reads : ∀ (σ : Type) (A : Allocator σ) (path : List PathPart) (mode : FileMode) (s s' : σ) ptr
    (descriptor : FatFileDescriptor),
    fat16Open A disk path mode s = .ok ((ptr, some descriptor), s') → ∀ pos size nmemb,
      fat16Read disk { descriptor with pos } size nmemb ≠ .error .divisionByZero
  decreases : ∀ cluster offset clusterToUse total,
    fat16GetClusterForOffset disk cluster offset = .ok clusterToUse →
      0 < restToRead disk total → restToRead disk total < total

/-- What is found in the root directory leads to no cluster: it is a subdirectory, and not even its
entries can be counted. -/
def NoClusterReached (disk : Disk) : Prop :=
  ∀ name i e, fat16FindEntry disk.fsPrivate.rootDirectory name = .ok (some (i, e)) →
    IsSubdirectory e ∧ ∀ total, fat16CountEntries disk e ≠ .ok total

/-! ## Clusters without a sector -/

/-- Every read divides by the size of a cluster first. -/
lemma fat16ReadInternal_divides (hsize : sizeOfClusterBytes disk = 0) (cluster offset total : ℤ) :
    fat16ReadInternal disk cluster offset total = .error .divisionByZero := by
  have hdivides : fat16GetClusterForOffset disk cluster offset = .error .divisionByZero :=
    if_pos hsize
  rw [fat16ReadInternal, fat16ReadInternalFromStream, hdivides]
  rfl

lemma fat16Read_divides (hsize : sizeOfClusterBytes disk = 0) {descriptor : FatFileDescriptor}
    {ptr : Addr} (hitem : descriptor.item.payload = .item ptr e) (hptr : ptr ≠ 0) (size n : ℕ) :
    fat16Read disk descriptor size (n + 1) = .error .divisionByZero := by
  unfold fat16Read
  rw [hitem]
  show (if _ then _ else _) = _
  rw [if_neg fun h => hptr h.1, fat16ReadLoop, fat16ReadInternal_divides hsize]
  rfl

lemma fat16LoadFatDirectory_divides (hsize : sizeOfClusterBytes disk = 0) (hsub : IsSubdirectory e)
    {total : ℤ} (hcount : fat16CountEntries disk e = .ok total)
    (halloc : ∀ n s, (A.kmalloc n s).1 ≠ 0) (s : σ) :
    fat16LoadFatDirectory A disk e s = .error .divisionByZero := by
  have hread : fat16ReadEntries disk e total = .error .divisionByZero :=
    fat16ReadInternal_divides hsize _ _ _
  rw [← fat16LoadFatDirectoryStatus_snd]
  unfold fat16LoadFatDirectoryStatus
  rw [if_neg (show ¬ e.attribute &&& fatFileSubdirectory = 0 from hsub)]
  simp only [if_neg (halloc sizeofFatDirectory s), hcount, ok_bind]
  rw [if_neg (halloc _ _), hread]
  rfl

/-- The open of a path of one part that is found. -/
lemma fat16Open_one (halloc : ∀ n s, (A.kmalloc n s).1 ≠ 0) {first : PathPart} {i : ℕ}
    (hfind : fat16FindEntry disk.fsPrivate.rootDirectory first.part = .ok (some (i, e))) (s : σ) :
    fat16Open A disk [first] .read s = (do
      match ← fat16NewFatItemForDirectoryItem A disk e (A.kmalloc sizeofFatFileDescriptor s).2 with
      | (none, s₁) =>
        return ((u32 (-eio), none), A.kfree (A.kmalloc sizeofFatFileDescriptor s).1 s₁)
      | (some item, s₁) =>
        return (((A.kmalloc sizeofFatFileDescriptor s).1, some ⟨item, 0⟩), s₁)) := by
  unfold fat16Open
  rw [if_neg (not_not.mpr rfl)]
  simp only [if_neg (halloc _ _)]
  unfold fat16GetDirectoryEntry fat16FindItemInDirectory
  rw [hfind, ok_bind]
  simp only [bind_assoc]
  apply bind_congr
  rintro ⟨item, s₁⟩
  cases item <;> rfl

/-- What is found in the root directory divides by zero, now or when it is read. -/
lemma not_dividesSafely (hsize : sizeOfClusterBytes disk = 0)
    (hreached : ¬ NoClusterReached disk) : ¬ DividesSafely disk := by
  unfold NoClusterReached at hreached
  push Not at hreached
  rcases hreached with ⟨name, i, e, hfind, hleads⟩
  intro hsafe
  have hopen := @fat16Open_one Unit constAllocator disk e constAllocator_kmalloc_ne
    ⟨4096, 8192, name⟩ i hfind ()
  by_cases hsub : IsSubdirectory e
  · rcases hleads hsub with ⟨total, hcount⟩
    have hload := @fat16LoadFatDirectory_divides Unit constAllocator disk e hsize hsub total hcount
      constAllocator_kmalloc_ne ()
    apply hsafe.opens Unit constAllocator [⟨4096, 8192, name⟩] .read ()
    rw [hopen]
    unfold fat16NewFatItemForDirectoryItem
    simp only [if_neg (constAllocator_kmalloc_ne _ _)]
    rw [if_pos (show e.attribute &&& fatFileSubdirectory ≠ 0 from hsub), hload]
    rfl
  · rw [fat16NewFatItem_file hsub (constAllocator_kmalloc_ne _ _), ok_bind] at hopen
    exact hsafe.reads Unit constAllocator [⟨4096, 8192, name⟩] .read () _ _ _ hopen 0 1 1
      (fat16Read_divides hsize rfl (constAllocator_kmalloc_ne _ _) 1 0)

/-! ## Volumes that are safe -/

lemma not_positionFault_divisionByZero : ¬ PositionFault .divisionByZero := by
  rintro (h | h) <;> cases h

lemma restToRead_lt_of_ok {cluster offset clusterToUse total : ℤ}
    (hcluster : fat16GetClusterForOffset disk cluster offset = .ok clusterToUse)
    (hrest : 0 < restToRead disk total) : restToRead disk total < total := by
  have hsize : sizeOfClusterBytes disk ≠ 0 := by
    intro h0
    have hdivides : fat16GetClusterForOffset disk cluster offset = .error .divisionByZero :=
      if_pos h0
    rw [hdivides] at hcluster
    cases hcluster
  exact restToRead_lt hsize hrest

/-- Clusters with a sector are never of size zero. -/
lemma dividesSafely_of_size (hsize : sizeOfClusterBytes disk ≠ 0) : DividesSafely disk := by
  have hfault : ¬ OpenFault disk .divisionByZero := by
    rintro ((h | h | ⟨-, h⟩) | h)
    · cases h
    · cases h
    · exact hsize h
    · cases h
  refine ⟨fun σ A path mode s => (faultsIn_fat16Open path mode s).ne_error hfault, ?_,
    fun _ _ _ _ => restToRead_lt_of_ok⟩
  intro σ A path mode s s' ptr descriptor _ pos size nmemb
  cases hpayload : descriptor.item.payload with
  | directory ptr' directory =>
    unfold fat16Read
    rw [hpayload]
    intro h
    cases h
  | item ptr' item =>
    exact (@faultsIn_fat16Read disk { descriptor with pos } ptr' item hpayload size
      nmemb).ne_error hfault

/-- A load whose entries cannot be counted returns null, or does not return. -/
lemma fat16LoadFatDirectory_uncounted (hsub : IsSubdirectory e)
    (hcount : ∀ total, fat16CountEntries disk e ≠ .ok total) (s : σ) :
    (∃ s₁, fat16LoadFatDirectory A disk e s = .ok ((0, clearedDirectory), s₁)) ∨
      ∃ fault, PositionFault fault ∧ fat16LoadFatDirectory A disk e s = .error fault := by
  have hstatus := @fat16LoadFatDirectoryStatus_snd σ A disk e s
  unfold fat16LoadFatDirectoryStatus at hstatus
  rw [if_neg (show ¬ e.attribute &&& fatFileSubdirectory = 0 from hsub)] at hstatus
  by_cases hptr : (A.kmalloc sizeofFatDirectory s).1 = 0
  · simp only [if_pos hptr] at hstatus
    exact Or.inl ⟨_, hstatus.symm⟩
  simp only [if_neg hptr] at hstatus
  cases hfault : fat16CountEntries disk e with
  | ok total => exact absurd hfault (hcount total)
  | error fault =>
    rw [hfault] at hstatus
    exact Or.inr ⟨fault, faultsIn_fat16CountEntries e fault hfault, hstatus.symm⟩

/-- Where no cluster is reached, what is found has no directory behind it. -/
lemma NoClusterReached.find (h : NoClusterReached disk) (name : CString) (s : σ) :
    FaultsIn PositionFault
        (fat16FindItemInDirectory A disk disk.fsPrivate.rootDirectory name s) ∧
      ∀ item s₁, fat16FindItemInDirectory A disk disk.fsPrivate.rootDirectory name s =
        .ok (some item, s₁) → ∃ directory, item.payload = .directory 0 directory := by
  unfold fat16FindItemInDirectory
  cases hfind : fat16FindEntry disk.fsPrivate.rootDirectory name with
  | error fault =>
    refine ⟨faultsIn_error (faultsIn_fat16FindEntry _ _ fault hfind), fun item s₁ hok => ?_⟩
    cases hok
  | ok found =>
    rw [ok_bind]
    cases found with
    | none =>
      refine ⟨faultsIn_ok _, fun item s₁ hok => ?_⟩
      cases hok
    | some found =>
      -- what is found is a subdirectory whose entries are not counted
      rcases h name found.1 found.2 hfind with ⟨hsub, hcount⟩
      show FaultsIn PositionFault (fat16NewFatItemForDirectoryItem A disk found.2 s) ∧
        ∀ item s₁, fat16NewFatItemForDirectoryItem A disk found.2 s = .ok (some item, s₁) → _
      unfold fat16NewFatItemForDirectoryItem
      by_cases haddr : (A.kmalloc sizeofFatItem s).1 = 0
      · simp only [if_pos haddr]
        refine ⟨faultsIn_ok _, fun item s₁ hok => ?_⟩
        cases hok
      simp only [if_neg haddr]
      rw [if_pos (show found.2.attribute &&& fatFileSubdirectory ≠ 0 from hsub)]
      rcases @fat16LoadFatDirectory_uncounted σ A disk found.2 hsub hcount
        (A.kmalloc sizeofFatItem s).2 with ⟨s₁, hload⟩ | ⟨fault, hfault, hload⟩
      · rw [hload, ok_bind]
        refine ⟨faultsIn_ok _, fun item s₂ hok => ?_⟩
        rw [← Option.some.inj (Prod.mk.inj (Except.ok.inj hok)).1]
        exact ⟨clearedDirectory, rfl⟩
      · rw [hload]
        refine ⟨faultsIn_error hfault, fun item s₂ hok => ?_⟩
        cases hok

/-- Where no cluster is reached, an open has other faults, and what it returns is no file. -/
lemma NoClusterReached.open (h : NoClusterReached disk) (path : List PathPart) (mode : FileMode)
    (s : σ) :
    FaultsIn (fun fault => PositionFault fault ∨ fault = .nullPointer)
        (fat16Open A disk path mode s) ∧
      ∀ ptr descriptor s₁, fat16Open A disk path mode s = .ok ((ptr, some descriptor), s₁) →
        ∃ directory, descriptor.item.payload = .directory 0 directory := by
  unfold fat16Open
  by_cases hmode : mode ≠ .read
  · rw [if_pos hmode]
    refine ⟨faultsIn_ok _, fun ptr descriptor s₁ hok => ?_⟩
    cases (Prod.mk.inj (Prod.mk.inj (Except.ok.inj hok)).1).2
  rw [if_neg hmode]
  by_cases hdescriptor : (A.kmalloc sizeofFatFileDescriptor s).1 = 0
  · simp only [if_pos hdescriptor]
    refine ⟨faultsIn_ok _, fun ptr descriptor s₁ hok => ?_⟩
    cases (Prod.mk.inj (Prod.mk.inj (Except.ok.inj hok)).1).2
  simp only [if_neg hdescriptor]
  cases path with
  | nil =>
    refine ⟨faultsIn_error (Or.inr rfl), fun ptr descriptor s₁ hok => ?_⟩
    cases hok
  | cons first nextParts =>
    have hfound := @NoClusterReached.find σ A disk h first.part
      (A.kmalloc sizeofFatFileDescriptor s).2
    simp only
    unfold fat16GetDirectoryEntry
    cases hfind : fat16FindItemInDirectory A disk disk.fsPrivate.rootDirectory first.part
      (A.kmalloc sizeofFatFileDescriptor s).2 with
    | error fault =>
      refine ⟨faultsIn_error (Or.inl (hfound.1 fault hfind)), fun ptr descriptor s₁ hok => ?_⟩
      cases hok
    | ok r =>
      rcases r with ⟨result, s₁⟩
      cases result with
      | none =>
        refine ⟨faultsIn_ok _, fun ptr descriptor s₂ hok => ?_⟩
        cases (Prod.mk.inj (Prod.mk.inj (Except.ok.inj hok)).1).2
      | some item =>
        rcases hfound.2 item s₁ hfind with ⟨directory, hpayload⟩
        cases nextParts with
        | nil =>
          refine ⟨faultsIn_ok _, fun ptr descriptor s₂ hok => ?_⟩
          have hdesc := (Prod.mk.inj (Prod.mk.inj (Except.ok.inj hok)).1).2
          rw [← Option.some.inj hdesc]
          exact ⟨directory, hpayload⟩
        | cons next parts =>
          -- the loop looks into the empty array of the directory
          have hnull : fat16GetDirectoryEntryLoop A disk (some item)
              ((next :: parts).map PathPart.part) s₁ = .error .nullPointer := by
            rw [List.map_cons, fat16GetDirectoryEntryLoop, hpayload]
            rfl
          simp only [ok_bind, hnull]
          refine ⟨faultsIn_error (Or.inr rfl), fun ptr descriptor s₂ hok => ?_⟩
          cases hok

lemma dividesSafely_of_noClusterReached (h : NoClusterReached disk) : DividesSafely disk := by
  refine ⟨?_, ?_, fun _ _ _ _ => restToRead_lt_of_ok⟩
  · intro σ A path mode s
    apply (h.open path mode s).1.ne_error
    rintro (hfault | hfault)
    · exact not_positionFault_divisionByZero hfault
    · cases hfault
  · intro σ A path mode s s' ptr descriptor hopen pos size nmemb
    rcases (h.open path mode s).2 ptr descriptor s' hopen with ⟨directory, hpayload⟩
    unfold fat16Read
    rw [hpayload]
    intro hread
    cases hread

/-- **Division by the size of a cluster.** On a volume that was accepted nothing divides by zero
exactly when its clusters have a sector, or nothing in its root directory leads to a cluster. -/
theorem dividesSafely_iff (h : fat16Resolve A device s = .ok ((0, some disk), s')) :
    DividesSafely disk ↔ device.byte 13 ≠ 0 ∨ NoClusterReached disk := by
  have hsize : sizeOfClusterBytes disk ≠ 0 ↔ device.byte 13 ≠ 0 := by
    rcases fat16Resolve_ok h with ⟨-, rootDirectory, s₁, s₂, -, hdisk⟩
    have hbyte : (fatHeaderOf (slice device.byte 0 sizeofFatH)).sectorsPerCluster =
        device.byte 13 := by
      show (slice device.byte 0 sizeofFatH)[13]?.getD 0 = device.byte 13
      rw [getElem?_slice (by decide)]
      rfl
    rw [Option.some.inj hdisk]
    unfold sizeOfClusterBytes
    rw [hbyte, Ne, Ne, Nat.mul_eq_zero, or_iff_left (by decide), ← UInt8.toNat_inj]
    rfl
  constructor
  · intro hsafe
    by_contra hno
    rcases not_or.mp hno with ⟨hbyte, hreached⟩
    exact not_dividesSafely (not_not.mp fun hne => hbyte (hsize.mp hne)) hreached hsafe
  · rintro (hbyte | hreached)
    · exact dividesSafely_of_size (hsize.mpr hbyte)
    · exact dividesSafely_of_noClusterReached hreached

/-! ## A volume with one file -/

/-- A volume with clusters of `spc` sectors, and the file `A` in its root directory. -/
def oneFileDevice (spc : UInt8) : Device where
  sector lba i :=
    if lba = 0 then
      if i = 13 then spc
      else if i = 14 ∨ i = 16 ∨ i = 22 then 1
      else if i = 17 then 16
      else if i = 38 then 0x29
      else 0
    else if lba = 2 then
      if i = 0 then 0x41
      else if i < 12 then 0x20
      else if i = 26 then 2
      else if i = 28 then 100
      else 0
    else 0

/-- Clusters of one sector. -/
theorem dividesSafely_oneSector : ∃ disk k,
    fat16Resolve kernelAllocator (oneFileDevice 1) bootMachine.heap = .ok ((0, some disk), k) ∧
      DividesSafely disk := by
  have hmount : (fat16Resolve kernelAllocator (oneFileDevice 1) bootMachine.heap).toOption.map
      (fun r => (r.1.1, r.1.2.isSome)) = some (0, true) := by decide +kernel
  rcases exists_ok_of_toOption_map hmount with ⟨⟨⟨res, accepted⟩, k⟩, hrun, heq⟩
  rcases Prod.mk.inj heq with ⟨hres, hsome⟩
  rcases Option.isSome_iff_exists.mp hsome with ⟨disk, hdisk⟩
  have hzero : res = 0 := hres
  have haccepted : accepted = some disk := hdisk
  rw [hzero, haccepted] at hrun
  exact ⟨disk, k, hrun, (dividesSafely_iff hrun).mpr (Or.inl (by decide))⟩

/-- With clusters of no sector the volume is accepted, and a read of the file `A` divides by
zero. -/
theorem not_dividesSafely_noSector :
    ¬ ∀ (σ : Type) (A : Allocator σ) (device : Device) (disk : Disk) (s s' : σ),
      fat16Resolve A device s = .ok ((0, some disk), s') → DividesSafely disk := by
  intro h
  have hfound : ((fat16Resolve kernelAllocator (oneFileDevice 0) bootMachine.heap).toOption.map
      fun r => (r.1.1, r.1.2.bind fun disk =>
        (fat16FindEntry disk.fsPrivate.rootDirectory [0x41]).toOption)) =
      some (0, some (some (0, plainFileEntry))) := by decide +kernel
  rcases exists_ok_of_toOption_map hfound with ⟨⟨⟨res, accepted⟩, k⟩, hrun, heq⟩
  rcases Prod.mk.inj heq with ⟨hres, hentry⟩
  rcases Option.bind_eq_some_iff.mp hentry with ⟨disk, hdisk, hfind⟩
  have hzero : res = 0 := hres
  have haccepted : accepted = some disk := hdisk
  rw [hzero, haccepted] at hrun
  rcases (dividesSafely_iff hrun).mp (h _ _ _ _ _ _ hrun) with hbyte | hreached
  · exact hbyte rfl
  · exact absurd (hreached [0x41] 0 plainFileEntry (eq_ok_of_toOption hfind)).1 (by decide)

end MarrowOS
