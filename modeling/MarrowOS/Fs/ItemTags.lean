import MarrowOS.Fs.FatFaults
import MarrowOS.Fs.PathResolution
import MarrowOS.Fs.SeekPositions

/-!
# The tag of an item

A `struct fat_item` holds a pointer to a directory entry or to a directory, and a type that says
which. The accessors `FatItem.item` and `FatItem.directory` are the two ways to read the union, and
reading the member that is not there is a fault. `fat16_stat`, `fat16_seek` and
`fat16_fat_item_free` look at the type first (`fat16Stat_eq`, `fat16Seek_eq`,
`fat16FatItemFreeByType_eq`), `fat16_read` does not (`fat16Read_eq`); `tagDisciplined_iff` says for
which calls this matters.
-/

namespace MarrowOS

open CInt Fallible

/-! ## The union -/

@[simp] abbrev fatItemTypeDirectory : ℕ := 0
@[simp] abbrev fatItemTypeFile : ℕ := 1

/-- The `type` field: what was stored last. -/
def FatItem.type (item : FatItem) : ℕ :=
  match item.payload with
  | .directory _ _ => fatItemTypeDirectory
  | .item _ _ => fatItemTypeFile

/-- Read the union as a pointer to a directory entry. -/
def FatItem.item (item : FatItem) : Except Fault (Addr × FatDirectoryItem) :=
  match item.payload with
  | .directory _ _ => .error .wrongUnionMember
  | .item ptr entry => .ok (ptr, entry)

/-- Read the union as a pointer to a directory. -/
def FatItem.directory (item : FatItem) : Except Fault (Addr × FatDirectory) :=
  match item.payload with
  | .directory ptr directory => .ok (ptr, directory)
  | .item _ _ => .error .wrongUnionMember

variable {σ : Type} (A : Allocator σ) (disk : Disk)

/-- `fat16_fat_item_free`, with its reads of the union. -/
def fat16FatItemFreeByType (item : FatItem) (s : σ) : Except Fault σ := do
  if item.type = fatItemTypeDirectory then
    let (ptr, directory) ← item.directory
    return A.kfree item.addr (fat16FreeDirectory A ptr directory s)
  else if item.type = fatItemTypeFile then
    let (ptr, _) ← item.item
    return A.kfree item.addr (A.kfree ptr s)
  else return A.kfree item.addr s

/-- Freeing reads the member that is there. -/
lemma fat16FatItemFreeByType_eq (item : FatItem) (s : σ) :
    fat16FatItemFreeByType A item s = .ok (fat16FatItemFree A item s) := by
  unfold fat16FatItemFreeByType fat16FatItemFree FatItem.type FatItem.item FatItem.directory
  cases item.payload <;> rfl

/-- `fat16_stat` reads the entry of a file only. -/
lemma fat16Stat_eq (desc : FatFileDescriptor) :
    fat16Stat desc =
      if desc.item.type ≠ fatItemTypeFile then .ok (-einvarg, none)
      else (do
        let (ptr, ritem) ← desc.item.item
        if ptr = 0 then throw .nullPointer
        else
          let flags := if ritem.attribute &&& fatFileReadOnly ≠ 0 then fileStatReadOnly else 0x00
          return (0, some ⟨flags, ritem.filesize.toNat⟩)) := by
  unfold fat16Stat FatItem.type FatItem.item
  cases desc.item.payload <;> rfl

/-- So does `fat16_seek`. -/
lemma fat16Seek_eq (desc : FatFileDescriptor) (offset seekMode : ℕ) :
    fat16Seek desc offset seekMode =
      if desc.item.type ≠ fatItemTypeFile then .ok (-einvarg, desc)
      else (do
        let (ptr, ritem) ← desc.item.item
        if ptr = 0 then throw .nullPointer
        else if ritem.filesize.toNat ≤ offset then return (-eio, desc)
        else if seekMode = seekSet then return (0, { desc with pos := offset })
        else if seekMode = seekEnd then return (-eunimp, desc)
        else if seekMode = seekCur then return (0, { desc with pos := u32 (desc.pos + offset) })
        else return (-einvarg, desc)) := by
  unfold fat16Seek FatItem.type FatItem.item
  cases desc.item.payload <;> rfl

/-- `fat16_read` reads the entry whatever the type. -/
lemma fat16Read_eq (desc : FatFileDescriptor) (size nmemb : ℕ) :
    fat16Read disk desc size nmemb = (do
      let (ptr, item) ← desc.item.item
      if ptr = 0 ∧ 0 < nmemb then throw .nullPointer
      else
        let (res, items, offset) ← fat16ReadLoop disk item size nmemb (i32 desc.pos)
        if res < 0 then return ⟨res, items, desc.pos⟩
        else return ⟨i32 nmemb, items, u32 offset⟩) := by
  unfold fat16Read FatItem.item
  cases desc.item.payload <;> rfl

/-! ## Calls on a descriptor -/

/-- A call that gets a descriptor. -/
inductive DescriptorCall
  | stat
  | seek (offset seekMode : ℕ)
  | read (size nmemb : ℕ)
  | close

/-- What a call returns, the position it leaves and what it writes to `out`. -/
structure CallOutcome where
  res : ℤ
  pos : ℕ
  out : List (List UInt8)
deriving DecidableEq, Repr

/-- Make the call on the descriptor at `ptr`. -/
def DescriptorCall.perform (desc : FatFileDescriptor) (ptr : Addr) (s : σ) :
    DescriptorCall → Except Fault CallOutcome
  | .stat => (fat16Stat desc).map fun r => ⟨r.1, desc.pos, []⟩
  | .seek offset seekMode => (fat16Seek desc offset seekMode).map fun r => ⟨r.1, r.2.pos, []⟩
  | .read size nmemb => (fat16Read disk desc size nmemb).map fun r => ⟨r.res, r.pos, r.items⟩
  | .close => (fat16FatItemFreeByType A desc.item s).map fun _ =>
      ⟨(fat16Close A ptr desc s).1, desc.pos, []⟩

/-- The call reads no member of the union that is not there, and a read of a subdirectory returns
an error and changes nothing. -/
def TagDisciplined (desc : FatFileDescriptor) (ptr : Addr) (s : σ) (call : DescriptorCall) : Prop :=
  call.perform A disk desc ptr s ≠ .error .wrongUnionMember ∧
    ∀ size nmemb, call = .read size nmemb → desc.item.type = fatItemTypeDirectory →
      ∃ res < 0, call.perform A disk desc ptr s = .ok ⟨res, desc.pos, []⟩

variable {A disk} {desc : FatFileDescriptor} {ptr : Addr} {s : σ}

/-- The faults of a call on a file. -/
lemma perform_faultsIn_of_file {itemPtr : Addr} {entry : FatDirectoryItem}
    (hitem : desc.item.payload = .item itemPtr entry) (call : DescriptorCall) :
    FaultsIn (OpenFault disk) (call.perform A disk desc ptr s) := by
  cases call with
  | stat =>
    apply FaultsIn.map
    unfold fat16Stat
    rw [hitem]
    simp only
    split_ifs
    · exact faultsIn_error (Or.inr rfl)
    · exact faultsIn_ok _
    · exact faultsIn_ok _
  | seek offset seekMode =>
    apply FaultsIn.map
    unfold fat16Seek
    rw [hitem]
    simp only
    split_ifs
    · exact faultsIn_error (Or.inr rfl)
    · exact faultsIn_ok _
    · exact faultsIn_ok _
    · exact faultsIn_ok _
    · exact faultsIn_ok _
    · exact faultsIn_ok _
  | read size nmemb => exact (faultsIn_fat16Read hitem size nmemb).map
  | close =>
    apply FaultsIn.map
    rw [fat16FatItemFreeByType_eq]
    exact faultsIn_ok _

lemma not_openFault_wrongUnionMember : ¬ OpenFault disk .wrongUnionMember := by
  intro h
  rcases h with (h | h | ⟨h, -⟩) | h
  · cases h
  · cases h
  · cases h
  · cases h

/-- A read of a subdirectory takes it for a file. -/
lemma fat16Read_directory (htype : desc.item.type = fatItemTypeDirectory) (size nmemb : ℕ) :
    fat16Read disk desc size nmemb = .error .wrongUnionMember := by
  unfold FatItem.type at htype
  unfold fat16Read
  cases hitem : desc.item.payload with
  | directory ptr directory => rfl
  | item ptr entry =>
    rw [hitem] at htype
    cases htype

/-- The other calls look at the type. -/
lemma perform_directory (htype : desc.item.type = fatItemTypeDirectory) {call : DescriptorCall}
    (hcall : ∀ size nmemb, call ≠ .read size nmemb) :
    ∃ outcome, call.perform A disk desc ptr s = .ok outcome := by
  have hfile : desc.item.type ≠ fatItemTypeFile := by
    rw [htype]
    decide
  cases call with
  | stat =>
    rw [DescriptorCall.perform, fat16Stat_eq, if_pos hfile]
    exact ⟨_, rfl⟩
  | seek offset seekMode =>
    rw [DescriptorCall.perform, fat16Seek_eq, if_pos hfile]
    exact ⟨_, rfl⟩
  | read size nmemb => exact absurd rfl (hcall size nmemb)
  | close =>
    rw [DescriptorCall.perform, fat16FatItemFreeByType_eq]
    exact ⟨_, rfl⟩

/-- **Tag discipline.** A call on a descriptor reads the union as its type says, and a read of a
subdirectory fails without an effect, exactly when it is not a read of a subdirectory. -/
theorem tagDisciplined_iff (A : Allocator σ) (disk : Disk) (desc : FatFileDescriptor) (ptr : Addr)
    (s : σ) (call : DescriptorCall) :
    TagDisciplined A disk desc ptr s call ↔
      (desc.item.type = fatItemTypeDirectory → ∀ size nmemb, call ≠ .read size nmemb) := by
  constructor
  · intro h htype size nmemb hread
    apply h.1
    rw [hread, DescriptorCall.perform, fat16Read_directory htype]
    rfl
  · intro h
    by_cases htype : desc.item.type = fatItemTypeDirectory
    · have hcall := h htype
      rcases perform_directory (A := A) htype hcall with ⟨outcome, hok⟩
      refine ⟨?_, fun size nmemb hread => absurd hread (hcall size nmemb)⟩
      rw [hok]
      exact fun h => by cases h
    · refine ⟨?_, fun size nmemb _ hdir => absurd hdir htype⟩
      cases hitem : desc.item.payload with
      | directory dirPtr directory =>
        unfold FatItem.type at htype
        rw [hitem] at htype
        exact absurd rfl htype
      | item itemPtr entry =>
        exact (perform_faultsIn_of_file hitem call).ne_error not_openFault_wrongUnionMember

/-! ## A subdirectory that is opened -/

/-- The descriptor of the subdirectory `A`. -/
def emptyDirectoryDescriptor : FatFileDescriptor :=
  ⟨⟨4096, .directory 4096 ⟨4096, [], 0, 0, 0⟩⟩, 0⟩

lemma fat16Open_emptyDirectory :
    fat16Open constAllocator emptyDirectoryDisk [⟨4096, 4096, [0x41]⟩] .read () =
      .ok ((4096, some emptyDirectoryDescriptor), ()) := by
  have hval : (fat16Open constAllocator emptyDirectoryDisk [⟨4096, 4096, [0x41]⟩] .read
      ()).toOption = some ((4096, some emptyDirectoryDescriptor), ()) := by decide +kernel
  exact eq_ok_of_toOption hval

/-- It can be read. -/
theorem not_tagDisciplined_read :
    ¬ ∀ (σ : Type) (A : Allocator σ) (disk : Disk) (path : List PathPart) (mode : FileMode)
      (s₀ s₁ s : σ) (ptr : Addr) (desc : FatFileDescriptor) (call : DescriptorCall),
      fat16Open A disk path mode s₀ = .ok ((ptr, some desc), s₁) →
      TagDisciplined A disk desc ptr s call := by
  intro h
  have hread := h _ _ _ _ _ _ _ () _ _ (.read 1 1) fat16Open_emptyDirectory
  apply hread.1
  rw [DescriptorCall.perform, fat16Read_directory rfl]
  rfl

end MarrowOS
