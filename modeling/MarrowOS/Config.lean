import Mathlib.Data.Int.Notation
import Mathlib.Data.Nat.Notation

/-!
# Configuration and status codes (`config.h`, `status.h`)

The constants of the kernel's two shared headers, under their names there and unfolded by
`simp`. A function that fails returns the negated status code.
-/

namespace MarrowOS

/-- A physical or virtual address; `0` is the null pointer. -/
abbrev Addr := ℕ

/-- Undefined or fatal behaviour the C code can run into. -/
inductive Fault
  | nullPointer
  | divisionByZero
  | signedOverflow
  | outOfBounds
  | wrongUnionMember
  | panic
deriving DecidableEq, Repr

/-! ## `config.h` -/

/-- 100 MB. -/
@[simp] abbrev marrowosHeapSizeBytes : ℕ := 104857600

@[simp] abbrev marrowosHeapBlockSize : ℕ := 4096

@[simp] abbrev marrowosHeapAddress : Addr := 0x01000000

@[simp] abbrev marrowosSectorSize : ℕ := 512

@[simp] abbrev marrowosMaxFileDescriptors : ℕ := 512

@[simp] abbrev marrowosMaxPath : ℕ := 108

@[simp] abbrev marrowosProgramVirtualAddress : Addr := 0x400000

@[simp] abbrev marrowosUserProgramStackSize : ℕ := 1024 * 16

@[simp] abbrev marrowosProgramVirtualStackAddressStart : Addr := 0x3FF000

@[simp] abbrev marrowosProgramVirtualStackAddressEnd : Addr :=
  marrowosProgramVirtualStackAddressStart - marrowosUserProgramStackSize

@[simp] abbrev userDataSegment : ℕ := 0x23

@[simp] abbrev userCodeSegment : ℕ := 0x1b

@[simp] abbrev marrowosMaxProgramAllocation : ℕ := 1024

@[simp] abbrev marrowosMaxProcesses : ℕ := 12

@[simp] abbrev marrowosTotalInterrupts : ℕ := 512

@[simp] abbrev kernelCodeSelector : ℕ := 0x08

@[simp] abbrev kernelDataSelector : ℕ := 0x10

@[simp] abbrev marrowosMaxIsr80hCommands : ℕ := 1024

/-! ## `status.h` -/

@[simp] abbrev marrowosAllOk : ℤ := 0
@[simp] abbrev eio : ℤ := 1
@[simp] abbrev einvarg : ℤ := 2
@[simp] abbrev enomem : ℤ := 3
@[simp] abbrev ebadpath : ℤ := 4
@[simp] abbrev efsnotus : ℤ := 5
@[simp] abbrev erdonly : ℤ := 6
@[simp] abbrev eunimp : ℤ := 7
@[simp] abbrev eistkn : ℤ := 8
@[simp] abbrev einformat : ℤ := 9

end MarrowOS
