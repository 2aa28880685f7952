import MarrowOS.Config
import MarrowOS.Lib.ByteMem

/-!
# The global descriptor table (`gdt.c`, `gdt.h`)

A descriptor has eight bytes, over which the base, the limit and the flags are scattered. The last
section reads a descriptor as the processor does.
-/

namespace MarrowOS

open ByteMem

/-- `struct gdt_structured`. -/
structure GdtStructured where
  base : UInt32
  limit : UInt32
  type : UInt8
deriving DecidableEq, Repr

/-- `sizeof(struct gdt)`, which is packed. -/
@[simp] abbrev sizeofGdt : ℕ := 8

/-! ## Encoding -/

/-- The limit is above the threshold and not the last byte of a page. -/
def GdtStructured.Invalid (source : GdtStructured) : Prop :=
  source.limit > 65536 ∧ source.limit &&& 0xFFF ≠ 0xFFF

instance (source : GdtStructured) : Decidable source.Invalid :=
  inferInstanceAs (Decidable (source.limit > 65536 ∧ source.limit &&& 0xFFF ≠ 0xFFF))

/-- `encodeGdtEntry` from the encoding of the limit on. -/
def encodeGdtFields (target : Addr) (source : GdtStructured) (mem : Mem) : Mem :=
  let mem := Function.update mem target (source.limit &&& 0xFF).toUInt8
  let mem := Function.update mem (target + 1) ((source.limit >>> 8) &&& 0xFF).toUInt8
  let mem := Function.update mem (target + 6)
    (mem (target + 6) ||| ((source.limit >>> 16) &&& 0x0F).toUInt8)
  let mem := Function.update mem (target + 2) (source.base &&& 0xFF).toUInt8
  let mem := Function.update mem (target + 3) ((source.base >>> 8) &&& 0xFF).toUInt8
  let mem := Function.update mem (target + 4) ((source.base >>> 16) &&& 0xFF).toUInt8
  let mem := Function.update mem (target + 7) ((source.base >>> 24) &&& 0xFF).toUInt8
  Function.update mem (target + 5) source.type

def encodeGdtEntry (target : Addr) (source : GdtStructured) (mem : Mem) : Except Fault Mem :=
  if source.Invalid then .error .panic
  else
    let mem := Function.update mem (target + 6) 0x40
    if source.limit > 65536 then
      let source := { source with limit := source.limit >>> 12 }
      .ok (encodeGdtFields target source (Function.update mem (target + 6) 0xC0))
    else .ok (encodeGdtFields target source mem)

/-- The body of the loop of `gdt_structured_to_gdt`. -/
def encodeGdtEntryAt (gdt : Addr) (structuredGdt : List GdtStructured) (mem : Mem) (i : ℕ) :
    Except Fault Mem :=
  match structuredGdt[i]? with
  | none => .error .outOfBounds
  | some source => encodeGdtEntry (gdt + sizeofGdt * i) source mem

def gdtStructuredToGdt (gdt : Addr) (structuredGdt : List GdtStructured) (totalEntries : ℤ)
    (mem : Mem) : Except Fault Mem :=
  (List.range totalEntries.toNat).foldlM (encodeGdtEntryAt gdt structuredGdt) mem

/-! ## Decoding -/

/-- What a descriptor says about its segment; `limit` is the last offset. -/
structure GdtSegment where
  base : ℕ
  limit : ℕ
  type : UInt8
deriving DecidableEq, Repr

/-- Bytes 2, 3, 4 and 7. -/
def descriptorBase (mem : Mem) (a : Addr) : ℕ :=
  (mem (a + 2)).toNat + (mem (a + 3)).toNat * 2 ^ 8 + (mem (a + 4)).toNat * 2 ^ 16 +
    (mem (a + 7)).toNat * 2 ^ 24

/-- Bytes 0 and 1, and the low half of byte 6. -/
def descriptorLimit20 (mem : Mem) (a : Addr) : ℕ :=
  (mem a).toNat + (mem (a + 1)).toNat * 2 ^ 8 + (mem (a + 6)).toNat % 2 ^ 4 * 2 ^ 16

/-- Bit 7 of byte 6: the limit counts pages. -/
def descriptorGranularity (mem : Mem) (a : Addr) : Prop := (mem (a + 6)).toNat / 2 ^ 7 % 2 = 1

instance (mem : Mem) (a : Addr) : Decidable (descriptorGranularity mem a) :=
  inferInstanceAs (Decidable ((mem (a + 6)).toNat / 2 ^ 7 % 2 = 1))

/-- The descriptor at `a` as the processor reads it. -/
def segmentAt (mem : Mem) (a : Addr) : GdtSegment where
  base := descriptorBase mem a
  limit :=
    if descriptorGranularity mem a then descriptorLimit20 mem a * 4096 + 4095
    else descriptorLimit20 mem a
  type := mem (a + 5)

/-- The segment that an entry asks for. -/
def GdtStructured.segment (source : GdtStructured) : GdtSegment where
  base := source.base.toNat
  limit := source.limit.toNat
  type := source.type

end MarrowOS
