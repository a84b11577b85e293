import BootImage.ByteOrder

/-!
# Word formats

How a target writes the numbers of its records: the width of its words and the order of their bytes.
A record field is a place, an offset and a width, that depends on the word width alone.
-/

namespace BootImage

/-- The width of a target's words, which is also the alignment of its payloads. -/
inductive WordWidth where
  /-- Words of 32 bits. -/
  | w32
  /-- Words of 64 bits. -/
  | w64
  deriving DecidableEq, Repr

/-- The number of bytes of a word. -/
def WordWidth.bytes : WordWidth → Nat
  | .w32 => 4
  | .w64 => 8

/-- The place of a field inside a record. -/
structure FieldPlace where
  /-- The distance from the start of the record. -/
  offset : Nat
  /-- The number of bytes. -/
  width : Nat
  deriving DecidableEq, Repr

/-- The format of a target's numbers. -/
structure WordFormat where
  /-- The width of a word. -/
  word : WordWidth
  /-- The order of its bytes. -/
  order : ByteOrder
  deriving DecidableEq, Repr

namespace WordFormat

/-- The buffer with a value in the field at `place` of the record that starts at `base`. -/
def putAt (format : WordFormat) (buf : Bytes) (base : Nat) (place : FieldPlace) (value : Nat) :
    Result Bytes := do
  let offset ← Size.add base place.offset
  format.order.putField buf offset place.width value

end WordFormat

end BootImage
