import BootImage.WordFormat

/-!
# The module-info record

The record at the start of a module region, by which the kernel finds it: a magic number, the offset
of the first module header, and the size of the whole region. Its last two fields are words.
-/

namespace BootImage

/-- A field of the module-info record. -/
inductive InfoField where
  /-- The magic number. -/
  | magic
  /-- The offset of the first header. -/
  | offset
  /-- The size of the region. -/
  | size
  deriving DecidableEq, Repr

/-- The magic number of the record. -/
def infoMagic : Nat := 0x676d696d

/-- The size of the record. -/
def WordWidth.infoSize : WordWidth → Nat
  | .w32 => 12
  | .w64 => 24

/-- The place of a field in the record. The 64-bit record has a pad word behind the magic number. -/
def WordWidth.infoPlace : WordWidth → InfoField → FieldPlace
  | _, .magic => ⟨0, 4⟩
  | .w32, .offset => ⟨4, 4⟩
  | .w32, .size => ⟨8, 4⟩
  | .w64, .offset => ⟨8, 8⟩
  | .w64, .size => ⟨16, 8⟩

end BootImage
