import BootImage.ByteOrder

/-!
# Cyclic redundancy check

The 32-bit check of the `.xz` format: bits enter at the low end, and the register starts and ends
inverted.
-/

namespace BootImage.Codec.Crc32

/-- The generator polynomial, low bit first. -/
def polynomial : UInt32 := 0xEDB88320

/-- The register after one more bit has left it. -/
def shift (register : UInt32) : UInt32 :=
  -- The bit that leaves decides whether the polynomial is taken off.
  if register &&& 1 == 0 then register >>> 1 else (register >>> 1) ^^^ polynomial

/-- The register after one more byte has entered it. -/
def feed (register : UInt32) (byte : UInt8) : UInt32 :=
  Nat.repeat shift 8 (register ^^^ byte.toUInt32)

/-- The check of a byte string. -/
def check (bytes : Bytes) : UInt32 := bytes.foldl feed 0xFFFFFFFF ^^^ 0xFFFFFFFF

/-- The check of a byte string, as four bytes. -/
def checkBytes (bytes : Bytes) : Bytes := ByteOrder.little.encode 4 (check bytes).toNat

end BootImage.Codec.Crc32
