import BootImage.Bytes
import BootImage.Size

/-!
# Byte order

Integers of a fixed number of bytes inside a buffer, in the order that the target of an image
decides.

- `encode`, `decode`: a number as bytes and back; `decode_encode` is the round trip,
  `decode_reverse` says that the two orders read each other's bytes reversed.
- `put`, `get?`: a number inside a buffer; `put_eq_ok_iff` says when writing succeeds and what it
  leaves.
- `putField`: the same for a field that can be too narrow for its value.
-/

namespace BootImage

/-- The order of the bytes of an integer. -/
inductive ByteOrder where
  /-- Least significant byte first. -/
  | little
  /-- Most significant byte first. -/
  | big
  deriving DecidableEq, Repr

namespace ByteOrder

/-! ## §1 Numbers as bytes -/

/-- The `width` low bytes of a number, least significant first. -/
def littleBytes : Nat → Nat → Bytes
  | 0, _ => []
  | width + 1, value => UInt8.ofNat value :: littleBytes width (value / 256)

/-- One more than the largest number of `width` bytes. -/
def limit (width : Nat) : Nat := 1 <<< (8 * width)

/-- The number whose bytes are given least significant first. -/
def ofLittleBytes : Bytes → Nat
  | [] => 0
  | b :: bs => b.toNat + 256 * ofLittleBytes bs

/-- The `width` low bytes of a number. -/
def encode (order : ByteOrder) (width value : Nat) : Bytes :=
  match order with
  | little => littleBytes width value
  | big => (littleBytes width value).reverse

/-- The number that some bytes stand for. -/
def decode (order : ByteOrder) (bytes : Bytes) : Nat :=
  match order with
  | little => ofLittleBytes bytes
  | big => ofLittleBytes bytes.reverse

@[simp] theorem length_littleBytes (width value : Nat) :
    (littleBytes width value).length = width := by
  induction width generalizing value with
  | zero => rfl
  | succ width ih => simp [littleBytes, ih]

@[simp] theorem length_encode (order : ByteOrder) (width value : Nat) :
    (order.encode width value).length = width := by
  cases order <;> simp [encode]

/-- One more byte multiplies the limit by the number of values of a byte. -/
theorem limit_succ (width : Nat) : limit (width + 1) = 256 * limit width := by
  simp only [limit, Nat.shiftLeft_eq, Nat.one_mul, Nat.mul_add, Nat.pow_add]
  omega

/-- Low bytes are read back as the number, if it has no others. -/
theorem ofLittleBytes_littleBytes {width value : Nat} (h : value < limit width) :
    ofLittleBytes (littleBytes width value) = value := by
  induction width generalizing value with
  | zero =>
    have : value = 0 := Nat.lt_one_iff.1 h
    simp [this, littleBytes, ofLittleBytes]
  | succ width ih =>
    -- What is left behind the lowest byte fits the other bytes.
    have hdiv : value / 256 < limit width := by
      rw [limit_succ] at h
      omega
    simp only [littleBytes, ofLittleBytes, ih hdiv, UInt8.toNat_ofNat']
    omega

/-- **Round trip**: a number that fits its bytes is read back. -/
theorem decode_encode (order : ByteOrder) {width value : Nat} (h : value < limit width) :
    order.decode (order.encode width value) = value := by
  cases order <;> simp [decode, encode, ofLittleBytes_littleBytes h]

/-- The opposite order. -/
def flip : ByteOrder → ByteOrder
  | little => big
  | big => little

/-- Reversed bytes stand for the same number in the opposite order. -/
theorem decode_reverse (order : ByteOrder) (bytes : Bytes) :
    order.flip.decode bytes.reverse = order.decode bytes := by
  cases order <;> simp [flip, decode]

/-! ## §2 Numbers inside a buffer -/

/-- The buffer with a number of `width` bytes at an offset. -/
def put (order : ByteOrder) (buf : Bytes) (offset width value : Nat) : Result Bytes :=
  if offset + width ≤ buf.length then .ok (buf.overlay offset (order.encode width value))
  else refuse (.fieldOutside offset width buf.length)

/-- The number of `width` bytes at an offset, if the buffer reaches so far. -/
def get? (order : ByteOrder) (buf : Bytes) (offset width : Nat) : Option Nat :=
  if offset + width ≤ buf.length then some (order.decode (buf.slice offset width)) else none

/-- The buffer with a value in a field of 2, 4 or 8 bytes. A value that a field of 2 or 4 bytes
cannot hold is refused before the place of the field is looked at. -/
def putField (order : ByteOrder) (buf : Bytes) (offset width value : Nat) : Result Bytes :=
  match width with
  | 2 => if value < limit 2 then order.put buf offset 2 value else refuse (.valueTooLarge value)
  | 4 => if value < limit 4 then order.put buf offset 4 value else refuse (.valueTooLarge value)
  | 8 => order.put buf offset 8 value
  | _ => refuse (.fieldWidth width)

/-- A number is put wherever the buffer reaches to its end, and nowhere else. -/
theorem put_eq_ok_iff {order : ByteOrder} {buf out : Bytes} {offset width value : Nat} :
    order.put buf offset width value = .ok out ↔
      offset + width ≤ buf.length ∧ out = buf.overlay offset (order.encode width value) := by
  by_cases h : offset + width ≤ buf.length <;> simp [put, refuse, h, eq_comm]

/-- A put changes bytes and never moves them. -/
theorem length_of_put {order : ByteOrder} {buf out : Bytes} {offset width value : Nat}
    (h : order.put buf offset width value = .ok out) : out.length = buf.length := by
  obtain ⟨hle, rfl⟩ := put_eq_ok_iff.1 h
  exact Bytes.length_overlay (by simpa using hle)

/-- What was put into a buffer is read from there. -/
theorem get?_of_put {order : ByteOrder} {buf out : Bytes} {offset width value : Nat}
    (hv : value < limit width) (h : order.put buf offset width value = .ok out) :
    order.get? out offset width = some value := by
  have hlen := length_of_put h
  obtain ⟨hle, rfl⟩ := put_eq_ok_iff.1 h
  have hfit : offset + (order.encode width value).length ≤ buf.length := by simpa using hle
  have hslice := Bytes.slice_overlay_self hfit
  rw [length_encode] at hslice
  simp [get?, hlen, hle, hslice, decode_encode order hv]

/-- A number apart from the one put into a buffer is read as before. -/
theorem get?_of_put_of_disjoint {order reader : ByteOrder} {buf out : Bytes}
    {offset width value start len : Nat} (h : order.put buf offset width value = .ok out)
    (hd : start + len ≤ offset ∨ offset + width ≤ start) :
    reader.get? out start len = reader.get? buf start len := by
  have hlen := length_of_put h
  obtain ⟨hle, rfl⟩ := put_eq_ok_iff.1 h
  have hfit : offset + (order.encode width value).length ≤ buf.length := by simpa using hle
  rw [get?, get?, hlen, Bytes.slice_overlay_of_disjoint hfit (by simpa using hd)]

end ByteOrder

end BootImage
