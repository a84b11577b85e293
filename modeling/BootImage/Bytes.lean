/-!
# Byte strings

The contents of files, buffers and images. One operation changes a buffer in place: `overlay`, which
puts a piece over what the buffer held from an offset on.

- `length_overlay`: a piece that fits leaves the length alone.
- `getElem?_overlay`: inside the piece one reads the piece, outside of it the old buffer.
- `slice_overlay_self`, `slice_overlay_of_disjoint`: the same two facts for whole ranges.
-/

namespace BootImage

/-- A byte string. -/
abbrev Bytes := List UInt8

namespace Bytes

/-! ## §1 Operations -/

/-- A run of `n` zero bytes. -/
def zeros (n : Nat) : Bytes := List.replicate n 0

/-- The `len` bytes of `buf` from `off` on, fewer where the buffer ends before. -/
def slice (buf : Bytes) (off len : Nat) : Bytes := (buf.drop off).take len

/-- The buffer with `piece` over what it held from `off` on. -/
def overlay (buf : Bytes) (off : Nat) (piece : Bytes) : Bytes :=
  buf.take off ++ (piece ++ buf.drop (off + piece.length))

/-- The buffer cut to `n` bytes, or continued with zeros up to there. -/
def resize (buf : Bytes) (n : Nat) : Bytes := buf.take n ++ zeros (n - buf.length)

/-- The UTF-8 encoding of a text. -/
def ofText (text : String) : Bytes := text.toUTF8.toList

/-- The text that a byte string encodes in UTF-8, if it is well-formed. -/
def toText? (bytes : Bytes) : Option String := String.fromUTF8? ⟨bytes.toArray⟩

/-! ## §2 Lengths -/

@[simp] theorem length_zeros (n : Nat) : (zeros n).length = n := List.length_replicate

theorem length_slice (buf : Bytes) (off len : Nat) :
    (buf.slice off len).length = min len (buf.length - off) := by
  simp [slice]

theorem length_slice_of_le {buf : Bytes} {off len : Nat} (h : off + len ≤ buf.length) :
    (buf.slice off len).length = len := by
  rw [length_slice]; omega

theorem length_overlay {buf : Bytes} {off : Nat} {piece : Bytes}
    (h : off + piece.length ≤ buf.length) : (buf.overlay off piece).length = buf.length := by
  simp only [overlay, List.length_append, List.length_take, List.length_drop]; omega

@[simp] theorem length_resize (buf : Bytes) (n : Nat) : (buf.resize n).length = n := by
  simp only [resize, List.length_append, List.length_take, length_zeros]; omega

/-! ## §3 Reading back -/

theorem getElem?_zeros (n i : Nat) : (zeros n)[i]? = if i < n then some 0 else none :=
  List.getElem?_replicate

/-- A range is the buffer, cut and shifted to the start. -/
theorem getElem?_slice (buf : Bytes) (off len i : Nat) :
    (buf.slice off len)[i]? = if i < len then buf[off + i]? else none := by
  simp [slice, List.getElem?_take, List.getElem?_drop]

/-- **Reading an overlaid buffer**: the piece where it lies, the old bytes elsewhere. -/
theorem getElem?_overlay {buf : Bytes} {off : Nat} {piece : Bytes}
    (h : off + piece.length ≤ buf.length) (i : Nat) :
    (buf.overlay off piece)[i]? =
      if off ≤ i ∧ i < off + piece.length then piece[i - off]? else buf[i]? := by
  have hoff : min off buf.length = off := by omega
  simp only [overlay, List.getElem?_append, List.length_take, hoff, List.getElem?_take,
    List.getElem?_drop]
  -- In front of the piece, in it, or behind it.
  by_cases h₁ : i < off
  · simp [h₁, show ¬ off ≤ i by omega]
  · by_cases h₂ : i - off < piece.length
    · simp [h₁, h₂, show off ≤ i by omega, show i < off + piece.length by omega]
    · simp [h₁, h₂, show ¬ i < off + piece.length by omega,
        show off + piece.length + (i - off - piece.length) = i by omega]

/-- A piece that starts where a front part ends leaves that part alone. -/
theorem overlay_append (front rest piece : Bytes) :
    (front ++ rest).overlay front.length piece = front ++ (piece ++ rest.drop piece.length) := by
  simp [overlay, List.drop_append]

/-- The range just written reads back as the piece. -/
theorem slice_overlay_self {buf : Bytes} {off : Nat} {piece : Bytes}
    (h : off + piece.length ≤ buf.length) :
    (buf.overlay off piece).slice off piece.length = piece := by
  apply List.ext_getElem?
  intro i
  rw [getElem?_slice, getElem?_overlay h]
  by_cases hi : i < piece.length
  · simp [hi]
  · simp [hi]

/-- A range apart from the piece reads as before. -/
theorem slice_overlay_of_disjoint {buf : Bytes} {off : Nat} {piece : Bytes}
    (h : off + piece.length ≤ buf.length) {start len : Nat}
    (hd : start + len ≤ off ∨ off + piece.length ≤ start) :
    (buf.overlay off piece).slice start len = buf.slice start len := by
  apply List.ext_getElem?
  intro i
  rw [getElem?_slice, getElem?_slice, getElem?_overlay h]
  by_cases hi : i < len
  · have : ¬ (off ≤ start + i ∧ start + i < off + piece.length) := by omega
    simp [hi, this]
  · simp [hi]

end Bytes

end BootImage
