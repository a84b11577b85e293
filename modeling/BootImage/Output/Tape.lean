import BootImage.Bytes

/-!
# Tapes

The ideal output: bytes, and a position that may lie behind their end. A tape takes everything it is
offered at once. Other outputs are compared with it through the tape they stand for.

- `cover`: bytes with a piece put over them, wherever it starts.
- `write`, `writeAt`: whole pieces, one after the other or at an offset.
-/

namespace BootImage

/-- Bytes and a position. -/
structure Tape where
  /-- The bytes. -/
  content : Bytes := []
  /-- The position, counted from the start. -/
  position : Nat := 0
  deriving DecidableEq, Repr

namespace Tape

/-- The content with a piece over what it held from an offset on. A gap in front of the piece is
filled with zeros; an empty piece changes nothing. -/
def cover (content : Bytes) (offset : Nat) (piece : Bytes) : Bytes :=
  if piece.isEmpty then content
  else Bytes.overlay (content ++ Bytes.zeros (offset - content.length)) offset piece

/-- The tape with a piece at its position, and moved behind it. -/
def write (tape : Tape) (piece : Bytes) : Tape :=
  ⟨cover tape.content tape.position piece, tape.position + piece.length⟩

/-- The tape with a piece at an offset, and moved behind it. -/
def writeAt (tape : Tape) (piece : Bytes) (offset : Nat) : Tape :=
  write ⟨tape.content, offset⟩ piece

@[simp] theorem cover_nil (content : Bytes) (offset : Nat) : cover content offset [] = content :=
  rfl

/-- A piece makes the content reach at least as far as it does itself. -/
theorem length_cover {content : Bytes} {offset : Nat} {piece : Bytes} (h : piece ≠ []) :
    (cover content offset piece).length = max content.length (offset + piece.length) := by
  simp only [cover, List.isEmpty_iff, if_neg h, Bytes.overlay, List.length_append, List.length_take,
    List.length_drop, Bytes.length_zeros]
  omega

end Tape

end BootImage
