import BootImage.Bytes
import BootImage.Error

/-!
# Outputs

Where an image goes to. An output has a position, puts whole pieces of bytes there, and can be asked
to move, to flush, and to bring what it took to stable storage; each of these may fail.

- `Output`: what a writer needs of an output.
- `OutputFailure`: why an output did not do what it was asked.
-/

namespace BootImage

/-- Why an output did not do what it was asked. -/
inductive OutputFailure where
  /-- It says so. -/
  | reported (cause : SystemError)
  /-- A precondition does not hold. -/
  | fault (cause : Fault)
  deriving DecidableEq, Repr

/-- An output with states `σ`. -/
structure Output (σ : Type) where
  /-- Puts a whole piece at the position. -/
  put : σ → Bytes → Except OutputFailure Unit × σ
  /-- Moves to a position. -/
  seek : σ → Nat → Except OutputFailure Unit × σ
  /-- Passes everything taken on. -/
  flush : σ → Except OutputFailure Unit × σ
  /-- Brings everything taken to stable storage. -/
  sync : σ → Except OutputFailure Unit × σ

end BootImage
