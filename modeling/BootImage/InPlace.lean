import BootImage.Bytes
import BootImage.Error

/-!
# Buffers changed in place

A step that changes a buffer where it lies. What it has changed by the time it fails stays changed, so
the content of the buffer is known after a failure too. A step that checks something first and fails
there leaves the buffer as it was.

- `InPlace`, `InPlace.on`: steps, and what they make of a buffer.
- `edit`, `check`: one change, or a look at the buffer alone.
- `within`, `behind`: a step on a part of a buffer.
- `copyWithin`, `clear`: bytes copied inside a buffer, and bytes set to zero.
- `outcome`: the answer and the changed buffer, or the failure alone.
-/

namespace BootImage

/-- A step that changes a buffer in place and answers. -/
abbrev InPlace (α : Type) : Type := ExceptT Failure (StateM Bytes) α

namespace InPlace

variable {α β : Type}

/-! ## §1 Steps -/

/-- The answer of a step, and what it leaves of a buffer, whether it fails or not. -/
def on (step : InPlace α) (buf : Bytes) : Result α × Bytes := step.run buf

/-- One change of the whole buffer. It is made or, where it fails, not made at all. -/
def edit (change : Bytes → Result Bytes) : InPlace Unit := ExceptT.mk fun buf =>
  match change buf with
  | .ok out => (.ok (), out)
  | .error failure => (.error failure, buf)

/-- A look at the buffer, which changes nothing. -/
def check (look : Bytes → Result α) : InPlace α := ExceptT.mk fun buf => (look buf, buf)

/-- A step on the `len` bytes of the buffer from `off` on. -/
def within (off len : Nat) (step : InPlace α) : InPlace α := ExceptT.mk fun buf =>
  let (answer, piece) := step.on (buf.slice off len)
  -- What the step made of its part goes back where the part was, whether it failed or not.
  (answer, buf.take off ++ (piece ++ buf.drop (off + len)))

/-- A step on what lies behind the first `off` bytes of the buffer. -/
def behind (off : Nat) (step : InPlace α) : InPlace α := ExceptT.mk fun buf =>
  let (answer, rest) := step.on (buf.drop off)
  (answer, buf.take off ++ rest)

/-- The `len` bytes from `start` on copied to `dest`, as they were before the first of them is
overwritten. The two ranges may overlap; both have to lie in the buffer. -/
def copyWithin (start len dest : Nat) : InPlace Unit := edit fun buf =>
  if start + len ≤ buf.length ∧ dest + len ≤ buf.length then
    .ok (buf.overlay dest (buf.slice start len))
  else fault .outOfRange

/-- The first `len` bytes, which have to be there, set to zero. -/
def clear (len : Nat) : InPlace Unit := edit fun buf =>
  if len ≤ buf.length then .ok (buf.overlay 0 (Bytes.zeros len)) else fault .outOfRange

/-- The answer of a step together with the buffer it leaves. Of a step that fails only the failure is
kept. -/
def outcome (step : InPlace α) (buf : Bytes) : Result (α × Bytes) :=
  match step.on buf with
  | (.ok answer, out) => .ok (answer, out)
  | (.error failure, _) => .error failure

/-! ## §2 What steps leave -/

@[simp] theorem on_pure (a : α) (buf : Bytes) : (pure a : InPlace α).on buf = (.ok a, buf) := rfl

/-- Two steps, one after the other. The second is made only where the first did not fail. -/
theorem on_bind (first : InPlace α) (later : α → InPlace β) (buf : Bytes) :
    (first >>= later).on buf =
      match first.on buf with
      | (.ok a, mid) => (later a).on mid
      | (.error failure, mid) => (.error failure, mid) := by
  simp only [on, bind, ExceptT.bind, ExceptT.mk, ExceptT.run, StateT.bind, ExceptT.bindCont]
  cases (first : StateM Bytes (Except Failure α)) buf with
  | mk answer mid => cases answer <;> rfl

/-- A look at the buffer leaves it alone, whether it fails or not. -/
@[simp] theorem on_check (look : Bytes → Result α) (buf : Bytes) :
    (check look).on buf = (look buf, buf) := rfl

end InPlace

end BootImage
