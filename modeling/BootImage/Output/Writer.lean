import BootImage.Output
import BootImage.Size

/-!
# Writing an image

A writer puts an image into an output, piece by piece, and names the output in its errors. A failed
step leaves the count of bytes written as it was.
-/

namespace BootImage

/-- A writer, with the state of its output. -/
structure Writer (σ : Type) where
  /-- The state of the output. -/
  state : σ
  /-- The name of the output. -/
  name : String
  /-- Whether finishing waits for stable storage. -/
  sync : Bool
  /-- The number of bytes written, or the end of the furthest piece put at an offset. -/
  written : Nat := 0
  deriving Repr

namespace Writer

variable {σ : Type}

/-- A failure of the output, under the name it goes by. -/
def named (name action : String) : OutputFailure → Failure
  | .reported cause => .refused (.host action ⟨name⟩ cause)
  | .fault cause => .fault cause

/-- The writer with bytes at its position. -/
def write (out : Output σ) (w : Writer σ) (bytes : Bytes) : Result Unit × Writer σ :=
  match out.put w.state bytes with
  | (.error failure, state) => (.error (named w.name "write to" failure), { w with state := state })
  | (.ok (), state) =>
    -- Only a piece that was put as a whole is counted.
    match Size.add w.written bytes.length with
    | .error failure => (.error failure, { w with state := state })
    | .ok written => (.ok (), { w with state := state, written := written })

/-- The writer with bytes at an offset from the start. -/
def writeAt (out : Output σ) (w : Writer σ) (bytes : Bytes) (offset : Nat) :
    Result Unit × Writer σ :=
  match out.seek w.state offset with
  | (.error failure, state) => (.error (named w.name "seek in" failure), { w with state := state })
  | (.ok (), state) =>
    match out.put state bytes with
    | (.error failure, state) =>
      (.error (named w.name "write to" failure), { w with state := state })
    | (.ok (), state) =>
      match Size.add offset bytes.length with
      | .error failure => (.error failure, { w with state := state })
      -- A piece inside of what was written adds nothing to the count.
      | .ok finish => (.ok (), { w with state := state, written := max w.written finish })

/-- Flushes the output, and brings it to stable storage if that is asked for. -/
def finish (out : Output σ) (w : Writer σ) : Result Unit × σ :=
  match out.flush w.state with
  | (.error failure, state) => (.error (named w.name "flush" failure), state)
  | (.ok (), state) =>
    -- Everything is passed on before it is brought to stable storage.
    if w.sync then
      match out.sync state with
      | (.error failure, state) => (.error (named w.name "sync" failure), state)
      | (.ok (), state) => (.ok (), state)
    else (.ok (), state)

end Writer

end BootImage
