import BootImage.Output

/-!
# Devices

A device is a state machine that takes bytes a few at a time. It is an output in that a piece is
offered to it again and again, less what it took, until nothing is left or it fails.

- `Device.putAll`: offers a piece until all of it is taken.
- `putAll_nil`, `putAll_cons`: it stops at once without bytes, and otherwise makes one offer and
  goes on with what is left.
- `Device.output`: the device as an output.
-/

namespace BootImage

/-- A device with states `σ`. -/
structure Device (σ : Type) where
  /-- Offers bytes at the position; the answer is how many of them were taken. -/
  write : σ → Bytes → Except OutputFailure Nat × σ
  /-- Moves to a position. -/
  seek : σ → Nat → Except OutputFailure Unit × σ
  /-- Passes everything taken on. -/
  flush : σ → Except OutputFailure Unit × σ
  /-- Brings everything taken to stable storage. -/
  sync : σ → Except OutputFailure Unit × σ

namespace Device

variable {σ : Type}

/-- Offers bytes until all are taken. A device that takes none of the bytes offered has failed, and
one cannot take more than it was offered. -/
def putAll (device : Device σ) (state : σ) (bytes : Bytes) : Except OutputFailure Unit × σ :=
  match bytes with
  | [] => (.ok (), state)
  | b :: rest =>
    match device.write state (b :: rest) with
    | (.error failure, state) => (.error failure, state)
    -- To offer the same bytes again would not come to an end.
    | (.ok 0, state) => (.error (.reported .wroteNothing), state)
    | (.ok (taken + 1), state) =>
      -- It took no more than it was offered, so there are as many bytes to drop.
      if taken ≤ rest.length then putAll device state (rest.drop taken)
      else (.error (.fault .outOfRange), state)
termination_by bytes.length
decreasing_by
  simp only [List.length_drop, List.length_cons]
  omega

@[simp] theorem putAll_nil (device : Device σ) (state : σ) :
    device.putAll state [] = (.ok (), state) := by
  rw [putAll]

/-- A piece is offered to the device, and what it did not take is offered again. -/
theorem putAll_cons (device : Device σ) (state : σ) (b : UInt8) (rest : Bytes) :
    device.putAll state (b :: rest) =
      match device.write state (b :: rest) with
      | (.error failure, state) => (.error failure, state)
      | (.ok 0, state) => (.error (.reported .wroteNothing), state)
      | (.ok (taken + 1), state) =>
        if taken ≤ rest.length then device.putAll state (rest.drop taken)
        else (.error (.fault .outOfRange), state) := by
  rw [putAll]

/-- The device as an output. -/
def output (device : Device σ) : Output σ where
  put := device.putAll
  seek := device.seek
  flush := device.flush
  sync := device.sync

end Device

end BootImage
