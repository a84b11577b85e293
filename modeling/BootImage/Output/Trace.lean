import BootImage.Output.Device

/-!
# Traces of a device

Everything that was asked of a device, in order, with its answers. A device that keeps its trace
answers like the one it is made from.

- `DeviceCall.failure?`: why a call failed.
- `Trace.accepted`: the bytes that were taken.
- `Device.traced`: the device with its trace.
-/

namespace BootImage

/-- A request to a device, with its answer. -/
inductive DeviceCall where
  /-- Bytes were offered; the answer is how many were taken. -/
  | write (offered : Bytes) (answer : Except OutputFailure Nat)
  /-- To move to a position. -/
  | seek (position : Nat) (answer : Except OutputFailure Unit)
  /-- To flush. -/
  | flush (answer : Except OutputFailure Unit)
  /-- To bring everything to stable storage. -/
  | sync (answer : Except OutputFailure Unit)
  deriving Repr

/-- What was asked of a device, in order. -/
abbrev Trace := List DeviceCall

/-- The bytes that a call made the device take. -/
def DeviceCall.accepted : DeviceCall → Bytes
  | write offered (.ok taken) => offered.take taken
  | _ => []

/-- Why a call failed. A device that takes none of the bytes offered has failed too, and so has one
that claims to have taken more. -/
def DeviceCall.failure? : DeviceCall → Option OutputFailure
  | write _ (.error failure) => some failure
  | write _ (.ok 0) => some (.reported .wroteNothing)
  | write offered (.ok taken) => if taken ≤ offered.length then none else some (.fault .outOfRange)
  | seek _ (.error failure) => some failure
  | flush (.error failure) => some failure
  | sync (.error failure) => some failure
  | _ => none

/-- What a call is for, as messages say it. -/
def DeviceCall.action : DeviceCall → String
  | write _ _ => "write to"
  | seek _ _ => "seek in"
  | flush _ => "flush"
  | sync _ => "sync"

/-- All bytes that were taken, in order. -/
def Trace.accepted (trace : Trace) : Bytes := trace.flatMap DeviceCall.accepted

/-- The device with its trace. -/
def Device.traced {σ : Type} (device : Device σ) : Device (σ × Trace) where
  write state bytes :=
    let (answer, next) := device.write state.1 bytes
    (answer, next, state.2 ++ [.write bytes answer])
  seek state position :=
    let (answer, next) := device.seek state.1 position
    (answer, next, state.2 ++ [.seek position answer])
  flush state :=
    let (answer, next) := device.flush state.1
    (answer, next, state.2 ++ [.flush answer])
  sync state :=
    let (answer, next) := device.sync state.1
    (answer, next, state.2 ++ [.sync answer])

/-- A write is noted together with its answer. -/
theorem Device.traced_write {σ : Type} {device : Device σ} {state next : σ} {trace : Trace}
    {bytes : Bytes} {answer : Except OutputFailure Nat} (h : device.write state bytes = (answer, next)) :
    device.traced.write (state, trace) bytes = (answer, next, trace ++ [.write bytes answer]) := by
  simp only [traced, h]

end BootImage
