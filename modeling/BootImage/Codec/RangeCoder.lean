import BootImage.Bytes

/-!
# Range coding

A sequence of binary decisions becomes a byte string, and is read back from it by someone who can
name the next decision in the same way. Each decision is either even, or made with the adaptive
probability of a slot, which moves towards the outcomes seen there.

- `Encoder.steps`, `Encoder.finish`: the bytes of a sequence of decisions.
- `Decoder.start?`, `Decoder.modelled?`, `Decoder.even?`: the outcomes, one at a time.
-/

namespace BootImage.Codec.RangeCoder

/-! ## §1 Probabilities -/

/-- The number of bits of a probability. -/
def precision : Nat := 11

/-- The probability of what is certain. -/
def certainty : Nat := 1 <<< precision

/-- How fast a probability adapts: by a part of `2 ^ 5` of what is left. -/
def adaption : Nat := 5

/-- The probabilities of zero in all slots, in units of `2 ^ -11`. -/
abbrev Model := Array Nat

/-- The model of `slots` slots in which nothing is known. -/
def Model.even (slots : Nat) : Model := Array.replicate slots (certainty / 2)

/-- The probability of zero after an outcome. -/
def adapt (probability : Nat) (bit : Bool) : Nat :=
  if bit then probability - probability >>> adaption
  else probability + (certainty - probability) >>> adaption

/-- A binary decision. -/
inductive Decision where
  /-- With the probability of a slot. -/
  | modelled (slot : Nat) (bit : Bool)
  /-- With equal chances. -/
  | even (bit : Bool)
  deriving DecidableEq, Repr

/-- One more than the greatest width of the coded interval. -/
def rangeBound : Nat := 0x100000000

/-- The width below which the interval is scaled up by a byte. -/
def rangeFloor : Nat := 0x1000000

/-! ## §2 Encoding -/

/-- The state of an encoder: an interval, and bytes that are not final yet because a carry may still
reach them. -/
structure Encoder where
  /-- The model. -/
  model : Model
  /-- The low end of the interval. -/
  low : Nat := 0
  /-- The width of the interval. -/
  range : Nat := rangeBound - 1
  /-- The first byte that is not final. -/
  cache : Nat := 0
  /-- The number of bytes that are not final; all but the first are `0xff`. -/
  pending : Nat := 1
  /-- The final bytes, last one first. -/
  out : Bytes := []

namespace Encoder

/-- The encoder with the top byte of the low end moved out. -/
def shiftLow (e : Encoder) : Encoder :=
  let low := e.low % rangeFloor * 256
  -- Below this a later carry cannot get so far; above the bound it has come.
  if e.low < 0xFF000000 || rangeBound ≤ e.low then
    let carry := e.low / rangeBound
    let first := UInt8.ofNat (e.cache + carry)
    let others := List.replicate (e.pending - 1) (UInt8.ofNat (0xFF + carry))
    { e with
      low := low
      cache := e.low / rangeFloor % 256
      pending := 1
      out := others ++ first :: e.out }
  -- The top byte is `0xff`, so a carry would go through it.
  else { e with low := low, pending := e.pending + 1 }

/-- The encoder with its interval scaled up if it has become too narrow. -/
def normalize (e : Encoder) : Encoder :=
  if e.range < rangeFloor then { e with range := e.range * 256 }.shiftLow else e

/-- The encoder after a decision. -/
def step (e : Encoder) : Decision → Encoder
  | .modelled slot bit =>
    let probability := e.model.getD slot 0
    let bound := e.range >>> precision * probability
    let model := e.model.setIfInBounds slot (adapt probability bit)
    -- Zero has the lower part of the interval, and one has the rest.
    if bit then
      { e with model := model, low := e.low + bound, range := e.range - bound }.normalize
    else { e with model := model, range := bound }.normalize
  | .even bit =>
    let half := e.range >>> 1
    if bit then { e with low := e.low + half, range := half }.normalize
    else { e with range := half }.normalize

/-- The bytes of an encoder that is given no further decision. -/
def finish (e : Encoder) : Bytes := (Nat.repeat shiftLow 5 e).out.reverse

/-- The encoder after a sequence of decisions. -/
def steps (e : Encoder) (decisions : List Decision) : Encoder := decisions.foldl step e

end Encoder

/-! ## §3 Decoding -/

/-- The state of a decoder: the interval, the position of the coded number in it, and the bytes that
are still to be read. -/
structure Decoder where
  /-- The model. -/
  model : Model
  /-- The width of the interval. -/
  range : Nat
  /-- The coded number, relative to the low end of the interval. -/
  code : Nat
  /-- The bytes to be read. -/
  rest : Bytes

namespace Decoder

/-- The decoder at the start of a byte string. -/
def start? (model : Model) : Bytes → Option Decoder
  | 0 :: a :: b :: c :: d :: rest =>
    some ⟨model, rangeBound - 1, ((a.toNat * 256 + b.toNat) * 256 + c.toNat) * 256 + d.toNat, rest⟩
  | _ => none

/-- The decoder with its interval scaled up if it has become too narrow. -/
def normalize? (d : Decoder) : Option Decoder :=
  if d.range < rangeFloor then
    match d.rest with
    | [] => none
    | b :: rest =>
      some { d with range := d.range * 256, code := d.code * 256 + b.toNat, rest := rest }
  else some d

/-- The outcome of a decision with the probability of a slot. -/
def modelled? (d : Decoder) (slot : Nat) : Option (Bool × Decoder) := do
  let probability := d.model.getD slot 0
  let bound := d.range >>> precision * probability
  -- The number lies in the part of zero, or else behind it.
  if d.code < bound then
    let model := d.model.setIfInBounds slot (adapt probability false)
    let next ← { d with model := model, range := bound }.normalize?
    some (false, next)
  else
    let model := d.model.setIfInBounds slot (adapt probability true)
    let narrowed := { d with model := model, range := d.range - bound, code := d.code - bound }
    let next ← narrowed.normalize?
    some (true, next)

/-- The outcome of an even decision. -/
def even? (d : Decoder) : Option (Bool × Decoder) := do
  let half := d.range >>> 1
  if d.code < half then
    let next ← { d with range := half }.normalize?
    some (false, next)
  else
    let next ← { d with range := half, code := d.code - half }.normalize?
    some (true, next)

/-- The decoder behind the given decisions, if they are the next ones. -/
def expect? (d : Decoder) (decisions : List Decision) : Option Decoder :=
  decisions.foldlM (fun d decision => do
    let (bit, next) ← match decision with
      | .modelled slot _ => d.modelled? slot
      | .even _ => d.even?
    let expected := match decision with
      | .modelled _ bit => bit
      | .even bit => bit
    -- Any other outcome means that the stream is another one.
    if bit = expected then some next else none) d

end Decoder

end BootImage.Codec.RangeCoder
