import BootImage.Codec.RangeCoder
import BootImage.Proofs.Slices
import Mathlib.Tactic.Ring

/-!
# Reading range-coded decisions back

An encoder narrows an interval with each decision, and the bytes that it gives in the end are the low end
of the last one. All earlier intervals hold this number, so a decoder that goes through the same intervals
finds it, at each decision, in the part that stands for the outcome.

Bytes leave the encoder before they are final only as far as a carry cannot reach them. The number of the
bytes that have left and of those that wait, `Encoder.point`, does not depend on when they leave, and is
what an interval starts at.

- `Model.Unsure`: probabilities that are never close to zero or to certainty.
- `Encoder.point`, `Encoder.Holds`: the low end of an interval, and the invariant of an encoder.
- `Encoder.front_finish`: the number that the bytes stand for.
- `Encoder.Meets`, `Decoder.Follows`: an interval that holds a stream, and a decoder that has come to it.
- `Decoder.Faces.read?`, `Decoder.Faces.expect?`: one decision, and a sequence of them.
- `Encoder.range_steps`: every decision costs some of the interval.
-/

namespace BootImage.Codec.RangeCoder

open ByteOrder (limit ofLittleBytes)

/-! ## §1 Probabilities -/

/-- A probability that is neither close to zero nor to certainty. -/
def Unsure (probability : Nat) : Prop := 31 ≤ probability ∧ probability + 31 ≤ certainty

/-- Probabilities adapt by rounded steps, which end before they come too close. -/
theorem Unsure.adapt {probability : Nat} (h : Unsure probability) (bit : Bool) :
    Unsure (adapt probability bit) := by
  obtain ⟨hlow, hhigh⟩ := h
  have hcertainty : certainty = 2048 := rfl
  have hfall : probability >>> adaption = probability / 32 := Nat.shiftRight_eq_div_pow ..
  have hrise : (certainty - probability) >>> adaption = (certainty - probability) / 32 :=
    Nat.shiftRight_eq_div_pow ..
  cases bit with
  | true =>
    rw [RangeCoder.adapt, if_pos rfl, hfall, Unsure]
    omega
  | false =>
    rw [RangeCoder.adapt, if_neg Bool.false_ne_true, hrise, Unsure]
    omega

/-- A model all of whose probabilities are unsure. -/
def Model.Unsure (model : Model) : Prop := ∀ slot < model.size, RangeCoder.Unsure (model.getD slot 0)

theorem Model.unsure_even (slots : Nat) : (Model.even slots).Unsure := by
  intro slot hslot
  rw [even, Array.size_replicate] at hslot
  rw [even, Array.getD_eq_getD_getElem?, Array.getElem?_replicate, if_pos hslot]
  exact ⟨by decide, by decide⟩

theorem Model.Unsure.set {model : Model} (h : model.Unsure) (slot : Nat) (bit : Bool) :
    Model.Unsure (model.setIfInBounds slot (RangeCoder.adapt (model.getD slot 0) bit)) := by
  intro other hother
  rw [Array.size_setIfInBounds] at hother
  rw [Array.getD_eq_getD_getElem?, Array.getElem?_setIfInBounds]
  -- Only the slot of the decision adapts.
  by_cases hsame : slot = other
  · subst hsame
    rw [if_pos rfl, if_pos hother]
    exact (h slot hother).adapt bit
  · rw [if_neg hsame, ← Array.getD_eq_getD_getElem?]
    exact h other hother

/-- The two parts of an interval: neither is small, and neither is almost everything. -/
theorem Unsure.split {probability range : Nat} (h : Unsure probability) (hrange : rangeFloor ≤ range) :
    0x10000 ≤ range >>> precision * probability ∧
      range >>> precision * probability + 0x10000 ≤ range ∧
      256 * (range >>> precision * probability) ≤ 253 * range ∧
      256 * (range - range >>> precision * probability) ≤ 253 * range := by
  obtain ⟨hlow, hhigh⟩ := h
  have hcertainty : certainty = 2048 := rfl
  have hfloor : rangeFloor = 0x1000000 := rfl
  have hunit : range >>> precision = range / 2048 := Nat.shiftRight_eq_div_pow ..
  -- The part of zero has as many units as the probability says, between 31 and 2017 of 2048.
  have hleast := Nat.mul_le_mul_left (range / 2048) hlow
  have hmost := Nat.mul_le_mul_left (range / 2048) (show probability ≤ 2017 by omega)
  rw [hunit]
  refine ⟨?_, ?_, ?_, ?_⟩ <;> omega

/-! ## §2 Intervals -/

namespace Encoder

/-- The number of bytes that have left an encoder or wait in it. -/
def size (e : Encoder) : Nat := e.out.length + e.pending

/-- The number of the bytes that wait, if no carry reaches them. -/
def held (e : Encoder) : Nat := (e.cache + 1) * limit (e.pending - 1) - 1

/-- The low end of the interval, counted from the first byte on. -/
def point (e : Encoder) : Nat :=
  rangeBound * (limit e.pending * ofLittleBytes e.out + e.held) + e.low

/-- A carry stays within the bytes that wait. -/
structure Contained (e : Encoder) : Prop where
  cache : e.cache < 256
  pending : 0 < e.pending
  low : e.low < 2 * rangeBound
  room : rangeBound * e.held + e.low < rangeBound * limit e.pending

/-- **The invariant of an encoder**: no carry out of the interval leaves the bytes that wait. -/
structure Holds (e : Encoder) (least : Nat) : Prop where
  model : e.model.Unsure
  cache : e.cache < 256
  pending : 0 < e.pending
  least_le : least ≤ e.range
  range : e.range < rangeBound
  low : e.low + e.range ≤ 2 * rangeBound
  room : rangeBound * e.held + e.low + e.range ≤ rangeBound * limit e.pending

variable {e : Encoder}

theorem Holds.contained {least : Nat} (h : e.Holds least) (hpos : 0 < least) : e.Contained := by
  have hleast := h.least_le
  have hlow := h.low
  have hroom := h.room
  exact ⟨h.cache, h.pending, by omega, by omega⟩

/-! ### Bytes that leave -/

theorem low_shiftLow (e : Encoder) : e.shiftLow.low = e.low % rangeFloor * 256 := by
  unfold shiftLow
  split <;> rfl

theorem range_shiftLow (e : Encoder) : e.shiftLow.range = e.range := by
  unfold shiftLow
  split <;> rfl

theorem model_shiftLow (e : Encoder) : e.shiftLow.model = e.model := by
  unfold shiftLow
  split <;> rfl

/-- The bytes that wait leave once a carry has come, or can no longer come. -/
theorem shiftLow_of_leave (h : e.low < 0xFF000000 ∨ rangeBound ≤ e.low) :
    e.shiftLow = { e with
      low := e.low % rangeFloor * 256
      cache := e.low / rangeFloor % 256
      pending := 1
      out := List.replicate (e.pending - 1) (UInt8.ofNat (0xFF + e.low / rangeBound)) ++
        UInt8.ofNat (e.cache + e.low / rangeBound) :: e.out } := by
  have hleave : (e.low < 0xFF000000 || rangeBound ≤ e.low) = true := by
    rw [Bool.or_eq_true, decide_eq_true_iff, decide_eq_true_iff]
    exact h
  rw [shiftLow, if_pos hleave]

/-- Otherwise the top byte is `0xff`, and has to wait as well. -/
theorem shiftLow_of_wait (h : ¬ (e.low < 0xFF000000 ∨ rangeBound ≤ e.low)) :
    e.shiftLow = { e with low := e.low % rangeFloor * 256, pending := e.pending + 1 } := by
  have hwait : ¬ (e.low < 0xFF000000 || rangeBound ≤ e.low) = true := by
    rw [Bool.or_eq_true, decide_eq_true_iff, decide_eq_true_iff]
    exact h
  rw [shiftLow, if_neg hwait]

theorem ofLittleBytes_replicate (n : Nat) :
    ofLittleBytes (List.replicate n 0xff) + 1 = limit n ∧ ofLittleBytes (List.replicate n 0) = 0 := by
  -- By induction on the number of bytes.
  induction n with
  | zero => exact ⟨rfl, rfl⟩
  | succ n ih =>
    have hff : (0xff : UInt8).toNat = 255 := rfl
    have hzero : (0 : UInt8).toNat = 0 := rfl
    rw [List.replicate_succ, List.replicate_succ, ofLittleBytes, ofLittleBytes, ByteOrder.limit_succ,
      hff, hzero]
    omega

/-- The bytes that wait leave with the carry added to them. -/
theorem Contained.ofLittleBytes_flush (h : e.Contained) :
    ofLittleBytes (List.replicate (e.pending - 1) (UInt8.ofNat (0xFF + e.low / rangeBound)) ++
        UInt8.ofNat (e.cache + e.low / rangeBound) :: e.out) =
      limit e.pending * ofLittleBytes e.out + e.held + e.low / rangeBound := by
  have hcache := h.cache
  have hlow := h.low
  have hroom := h.room
  obtain ⟨n, hn⟩ : ∃ n, e.pending = n + 1 := ⟨e.pending - 1, (Nat.sub_add_cancel h.pending).symm⟩
  have hbound : rangeBound = 0x100000000 := rfl
  obtain ⟨hff, hzero⟩ := ofLittleBytes_replicate n
  rw [held, hn, Nat.add_sub_cancel, ByteOrder.limit_succ, Nat.add_mul, Nat.one_mul] at hroom
  rw [ByteOrder.ofLittleBytes_append, List.length_replicate, ofLittleBytes, held, hn, Nat.add_sub_cancel,
    ByteOrder.limit_succ, UInt8.toNat_ofNat', Nat.mul_add, Nat.mul_left_comm, Nat.mul_assoc, Nat.add_mul,
    Nat.one_mul]
  rw [hbound] at hlow hroom ⊢
  -- With no carry the bytes behind the first stay as they are.
  rcases Nat.lt_or_ge e.low 0x100000000 with hnone | hcarry
  · have hzeroCarry : e.low / 0x100000000 = 0 := Nat.div_eq_of_lt hnone
    have hall : UInt8.ofNat (0xFF + 0) = 0xff := rfl
    rw [hzeroCarry, hall, Nat.add_zero, Nat.mod_eq_of_lt hcache, Nat.mul_comm (limit n) e.cache]
    omega
  · -- The carry turns the bytes behind the first into zeros, and there is room for it in the first.
    have hone : e.low / 0x100000000 = 1 := by omega
    have hall : UInt8.ofNat (0xFF + 1) = 0 := rfl
    have hfirst : e.cache + 1 < 256 := by
      refine Nat.lt_of_not_le fun hfull => ?_
      have hmul := Nat.mul_le_mul_right (limit n) hfull
      rw [Nat.add_mul, Nat.one_mul] at hmul
      omega
    rw [hone, hall, hzero, Nat.mod_eq_of_lt hfirst, Nat.mul_add, Nat.mul_one, Nat.mul_comm (limit n) e.cache]
    have hpos := ByteOrder.limit_pos n
    omega

/-- One byte more has left the encoder or waits in it. -/
theorem size_shiftLow (h : 0 < e.pending) : e.shiftLow.size = e.size + 1 := by
  -- Bytes that leave are still counted.
  by_cases hleave : e.low < 0xFF000000 ∨ rangeBound ≤ e.low
  · rw [shiftLow_of_leave hleave]
    simp only [size, List.length_append, List.length_replicate, List.length_cons]
    omega
  · rw [shiftLow_of_wait hleave]
    rfl

/-- The byte that has just become the only one to wait. -/
theorem held_of_leave (hleave : e.low < 0xFF000000 ∨ rangeBound ≤ e.low) :
    e.shiftLow.held = e.low / rangeFloor % 256 := by
  rw [shiftLow_of_leave hleave]
  show (e.low / rangeFloor % 256 + 1) * limit 0 - 1 = _
  rw [ByteOrder.limit_zero, Nat.mul_one, Nat.add_sub_cancel]

/-- One more byte that waits behind the others is `0xff`. -/
theorem held_of_wait (h : 0 < e.pending) (hwait : ¬ (e.low < 0xFF000000 ∨ rangeBound ≤ e.low)) :
    e.shiftLow.held = 256 * e.held + 255 := by
  obtain ⟨n, hn⟩ : ∃ n, e.pending = n + 1 := ⟨e.pending - 1, (Nat.sub_add_cancel h).symm⟩
  have hpos : 0 < (e.cache + 1) * limit n := Nat.mul_pos (Nat.succ_pos _) (ByteOrder.limit_pos n)
  rw [shiftLow_of_wait hwait]
  show (e.cache + 1) * limit e.pending - 1 = _
  rw [held, hn, Nat.add_sub_cancel, ByteOrder.limit_succ, Nat.mul_left_comm]
  omega

/-- **A byte moves on, and the number stays**: it is only counted in smaller units. -/
theorem Contained.point_shiftLow (h : e.Contained) : e.shiftLow.point = 256 * e.point := by
  have hlow := h.low
  have hbound : rangeBound = 0x100000000 := rfl
  have hfloor : rangeFloor = 0x1000000 := rfl
  rw [hbound] at hlow
  rw [point, point, low_shiftLow]
  by_cases hleave : e.low < 0xFF000000 ∨ rangeBound ≤ e.low
  · -- The top byte of the low end is the first of the bytes that wait now, and the only one.
    have hone : limit 1 = 256 := rfl
    rw [held_of_leave hleave, shiftLow_of_leave hleave]
    simp only
    rw [h.ofLittleBytes_flush, hone, hbound, hfloor]
    omega
  · -- One more byte waits, and the low end has lost its top byte to it.
    rw [held_of_wait h.pending hleave, shiftLow_of_wait hleave]
    simp only
    rw [ByteOrder.limit_succ, hbound, hfloor, Nat.mul_assoc]
    rw [hbound] at hleave
    omega

/-- What is left of an interval after a byte has moved on stays within the bytes that wait. -/
theorem Contained.room_shiftLow (h : e.Contained) (width : Nat)
    (hsmall : e.low < 0xFF000000 → e.low + width ≤ rangeBound) (hlow : e.low + width ≤ 2 * rangeBound)
    (hroom : rangeBound * e.held + e.low + width ≤ rangeBound * limit e.pending) :
    rangeBound * e.shiftLow.held + e.shiftLow.low + 256 * width ≤
      rangeBound * limit e.shiftLow.pending := by
  have hbound : rangeBound = 0x100000000 := rfl
  have hfloor : rangeFloor = 0x1000000 := rfl
  rw [hbound] at hsmall hlow hroom
  rw [low_shiftLow]
  -- If the bytes leave, the carry has been spent; if not, there was room for it already.
  by_cases hleave : e.low < 0xFF000000 ∨ rangeBound ≤ e.low
  · have hone : limit 1 = 256 := rfl
    rw [held_of_leave hleave, shiftLow_of_leave hleave]
    simp only
    rw [hone, hbound, hfloor]
    rw [hbound] at hleave
    omega
  · rw [held_of_wait h.pending hleave, shiftLow_of_wait hleave]
    simp only
    rw [ByteOrder.limit_succ, hbound, hfloor]
    rw [hbound] at hleave
    omega

theorem Contained.shiftLow (h : e.Contained) : e.shiftLow.Contained := by
  have hlow := h.low
  have hroom := h.room
  have hbound : rangeBound = 0x100000000 := rfl
  have hfloor : rangeFloor = 0x1000000 := rfl
  -- A range of one keeps the low end itself within the bytes that wait.
  have hkept := h.room_shiftLow 1 (fun _ => by omega) (by omega) (by omega)
  refine ⟨?_, ?_, ?_, by omega⟩
  · unfold Encoder.shiftLow
    split
    · exact Nat.mod_lt _ (by decide)
    · exact h.cache
  · unfold Encoder.shiftLow
    split
    · exact Nat.one_pos
    · exact Nat.succ_pos _
  · rw [low_shiftLow, hbound, hfloor]
    omega

/-! ### The end of a stream -/

/-- The number of the first bytes of a stream. -/
def front (stream : Bytes) (n : Nat) : Nat := ByteOrder.big.decode (stream.take n)

/-- With nothing left in front of the point, one more byte makes all others final. -/
theorem Contained.flush (h : e.Contained) (hlow : e.low = 0) :
    e.shiftLow.out.length = e.size ∧ rangeBound * ofLittleBytes e.shiftLow.out = e.point := by
  -- A low end of zero lets the bytes leave.
  have hleave : e.low < 0xFF000000 ∨ rangeBound ≤ e.low := .inl (by omega)
  have hpending := h.pending
  have hnumber := h.ofLittleBytes_flush
  rw [hlow, Nat.zero_div] at hnumber
  rw [shiftLow_of_leave hleave, point, hlow]
  refine ⟨?_, congrArg (rangeBound * ·) hnumber⟩
  simp only [List.length_append, List.length_replicate, List.length_cons, size]
  omega

/-- Bytes that move on change the unit of the point, and nothing else about it. -/
theorem Contained.repeat_shiftLow (h : e.Contained) (n : Nat) :
    (Nat.repeat Encoder.shiftLow n e).Contained ∧
      (Nat.repeat Encoder.shiftLow n e).size = e.size + n ∧
      (Nat.repeat Encoder.shiftLow n e).point = limit n * e.point := by
  -- By induction on the number of bytes; that no carry leaves the encoder makes each one of them safe.
  induction n with
  | zero =>
    rw [ByteOrder.limit_zero, Nat.one_mul]
    exact ⟨h, rfl, rfl⟩
  | succ n ih =>
    obtain ⟨hcontained, hsize, hpoint⟩ := ih
    rw [Nat.repeat]
    refine ⟨hcontained.shiftLow, ?_, ?_⟩
    · rw [size_shiftLow hcontained.pending, hsize, Nat.add_assoc]
    · rw [hcontained.point_shiftLow, hpoint, ByteOrder.limit_succ, Nat.mul_assoc]

/-- Four bytes take all of the low end with them. -/
theorem low_repeat_shiftLow (e : Encoder) : (Nat.repeat shiftLow 4 e).low = 0 := by
  have hfloor : rangeFloor = 0x1000000 := rfl
  simp only [Nat.repeat, low_shiftLow, hfloor]
  omega

/-- **The bytes of an encoder** are as many as have left it or wait in it, and the low end of its
interval. -/
theorem Contained.front_finish (h : e.Contained) :
    e.finish.length = e.size + 4 ∧ front e.finish (e.size + 4) = e.point := by
  obtain ⟨hcontained, hsize, hpoint⟩ := h.repeat_shiftLow 4
  obtain ⟨hlength, hnumber⟩ := hcontained.flush (low_repeat_shiftLow e)
  have hlen : e.finish.length = e.size + 4 := by
    rw [finish, Nat.repeat, List.length_reverse, hlength, hsize]
  have hunit : limit 4 = rangeBound := by decide
  refine ⟨hlen, ?_⟩
  -- Four bytes change the unit of the number, and the fifth one makes all of them final.
  rw [hpoint, hunit] at hnumber
  rw [front, ← hlen, List.take_length, finish, Nat.repeat, ByteOrder.decode, List.reverse_reverse]
  exact Nat.eq_of_mul_eq_mul_left (by decide) hnumber

end Encoder

/-! ## §3 Decisions -/

/-- The slots of a decision, of which there are some number. -/
def Decision.Known (slots : Nat) : Decision → Prop
  | .modelled slot _ => slot < slots
  | .even _ => True

/-- The outcome of a decision. -/
def Decision.outcome : Decision → Bool
  | .modelled _ bit => bit
  | .even bit => bit

namespace Encoder

/-- The width of the part of zero in the interval. -/
def zeroPart (e : Encoder) : Decision → Nat
  | .modelled slot _ => e.range >>> precision * e.model.getD slot 0
  | .even _ => e.range >>> 1

/-- The model after a decision. -/
def adapted (e : Encoder) : Decision → Model
  | .modelled slot bit => e.model.setIfInBounds slot (adapt (e.model.getD slot 0) bit)
  | .even _ => e.model

/-- The encoder after a decision, before its interval is scaled up. -/
def narrow (e : Encoder) (d : Decision) : Encoder :=
  if d.outcome then
    { e with
      model := e.adapted d
      low := e.low + e.zeroPart d
      range := match d with
        | .modelled _ _ => e.range - e.zeroPart d
        | .even _ => e.zeroPart d }
  else { e with model := e.adapted d, range := e.zeroPart d }

theorem step_eq (e : Encoder) (d : Decision) : e.step d = (e.narrow d).normalize := by
  cases d with
  | modelled slot bit => cases bit <;> rfl
  | even bit => cases bit <;> rfl

variable {e : Encoder} {d : Decision}

theorem model_narrow (e : Encoder) (d : Decision) : (e.narrow d).model = e.adapted d := by
  unfold narrow
  split <;> rfl

theorem low_narrow (e : Encoder) (d : Decision) :
    (e.narrow d).low = e.low + if d.outcome then e.zeroPart d else 0 := by
  unfold narrow
  split <;> rfl

/-- A zero leaves of the interval the part that stands for it. -/
theorem range_narrow_of_zero (h : d.outcome = false) : (e.narrow d).range = e.zeroPart d := by
  unfold narrow
  rw [h, if_neg Bool.false_ne_true]

/-- Only the interval and the model are changed by a decision. -/
theorem waiting_narrow (e : Encoder) (d : Decision) :
    (e.narrow d).out = e.out ∧ (e.narrow d).cache = e.cache ∧ (e.narrow d).pending = e.pending := by
  unfold narrow
  split <;> exact ⟨rfl, rfl, rfl⟩

theorem size_narrow (e : Encoder) (d : Decision) : (e.narrow d).size = e.size := by
  obtain ⟨hout, -, hpending⟩ := waiting_narrow e d
  rw [size, size, hout, hpending]

theorem held_narrow (e : Encoder) (d : Decision) : (e.narrow d).held = e.held := by
  obtain ⟨-, hcache, hpending⟩ := waiting_narrow e d
  rw [held, held, hcache, hpending]

theorem point_narrow (e : Encoder) (d : Decision) :
    (e.narrow d).point = e.point + if d.outcome then e.zeroPart d else 0 := by
  obtain ⟨hout, -, hpending⟩ := waiting_narrow e d
  rw [point, point, hout, hpending, held_narrow, low_narrow, Nat.add_assoc]

/-- **A decision takes a part of the interval** that is neither small nor almost all of it. -/
theorem Holds.range_narrow (h : e.Holds rangeFloor) (hknown : d.Known e.model.size) :
    0x10000 ≤ (e.narrow d).range ∧
      (if d.outcome then e.zeroPart d else 0) + (e.narrow d).range ≤ e.range ∧
      256 * (e.narrow d).range ≤ 253 * e.range := by
  have hleast := h.least_le
  have hfloor : rangeFloor = 0x1000000 := rfl
  cases d with
  | modelled slot bit =>
    have hpart : e.zeroPart (.modelled slot bit) = e.range >>> precision * e.model.getD slot 0 := rfl
    obtain ⟨hzero, hone, hzeroPart, honePart⟩ := (h.model slot hknown).split hleast
    rw [← hpart] at hzero hone hzeroPart honePart
    cases bit with
    | true =>
      -- The part of one is what the part of zero leaves.
      show 0x10000 ≤ e.range - e.zeroPart (.modelled slot true) ∧
        e.zeroPart (.modelled slot true) + (e.range - e.zeroPart (.modelled slot true)) ≤ e.range ∧
        256 * (e.range - e.zeroPart (.modelled slot true)) ≤ _
      exact ⟨by omega, by omega, honePart⟩
    | false =>
      show 0x10000 ≤ e.zeroPart (.modelled slot false) ∧ 0 + e.zeroPart (.modelled slot false) ≤ e.range ∧
        256 * e.zeroPart (.modelled slot false) ≤ _
      exact ⟨hzero, by omega, hzeroPart⟩
  | even bit =>
    -- Both halves are the same, rounded down.
    have hhalf : e.range >>> 1 = e.range / 2 := Nat.shiftRight_eq_div_pow ..
    cases bit with
    | true =>
      show 0x10000 ≤ e.range >>> 1 ∧ e.range >>> 1 + e.range >>> 1 ≤ e.range ∧ 256 * (e.range >>> 1) ≤ _
      rw [hhalf]
      omega
    | false =>
      show 0x10000 ≤ e.range >>> 1 ∧ 0 + e.range >>> 1 ≤ e.range ∧ 256 * (e.range >>> 1) ≤ _
      rw [hhalf]
      omega

/-- After a decision the interval may be too narrow for the next one, but is not empty. -/
theorem Holds.narrow (h : e.Holds rangeFloor) (hknown : d.Known e.model.size) :
    (e.narrow d).Holds 0x10000 := by
  obtain ⟨hleast, hwithin, -⟩ := h.range_narrow hknown
  obtain ⟨-, hcache, hpending⟩ := waiting_narrow e d
  have hlow := h.low
  have hrange := h.range
  have hroom := h.room
  -- No byte moves, so the bounds of the bytes that wait stay.
  refine ⟨?_, hcache ▸ h.cache, hpending ▸ h.pending, hleast, by omega, ?_, ?_⟩
  · rw [model_narrow]
    cases d with
    | modelled slot bit => exact h.model.set slot bit
    | even bit => exact h.model
  · rw [low_narrow]
    omega
  · rw [low_narrow, held_narrow, hpending]
    omega

/-- An interval that has become too narrow is scaled up, and a byte moves on. -/
theorem normalize_of_lt (h : e.range < rangeFloor) :
    e.normalize = ({ e with range := e.range * 256 } : Encoder).shiftLow := if_pos h

theorem normalize_of_le (h : rangeFloor ≤ e.range) : e.normalize = e := if_neg (Nat.not_lt.2 h)

theorem model_normalize (e : Encoder) : e.normalize.model = e.model := by
  unfold normalize
  split
  · exact model_shiftLow _
  · rfl

theorem range_normalize_of_lt (h : e.range < rangeFloor) : e.normalize.range = e.range * 256 := by
  rw [normalize_of_lt h, range_shiftLow]

theorem size_normalize_of_lt (h : e.range < rangeFloor) (hpending : 0 < e.pending) :
    e.normalize.size = e.size + 1 := by
  have hscaled : 0 < ({ e with range := e.range * 256 } : Encoder).pending := hpending
  rw [normalize_of_lt h, size_shiftLow hscaled]
  rfl

theorem Contained.scaled (h : e.Contained) (range : Nat) :
    ({ e with range := range } : Encoder).Contained :=
  ⟨h.cache, h.pending, h.low, h.room⟩

theorem Contained.point_normalize_of_lt (h : e.Contained) (hnarrow : e.range < rangeFloor) :
    e.normalize.point = 256 * e.point := by
  rw [normalize_of_lt hnarrow, (h.scaled _).point_shiftLow]
  rfl

/-- Scaling up restores the least width of an interval. -/
theorem Holds.normalize (h : e.Holds 0x10000) : e.normalize.Holds rangeFloor := by
  have hbound : rangeBound = 0x100000000 := rfl
  have hfloor : rangeFloor = 0x1000000 := rfl
  rcases Nat.lt_or_ge e.range rangeFloor with hnarrow | hwide
  · have hscaled := (h.contained (by decide)).scaled (e.range * 256)
    have hleast := h.least_le
    have hlow := h.low
    -- If no carry has come yet, none can come: the interval ends in front of the next one.
    have hkept := hscaled.room_shiftLow e.range (fun hsmall => ?_) hlow h.room
    · have hshift := hscaled.shiftLow
      rw [normalize_of_lt hnarrow]
      refine ⟨?_, hshift.cache, hshift.pending, ?_, ?_, ?_, ?_⟩
      · rw [model_shiftLow]
        exact h.model
      · rw [range_shiftLow]
        show rangeFloor ≤ e.range * 256
        omega
      · rw [range_shiftLow]
        show e.range * 256 < rangeBound
        omega
      · rw [range_shiftLow, low_shiftLow]
        show e.low % rangeFloor * 256 + e.range * 256 ≤ _
        rw [hfloor] at hnarrow ⊢
        omega
      · rw [range_shiftLow]
        show _ + e.range * 256 ≤ _
        omega
    · show e.low + e.range ≤ rangeBound
      have hlt : e.low < 0xFF000000 := hsmall
      omega
  · -- An interval that is wide enough is left alone.
    rw [normalize_of_le hwide]
    exact ⟨h.model, h.cache, h.pending, hwide, h.range, h.low, h.room⟩

/-- **The invariant is kept** by every decision about a known slot. -/
theorem Holds.step (h : e.Holds rangeFloor) (hknown : d.Known e.model.size) :
    (e.step d).Holds rangeFloor := by
  rw [step_eq]
  exact (h.narrow hknown).normalize

theorem size_model_step (e : Encoder) (d : Decision) : (e.step d).model.size = e.model.size := by
  -- Adapting a slot replaces its probability.
  have hadapted : (e.adapted d).size = e.model.size := by
    cases d with
    | modelled slot bit => exact Array.size_setIfInBounds
    | even bit => rfl
  rw [step_eq, model_normalize, model_narrow, hadapted]

/-! ## §4 Streams that an interval holds -/

/-- A stream that starts with a number in the interval. -/
structure Meets (e : Encoder) (stream : Bytes) : Prop where
  length : e.size + 4 ≤ stream.length
  low : e.point ≤ front stream (e.size + 4)
  high : front stream (e.size + 4) < e.point + e.range

variable {stream : Bytes}

/-- One more byte of a stream refines its number. -/
theorem front_succ {n : Nat} {byte : UInt8} (h : stream[n]? = some byte) :
    front stream (n + 1) = 256 * front stream n + byte.toNat := by
  rw [front, front, List.take_add_one, h, ByteOrder.decode, ByteOrder.decode, Option.toList_some,
    List.reverse_append, List.reverse_singleton, List.singleton_append, ofLittleBytes, Nat.add_comm]

/-- The interval of an encoder holds what the encoder gives. -/
theorem Holds.meets_finish {least : Nat} (h : e.Holds least) (hpos : 0 < least) :
    e.Meets e.finish := by
  obtain ⟨hlength, hfront⟩ := (h.contained hpos).front_finish
  have hleast := h.least_le
  exact ⟨Nat.le_of_eq hlength.symm, Nat.le_of_eq hfront.symm, by omega⟩

/-- The interval from which another one is taken holds all that the other one holds. -/
theorem Holds.meets_of_narrow (h : e.Holds rangeFloor) (hknown : d.Known e.model.size)
    (hmeets : (e.narrow d).Meets stream) : e.Meets stream := by
  obtain ⟨-, hwithin, -⟩ := h.range_narrow hknown
  have hlength := hmeets.length
  have hlow := hmeets.low
  have hhigh := hmeets.high
  rw [size_narrow] at hlength hlow hhigh
  rw [point_narrow] at hlow hhigh
  exact ⟨hlength, by omega, by omega⟩

/-- The same for an interval that is scaled up: one more byte of the stream belongs to it. -/
theorem Holds.meets_of_normalize {least : Nat} (h : e.Holds least) (hpos : 0 < least)
    (hmeets : e.normalize.Meets stream) : e.Meets stream := by
  rcases Nat.lt_or_ge e.range rangeFloor with hnarrow | hwide
  · have hcontained := h.contained hpos
    obtain ⟨hlength, hlow, hhigh⟩ := hmeets
    rw [size_normalize_of_lt hnarrow h.pending] at hlength hlow hhigh
    rw [hcontained.point_normalize_of_lt hnarrow] at hlow hhigh
    rw [range_normalize_of_lt hnarrow] at hhigh
    have hinside : e.size + 4 < stream.length := by omega
    -- The number with the byte is in the scaled interval, so the number without it is in this one.
    have hfront := front_succ (List.getElem?_eq_getElem hinside)
    have hlt := stream[e.size + 4].toNat_lt
    rw [Nat.add_right_comm e.size 1 4, hfront] at hlow hhigh
    exact ⟨by omega, by omega, by omega⟩
  · rwa [normalize_of_le hwide] at hmeets

/-- So an interval holds what a later one holds. -/
theorem Holds.meets_of_step (h : e.Holds rangeFloor) (hknown : d.Known e.model.size)
    (hmeets : (e.step d).Meets stream) : e.Meets stream := by
  rw [step_eq] at hmeets
  exact h.meets_of_narrow hknown ((h.narrow hknown).meets_of_normalize (by decide) hmeets)

end Encoder

/-! ## §5 Decoders -/

/-- A decoder at an interval: it has read as much of the stream, and knows where in the interval the
number is. -/
structure Decoder.Follows (decoder : Decoder) (e : Encoder) (stream : Bytes) : Prop where
  model : decoder.model = e.model
  range : decoder.range = e.range
  rest : decoder.rest = stream.drop (e.size + 4)
  code : e.point + decoder.code = Encoder.front stream (e.size + 4)

namespace Decoder

variable {decoder : Decoder} {e : Encoder} {stream : Bytes} {d : Decision}

/-- A decoder scales its interval up with the encoder, and finds the byte that it needs. -/
theorem Follows.normalize? {least : Nat} (h : decoder.Follows e stream) (hholds : e.Holds least)
    (hpos : 0 < least) (hmeets : e.normalize.Meets stream) :
    ∃ next, decoder.normalize? = some next ∧ next.Follows e.normalize stream := by
  rcases Nat.lt_or_ge e.range rangeFloor with hnarrow | hwide
  · have hsize := Encoder.size_normalize_of_lt hnarrow hholds.pending
    have hpoint := (hholds.contained hpos).point_normalize_of_lt hnarrow
    have hlength := hmeets.length
    rw [hsize] at hlength
    have hlt : e.size + 4 < stream.length := by omega
    -- The stream is long enough for the interval after scaling, so there is a byte to read.
    have hrest : decoder.rest = stream[e.size + 4] :: stream.drop (e.size + 5) := by
      rw [h.rest, List.drop_eq_getElem_cons hlt]
    have hfront := Encoder.front_succ (List.getElem?_eq_getElem hlt)
    have hcode := h.code
    rw [Decoder.normalize?, h.range, if_pos hnarrow, hrest]
    refine ⟨_, rfl, ?_, ?_, ?_, ?_⟩
    · rw [Encoder.model_normalize]
      exact h.model
    · exact (Encoder.range_normalize_of_lt hnarrow).symm
    · rw [hsize]
    · rw [hsize, hpoint, Nat.add_right_comm e.size 1 4, hfront]
      show 256 * e.point + (decoder.code * 256 + _) = _
      omega
  · -- Neither of them moves.
    rw [Decoder.normalize?, h.range, if_neg (Nat.not_lt.2 hwide), Encoder.normalize_of_le hwide]
    exact ⟨_, rfl, h⟩

/-- The outcome of a decision that is known but for its outcome. -/
def read? (decoder : Decoder) : Decision → Option (Bool × Decoder)
  | .modelled slot _ => decoder.modelled? slot
  | .even _ => decoder.even?

/-- The decoder after a decision, before its interval is scaled up. -/
def narrow (decoder : Decoder) (e : Encoder) (d : Decision) : Decoder where
  model := (e.narrow d).model
  range := (e.narrow d).range
  code := decoder.code - if d.outcome then e.zeroPart d else 0
  rest := decoder.rest

/-- **The part of the interval shows the outcome**: the number is in the part of zero, or behind it. -/
theorem Follows.code_lt_zeroPart_iff (h : decoder.Follows e stream) (hmeets : (e.narrow d).Meets stream) :
    decoder.code < e.zeroPart d ↔ d.outcome = false := by
  have hcode := h.code
  have hlow := hmeets.low
  have hhigh := hmeets.high
  rw [Encoder.size_narrow, Encoder.point_narrow] at hlow hhigh
  cases hbit : d.outcome with
  | true =>
    rw [hbit, if_pos rfl] at hlow
    exact iff_of_false (by omega) Bool.noConfusion
  | false =>
    rw [hbit, if_neg Bool.false_ne_true, Encoder.range_narrow_of_zero hbit] at hhigh
    exact iff_of_true (by omega) rfl

/-- So the decoder finds the outcome, and goes on with its part of the interval. -/
theorem Follows.read?_eq (h : decoder.Follows e stream) (hmeets : (e.narrow d).Meets stream) :
    decoder.read? d = (decoder.narrow e d).normalize?.map fun next => (d.outcome, next) := by
  have houtcome := h.code_lt_zeroPart_iff hmeets
  have hbind (next? : Option Decoder) (bit : Bool) :
      (next? >>= fun next => some (bit, next)) = next?.map fun next => (bit, next) := by
    cases next? <;> rfl
  -- The two kinds of decisions differ in the part of zero and in what becomes of the model.
  cases d with
  | modelled slot bit =>
    have hpart : e.range >>> precision * e.model.getD slot 0 = e.zeroPart (.modelled slot bit) := rfl
    rw [read?, modelled?, h.range, h.model, hpart]
    dsimp only
    cases bit with
    | true =>
      rw [if_neg (houtcome.not.2 Bool.noConfusion), hbind]
      rfl
    | false =>
      rw [if_pos (houtcome.2 rfl), hbind]
      rfl
  | even bit =>
    have hpart : e.range >>> 1 = e.zeroPart (.even bit) := rfl
    have hmodel : (e.narrow (.even bit)).model = decoder.model := by
      rw [Encoder.model_narrow, h.model]
      rfl
    rw [read?, even?, h.range, hpart, narrow, hmodel]
    cases bit with
    | true =>
      rw [if_neg (houtcome.not.2 Bool.noConfusion), hbind]
      rfl
    | false =>
      rw [if_pos (houtcome.2 rfl), hbind]
      rfl

/-- A decoder that has read an outcome is where the encoder is. -/
theorem Follows.narrow (h : decoder.Follows e stream) (hmeets : (e.narrow d).Meets stream) :
    (decoder.narrow e d).Follows (e.narrow d) stream := by
  have hcode := h.code
  have hlow := hmeets.low
  rw [Encoder.size_narrow, Encoder.point_narrow] at hlow
  refine ⟨rfl, rfl, ?_, ?_⟩
  · rw [Encoder.size_narrow]
    exact h.rest
  · rw [Encoder.size_narrow, Encoder.point_narrow]
    show _ + (decoder.code - _) = _
    omega

/-- **One decision is read back**, if the stream is held by the interval after it. -/
theorem Follows.read? (h : decoder.Follows e stream) (hholds : e.Holds rangeFloor)
    (hknown : d.Known e.model.size) (hmeets : (e.step d).Meets stream) :
    ∃ next, decoder.read? d = some (d.outcome, next) ∧ next.Follows (e.step d) stream := by
  rw [Encoder.step_eq] at hmeets ⊢
  have hnarrow := hholds.narrow hknown
  -- The decoder compares before it scales, so the narrow interval has to hold the stream.
  have hpart := hnarrow.meets_of_normalize (by decide) hmeets
  obtain ⟨next, hnext, hfollows⟩ := (h.narrow hpart).normalize? hnarrow (by decide) hmeets
  rw [h.read?_eq hpart, hnext]
  exact ⟨next, rfl, hfollows⟩

end Decoder

/-! ## §6 Sequences of decisions -/

namespace Encoder

variable {e : Encoder} {decisions : List Decision} {stream : Bytes}

theorem steps_cons (e : Encoder) (d : Decision) (decisions : List Decision) :
    e.steps (d :: decisions) = (e.step d).steps decisions := rfl

theorem steps_append (e : Encoder) (first later : List Decision) :
    e.steps (first ++ later) = (e.steps first).steps later := List.foldl_append

/-- **The invariant holds along every sequence** of decisions about known slots. -/
theorem Holds.steps (h : e.Holds rangeFloor) (hknown : ∀ d ∈ decisions, d.Known e.model.size) :
    (e.steps decisions).Holds rangeFloor := by
  -- By induction on the decisions, with the invariant of the encoder after each of them.
  induction decisions generalizing e with
  | nil => exact h
  | cons d decisions ih =>
    rw [List.forall_mem_cons] at hknown
    refine ih (h.step hknown.1) ?_
    rw [size_model_step]
    exact hknown.2

/-- What the last interval holds is held by all of them. -/
theorem Holds.meets_of_steps (h : e.Holds rangeFloor) (hknown : ∀ d ∈ decisions, d.Known e.model.size)
    (hmeets : (e.steps decisions).Meets stream) : e.Meets stream := by
  -- By induction on the decisions, from the last interval back to the first.
  induction decisions generalizing e with
  | nil => exact hmeets
  | cons d decisions ih =>
    rw [List.forall_mem_cons] at hknown
    refine h.meets_of_step hknown.1 (ih (h.step hknown.1) ?_ hmeets)
    rw [size_model_step]
    exact hknown.2

/-- Every decision costs at least three parts in 256 of the interval. -/
theorem Holds.range_step {d : Decision} (h : e.Holds rangeFloor) (hknown : d.Known e.model.size) :
    256 * (e.step d).range * limit e.size ≤ 253 * (e.range * limit (e.step d).size) := by
  obtain ⟨-, -, hrange⟩ := h.range_narrow hknown
  have hpending := (h.narrow hknown).pending
  rw [step_eq]
  rcases Nat.lt_or_ge (e.narrow d).range rangeFloor with hnarrow | hwide
  · -- Scaling up multiplies the width and the unit alike.
    rw [range_normalize_of_lt hnarrow, size_normalize_of_lt hnarrow hpending, size_narrow,
      ByteOrder.limit_succ]
    have hmul := Nat.mul_le_mul_right (256 * limit e.size) hrange
    calc 256 * ((e.narrow d).range * 256) * limit e.size
        = 256 * (e.narrow d).range * (256 * limit e.size) := by
          rw [← Nat.mul_assoc 256 (e.narrow d).range 256, Nat.mul_assoc _ 256]
      _ ≤ 253 * e.range * (256 * limit e.size) := hmul
      _ = 253 * (e.range * (256 * limit e.size)) := Nat.mul_assoc ..
  · rw [normalize_of_le hwide, size_narrow, ← Nat.mul_assoc]
    exact Nat.mul_le_mul_right _ hrange

/-- **Decisions cost bytes**: what is left of the interval after many of them is small, counted in the
units of its start. -/
theorem Holds.range_steps (h : e.Holds rangeFloor) (hknown : ∀ d ∈ decisions, d.Known e.model.size) :
    256 ^ decisions.length * (e.steps decisions).range * limit e.size ≤
      253 ^ decisions.length * (e.range * limit (e.steps decisions).size) := by
  -- By induction on the decisions: the factors of the first and of the others are multiplied.
  induction decisions generalizing e with
  | nil =>
    show 256 ^ 0 * e.range * limit e.size ≤ 253 ^ 0 * (e.range * limit e.size)
    rw [pow_zero, pow_zero, Nat.one_mul, Nat.one_mul]
  | cons d decisions ih =>
    rw [List.forall_mem_cons] at hknown
    have hstep := h.range_step hknown.1
    have hrest := ih (h.step hknown.1) (by
      rw [size_model_step]
      exact hknown.2)
    rw [steps_cons, List.length_cons, pow_succ, pow_succ]
    -- The bytes that have left after the first decision are in both bounds.
    refine Nat.le_of_mul_le_mul_right ?_ (ByteOrder.limit_pos (e.step d).size)
    generalize ((e.step d).steps decisions).range = range at hrest ⊢
    generalize limit ((e.step d).steps decisions).size = units at hrest ⊢
    calc 256 ^ decisions.length * 256 * range * limit e.size * limit (e.step d).size
        = 256 ^ decisions.length * range * limit (e.step d).size * (256 * limit e.size) := by ring
      _ ≤ 253 ^ decisions.length * ((e.step d).range * units) * (256 * limit e.size) :=
          Nat.mul_le_mul_right _ hrest
      _ = 256 * (e.step d).range * limit e.size * (253 ^ decisions.length * units) := by ring
      _ ≤ 253 * (e.range * limit (e.step d).size) * (253 ^ decisions.length * units) :=
          Nat.mul_le_mul_right _ hstep
      _ = 253 ^ decisions.length * 253 * (e.range * units) * limit (e.step d).size := by ring

/-- An encoder at the start, before any decision. -/
def start (model : Model) : Encoder := { model := model }

theorem holds_start {model : Model} (h : model.Unsure) : (start model).Holds rangeFloor :=
  ⟨h, show 0 < 256 by decide, Nat.one_pos, show rangeFloor ≤ rangeBound - 1 by decide,
    show rangeBound - 1 < rangeBound by decide, show 0 + (rangeBound - 1) ≤ 2 * rangeBound by decide,
    show rangeBound * ((0 + 1) * limit 0 - 1) + 0 + (rangeBound - 1) ≤ rangeBound * limit 1 by decide⟩

end Encoder

namespace Decoder

variable {decoder : Decoder} {e : Encoder} {decisions : List Decision} {stream : Bytes} {model : Model}

/-- A decoder starts behind the first five bytes, the first of which is zero, since the number that they
stand for is within an interval of four bytes. -/
theorem follows_start (hmeets : (Encoder.start model).Meets stream) :
    ∃ decoder, start? model stream = some decoder ∧ decoder.Follows (Encoder.start model) stream := by
  obtain ⟨hlength, -, hhigh⟩ := hmeets
  have hlength : 5 ≤ stream.length := hlength
  have hhigh : Encoder.front stream 5 < 0 + (rangeBound - 1) := hhigh
  have hbound : rangeBound = 0x100000000 := rfl
  obtain ⟨zero, a, b, c, d, rest, rfl⟩ :
      ∃ zero a b c d rest, stream = zero :: a :: b :: c :: d :: rest := by
    match stream, hlength with
    | zero :: a :: b :: c :: d :: rest, _ => exact ⟨zero, a, b, c, d, rest, rfl⟩
  -- The encoder counts the first byte, which cannot be anything but zero.
  have hfront : Encoder.front (zero :: a :: b :: c :: d :: rest) 5 =
      d.toNat + 256 * (c.toNat + 256 * (b.toNat + 256 * (a.toNat + 256 * (zero.toNat + 256 * 0)))) := rfl
  have hzero : zero = 0 := by
    apply UInt8.toNat_inj.1
    show zero.toNat = 0
    omega
  subst hzero
  refine ⟨_, rfl, rfl, rfl, rfl, ?_⟩
  show 0 + (((a.toNat * 256 + b.toNat) * 256 + c.toNat) * 256 + d.toNat) = _
  have hnone : (0 : UInt8).toNat = 0 := rfl
  show _ = Encoder.front (0 :: a :: b :: c :: d :: rest) 5
  omega

/-- One decision after the other is read and compared with the expected one. -/
theorem expect?_eq (decoder : Decoder) (decisions : List Decision) :
    decoder.expect? decisions = decisions.foldlM (fun decoder d =>
      (decoder.read? d).bind fun read => if read.1 = d.outcome then some read.2 else none) decoder := by
  unfold expect?
  congr
  funext decoder d
  cases d <;> rfl

theorem expect?_cons {next : Decoder} {d : Decision} (h : decoder.read? d = some (d.outcome, next)) :
    decoder.expect? (d :: decisions) = next.expect? decisions := by
  rw [expect?_eq, expect?_eq, List.foldlM_cons, h, Option.bind_some, if_pos rfl]
  rfl

/-- A decoder with a sequence of decisions in front of it, the last of which leads to an interval that holds
the stream. -/
structure Faces (decoder : Decoder) (e : Encoder) (decisions : List Decision) (stream : Bytes) : Prop where
  follows : decoder.Follows e stream
  holds : e.Holds rangeFloor
  known : ∀ d ∈ decisions, d.Known e.model.size
  meets : (e.steps decisions).Meets stream

/-- **The first of the decisions is read back**, and the others are still in front of the decoder. -/
theorem Faces.read? {d : Decision} (h : decoder.Faces e (d :: decisions) stream) :
    ∃ next, decoder.read? d = some (d.outcome, next) ∧ next.Faces (e.step d) decisions stream := by
  have hmeets := h.meets
  obtain ⟨hfirst, hrest⟩ := List.forall_mem_cons.1 h.known
  rw [← Encoder.size_model_step e d] at hrest
  have hstep := h.holds.step hfirst
  -- The stream is held by every interval on the way, and so by the one after the first decision.
  obtain ⟨next, hnext, hfollows⟩ :=
    h.follows.read? h.holds hfirst (hstep.meets_of_steps hrest hmeets)
  exact ⟨next, hnext, hfollows, hstep, hrest, hmeets⟩

/-- **Decisions that are the next ones** are found to be so. -/
theorem Faces.expect? {later : List Decision} (h : decoder.Faces e (decisions ++ later) stream) :
    ∃ last, decoder.expect? decisions = some last ∧ last.Faces (e.steps decisions) later stream := by
  -- By induction on the decisions that are expected; those behind them stay in front of the decoder.
  induction decisions generalizing decoder e with
  | nil => exact ⟨decoder, rfl, h⟩
  | cons d decisions ih =>
    obtain ⟨next, hnext, hfaces⟩ := h.read?
    rw [expect?_cons hnext]
    exact ih hfaces

end Decoder

end BootImage.Codec.RangeCoder
