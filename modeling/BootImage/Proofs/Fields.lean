import BootImage.Proofs.Agreement
import BootImage.Proofs.InPlace

/-!
# Numbers in fields of a buffer

What putting a number into a field makes of a buffer, and when. The width of the field is looked at first,
then the number, then the place, and only then the bytes go over the buffer. So a refused number leaves the
buffer as it was, and numbers for fields that lie apart can be put there in any order.

- `ByteOrder.swapBytes`, `decode_flip_encode`: what the opposite byte order reads.
- `Bytes.overlay_comm`: pieces that lie apart.
- `FieldWrite.objection?`, `FieldWrite.on_putting`: the first thing that is wrong, and the step in place.
- `FieldWrite.putting_outcome`: success, what it writes, refusal, and the order of two steps.
-/

namespace BootImage

/-! ## §1 The opposite byte order -/

namespace ByteOrder

/-- The number whose `width` bytes are those of another one in the opposite order. The lowest byte becomes
the highest. -/
def swapBytes : Nat → Nat → Nat
  | 0, _ => 0
  | width + 1, value => swapBytes width (value / 256) + limit width * (value % 256)

/-- By induction on the width: the lowest byte comes last, behind the bytes of the rest. -/
theorem ofLittleBytes_reverse_littleBytes (width value : Nat) :
    ofLittleBytes (littleBytes width value).reverse = swapBytes width value := by
  -- Reversed, the bytes of the rest come first and keep their own order reversed.
  induction width generalizing value with
  | zero => rfl
  | succ width ih =>
    have hlast : ofLittleBytes [UInt8.ofNat value] = value % 256 := by
      rw [ofLittleBytes, ofLittleBytes, UInt8.toNat_ofNat']
      rfl
    rw [littleBytes, List.reverse_cons, ofLittleBytes_append, ih, hlast, List.length_reverse,
      length_littleBytes, swapBytes]

/-- The opposite order reads the bytes of a number reversed. -/
theorem decode_flip_encode (order : ByteOrder) (width value : Nat) :
    order.flip.decode (order.encode width value) = swapBytes width value := by
  rw [← ofLittleBytes_reverse_littleBytes]
  -- Either order encodes by reversing or decodes by it, and its opposite does the other.
  cases order with
  | little => rfl
  | big => rfl

example : swapBytes 4 0x12345678 = 0x78563412 := by decide

end ByteOrder

/-! ## §2 Widths, and pieces that lie apart -/

namespace ByteOrder

variable {order : ByteOrder} {buf : Bytes} {offset width value : Nat}

/-- A field of 8 bytes is treated like the narrow ones, since it holds every number of 64 bits. -/
theorem putField_of_width (hwidth : width = 2 ∨ width = 4 ∨ width = 8) (h : value < Size.bound) :
    order.putField buf offset width value =
      if value < limit width then order.put buf offset width value
      else refuse (.valueTooLarge value) := by
  rcases hwidth with rfl | rfl | rfl
  · rfl
  · rfl
  · have hvalue : value < limit 8 := h
    rw [if_pos hvalue]
    rfl

/-- Any other width is refused, whatever the number and the place are. -/
theorem putField_of_other_width (hwidth : ¬ (width = 2 ∨ width = 4 ∨ width = 8)) :
    order.putField buf offset width value = refuse (.fieldWidth width) := by
  unfold putField
  split
  · exact absurd (.inl rfl) hwidth
  · exact absurd (.inr (.inl rfl)) hwidth
  · exact absurd (.inr (.inr rfl)) hwidth
  · rfl

end ByteOrder

/-- Pieces that lie apart can be put over a buffer in any order. -/
theorem Bytes.overlay_comm {buf piece other : Bytes} {off start : Nat}
    (hpiece : off + piece.length ≤ buf.length) (hother : start + other.length ≤ buf.length)
    (hapart : off + piece.length ≤ start ∨ start + other.length ≤ off) :
    (buf.overlay off piece).overlay start other = (buf.overlay start other).overlay off piece := by
  apply List.ext_getElem?
  intro i
  rw [getElem?_overlay (by rwa [length_overlay hpiece]), getElem?_overlay hpiece,
    getElem?_overlay (by rwa [length_overlay hother]), getElem?_overlay hother]
  -- A byte lies in one of the pieces at most.
  by_cases hi : off ≤ i ∧ i < off + piece.length
  · have hnot : ¬ (start ≤ i ∧ i < start + other.length) := by omega
    rw [if_neg hnot, if_pos hi, if_pos hi]
  · rw [if_neg hi, if_neg hi]

/-! ## §3 Putting a number into a field -/

/-- A number of 64 bits that goes into a field of a buffer. -/
structure FieldWrite where
  /-- The order of its bytes. -/
  order : ByteOrder
  /-- The place of the field. -/
  place : FieldPlace
  /-- The number. -/
  value : Nat
  value_lt : value < Size.bound

namespace FieldWrite

variable (w : FieldWrite)

/-- The bytes of the number. -/
def bytes : Bytes := w.order.encode w.place.width w.value

/-- The range that the field covers. -/
def range : ByteRange := ⟨w.place.offset, w.place.width⟩

/-- The buffer with the number in the field. -/
def put (buf : Bytes) : Result Bytes := w.order.putField buf w.place.offset w.place.width w.value

/-- Whether the number fits the field, and the field a buffer of some length. -/
structure Fits (length : Nat) : Prop where
  width : w.place.width = 2 ∨ w.place.width = 4 ∨ w.place.width = 8
  value : w.value < ByteOrder.limit w.place.width
  room : w.place.offset + w.place.width ≤ length

/-- Whether the field is one of 2 or 4 bytes that cannot hold the number. -/
def TooNarrow : Prop :=
  (w.place.width = 2 ∨ w.place.width = 4) ∧ ByteOrder.limit w.place.width ≤ w.value

/-- What a buffer holds that the number was put into. -/
structure Wrote (buf out : Bytes) : Prop where
  value : w.order.get? out w.place.offset w.place.width = some w.value
  swapped : w.order.flip.get? out w.place.offset w.place.width =
    some (ByteOrder.swapBytes w.place.width w.value)
  elsewhere : Bytes.AgreeOff [w.range] buf out

/-- The first thing that is wrong with the field, the number or the place, if there is any. -/
def objection? (length : Nat) : Option Error :=
  if w.place.width = 2 ∨ w.place.width = 4 ∨ w.place.width = 8 then
    if w.value < ByteOrder.limit w.place.width then
      if w.place.offset + w.place.width ≤ length then none
      else some (.fieldOutside w.place.offset w.place.width length)
    else some (.valueTooLarge w.value)
  else some (.fieldWidth w.place.width)

/-- Whether the number is accepted, by a buffer of some length. -/
def answer (length : Nat) : Result Unit :=
  match w.objection? length with
  | none => .ok ()
  | some cause => refuse cause

/-- The number into the field of a buffer where it lies. Everything is looked at before a byte is
written. -/
def putting : InPlace Unit := do
  InPlace.check fun buf => w.answer buf.length
  InPlace.edit fun buf => .ok (buf.overlay w.place.offset w.bytes)

/-- What is left of a buffer. -/
def after (buf : Bytes) : Bytes :=
  match w.objection? buf.length with
  | none => buf.overlay w.place.offset w.bytes
  | some _ => buf

section

variable {w} {length : Nat} {buf : Bytes}

/-! ### What is accepted -/

/-- Nothing is wrong exactly if the number fits. -/
theorem objection?_eq_none_iff : w.objection? length = none ↔ w.Fits length := by
  constructor
  · -- The questions are asked in the order of the fields of `Fits`.
    intro h
    unfold objection? at h
    split at h
    · split at h
      · split at h
        · exact ⟨‹_›, ‹_›, ‹_›⟩
        · cases h
      · cases h
    · cases h
  · intro h
    rw [objection?, if_pos h.width, if_pos h.value, if_pos h.room]

/-- A field of 8 bytes holds every number of 64 bits. -/
theorem tooNarrow_of_limit_le (hwidth : w.place.width = 2 ∨ w.place.width = 4 ∨ w.place.width = 8)
    (h : ByteOrder.limit w.place.width ≤ w.value) : w.TooNarrow := by
  refine ⟨?_, h⟩
  rcases hwidth with hwidth | hwidth | hwidth
  · exact .inl hwidth
  · exact .inr hwidth
  · rw [hwidth] at h
    exact absurd w.value_lt (Nat.not_lt.2 h)

/-- A number that the field cannot hold comes before a place that the buffer does not have. -/
theorem kind_of_objection? {cause : Error} (h : w.objection? length = some cause) :
    (w.TooNarrow → cause.kind = .capacity) ∧ (¬ w.TooNarrow → cause.kind = .format) := by
  unfold objection? at h
  split at h
  case isTrue hwidth =>
    split at h
    case isTrue hvalue =>
      split at h
      case isTrue => cases h
      case isFalse =>
        cases h
        -- The number fits its field, so only the place can be wrong.
        exact ⟨fun hnarrow => absurd hvalue (Nat.not_lt.2 hnarrow.2), fun _ => rfl⟩
    case isFalse hvalue =>
      cases h
      have hnarrow := tooNarrow_of_limit_le hwidth (Nat.le_of_not_lt hvalue)
      exact ⟨fun _ => rfl, fun hnot => absurd hnarrow hnot⟩
  case isFalse hwidth =>
    cases h
    -- Only fields of 2 or 4 bytes are ever too narrow.
    exact ⟨fun hnarrow => absurd (hnarrow.1.imp_right .inl) hwidth, fun _ => rfl⟩

theorem length_bytes : w.bytes.length = w.place.width := ByteOrder.length_encode ..

/-- The bytes of a number that fits lie in the buffer. -/
theorem Fits.room_bytes (h : w.Fits length) : w.place.offset + w.bytes.length ≤ length := by
  rw [length_bytes]
  exact h.room

/-! ### What is written -/

/-- Putting a number fails for the first thing that is wrong. -/
theorem put_eq : w.put buf =
    match w.objection? buf.length with
    | none => .ok (buf.overlay w.place.offset w.bytes)
    | some cause => refuse cause := by
  rw [put, objection?]
  -- The same three questions in the same order, each of which ends the step.
  by_cases hwidth : w.place.width = 2 ∨ w.place.width = 4 ∨ w.place.width = 8
  · rw [if_pos hwidth, ByteOrder.putField_of_width hwidth w.value_lt]
    by_cases hvalue : w.value < ByteOrder.limit w.place.width
    · rw [if_pos hvalue, if_pos hvalue, ByteOrder.put]
      by_cases hroom : w.place.offset + w.place.width ≤ buf.length
      · rw [if_pos hroom, if_pos hroom]
        rfl
      · rw [if_neg hroom, if_neg hroom]
    · rw [if_neg hvalue, if_neg hvalue]
  · rw [if_neg hwidth, ByteOrder.putField_of_other_width hwidth]

/-- What is answered, and what is left of the buffer, both hang on the objection alone. -/
theorem on_putting : w.putting.on buf = (w.answer buf.length, w.after buf) := by
  rw [putting, InPlace.on_bind, InPlace.on_check, answer, after]
  cases w.objection? buf.length with
  | none => rfl
  | some cause => rfl

/-- The steps one by one are the one change of the buffer. -/
theorem on_putting_eq_edit : w.putting.on buf = (InPlace.edit w.put).on buf := by
  have hput : w.put buf = _ := put_eq
  rw [on_putting, answer, after]
  cases hobjection : w.objection? buf.length with
  | none =>
    rw [hobjection] at hput
    exact (InPlace.on_edit_eq_ok_iff.2 hput).symm
  | some cause =>
    rw [hobjection] at hput
    exact (InPlace.on_edit_of_error hput).symm

theorem Fits.answer_eq (h : w.Fits length) : w.answer length = .ok () := by
  rw [answer, objection?_eq_none_iff.2 h]

theorem Fits.after_eq (h : w.Fits buf.length) : w.after buf = buf.overlay w.place.offset w.bytes := by
  rw [after, objection?_eq_none_iff.2 h]

/-- Nothing is written of a number that does not fit. -/
theorem after_of_not_fits (h : ¬ w.Fits buf.length) : w.after buf = buf := by
  rw [after]
  cases hobjection : w.objection? buf.length with
  | none => exact absurd (objection?_eq_none_iff.1 hobjection) h
  | some cause => rfl

/-- Whether it is accepted or not, a number never moves what lies behind it. -/
@[simp] theorem length_after : (w.after buf).length = buf.length := by
  by_cases h : w.Fits buf.length
  · rw [h.after_eq, Bytes.length_overlay h.room_bytes]
  · rw [after_of_not_fits h]

/-- **What is written** is read back, reversed in the opposite order, and nothing else changes. -/
theorem Fits.wrote (h : w.Fits buf.length) : w.Wrote buf (w.after buf) := by
  have hput : w.order.put buf w.place.offset w.place.width w.value = .ok (w.after buf) :=
    ByteOrder.put_eq_ok_iff.2 ⟨h.room, h.after_eq⟩
  -- Both orders read the same bytes, which are those of the number.
  have hslice : (w.after buf).slice w.place.offset w.place.width = w.bytes := by
    have hself := Bytes.slice_overlay_self h.room_bytes
    rwa [length_bytes, ← h.after_eq] at hself
  refine ⟨ByteOrder.get?_of_put h.value hput, ?_, ?_⟩
  · rw [ByteOrder.get?, length_after, if_pos h.room, hslice, bytes, ByteOrder.decode_flip_encode]
  · have hframe := Bytes.AgreeOff.of_overlay h.room_bytes
    rwa [length_bytes, ← h.after_eq] at hframe

/-- A refused number leaves the buffer as it was. -/
theorem on_putting_of_not_fits (h : ¬ w.Fits buf.length) :
    ∃ cause, w.putting.on buf = (refuse cause, buf) ∧
      (w.TooNarrow → cause.kind = .capacity) ∧ (¬ w.TooNarrow → cause.kind = .format) := by
  cases hobjection : w.objection? buf.length with
  | none => exact absurd (objection?_eq_none_iff.1 hobjection) h
  | some cause =>
    refine ⟨cause, ?_, kind_of_objection? hobjection⟩
    rw [on_putting, after_of_not_fits h, answer, hobjection]

end

/-! ### Two numbers -/

/-- **Numbers for fields that lie apart** leave the same buffer in any order. -/
theorem after_comm {w other : FieldWrite} (buf : Bytes)
    (hapart : w.range.Apart other.place.offset other.place.width) :
    other.after (w.after buf) = w.after (other.after buf) := by
  by_cases hw : w.Fits buf.length
  · have hw' : w.Fits (other.after buf).length := by rwa [length_after]
    by_cases hother : other.Fits buf.length
    · have hother' : other.Fits (w.after buf).length := by rwa [length_after]
      rw [hother'.after_eq, hw'.after_eq, hw.after_eq, hother.after_eq]
      apply Bytes.overlay_comm hw.room_bytes hother.room_bytes
      rwa [length_bytes, length_bytes]
    · -- Where one of them does not fit, the other one is put into the same buffer in both orders.
      have hother' : ¬ other.Fits (w.after buf).length := by rwa [length_after]
      rw [after_of_not_fits hother', after_of_not_fits hother]
  · have hw' : ¬ w.Fits (other.after buf).length := by rwa [length_after]
    rw [after_of_not_fits hw, after_of_not_fits hw']

/-- **A number in a field**. Looking at everything first and then writing is the one change of the buffer.
It is made exactly if the field has 2, 4 or 8 bytes, can hold the number and lies in the buffer. Then the
number is read back, the opposite order reads it reversed, and all other bytes are what they were.
Otherwise the number is refused, for the capacity of a field that is too narrow and else for the format,
and the buffer is what it was. Of two numbers for fields that lie apart, each is accepted or refused as it
is alone, and both orders leave the same buffer. -/
theorem putting_outcome (w : FieldWrite) (buf : Bytes) :
    w.putting.on buf = (InPlace.edit fun buf =>
      w.order.putField buf w.place.offset w.place.width w.value).on buf ∧
    ((∃ out, w.putting.on buf = (.ok (), out)) ↔ w.Fits buf.length) ∧
    (∀ out, w.putting.on buf = (.ok (), out) → w.Wrote buf out) ∧
    (¬ w.Fits buf.length → ∃ cause, w.putting.on buf = (refuse cause, buf) ∧
      (w.TooNarrow → cause.kind = .capacity) ∧ (¬ w.TooNarrow → cause.kind = .format)) ∧
    (∀ other : FieldWrite, w.range.Apart other.place.offset other.place.width → ∃ both,
      other.putting.on (w.putting.on buf).2 = ((other.putting.on buf).1, both) ∧
      w.putting.on (other.putting.on buf).2 = ((w.putting.on buf).1, both)) := by
  have hfits (out : Bytes) (h : w.putting.on buf = (.ok (), out)) :
      w.Fits buf.length ∧ out = w.after buf := by
    by_cases hw : w.Fits buf.length
    · rw [on_putting, Prod.mk.injEq] at h
      exact ⟨hw, h.2.symm⟩
    · obtain ⟨cause, hrefused, -⟩ := on_putting_of_not_fits hw
      rw [hrefused] at h
      cases h
  refine ⟨on_putting_eq_edit, ⟨?_, ?_⟩, ?_, on_putting_of_not_fits, ?_⟩
  · rintro ⟨out, h⟩
    exact (hfits out h).1
  · intro hw
    exact ⟨w.after buf, by rw [on_putting, hw.answer_eq]⟩
  · intro out h
    obtain ⟨hw, rfl⟩ := hfits out h
    exact hw.wrote
  · -- An answer hangs on the length of the buffer, which no number changes.
    intro other hapart
    refine ⟨w.after (other.after buf), ?_, ?_⟩
    · rw [on_putting, on_putting, on_putting, length_after, after_comm buf hapart]
    · rw [on_putting, on_putting, on_putting, length_after]

end FieldWrite

end BootImage
