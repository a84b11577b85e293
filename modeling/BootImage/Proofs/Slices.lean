import BootImage.Proofs.Outcome
import BootImage.WordFormat

/-!
# Ranges of a buffer and the numbers in them

A buffer that was put together from parts is read back range by range: `slice` of an appended
buffer is a slice of one of its parts, a slice of a slice is a slice, and a number is read from a
range that holds its bytes.

- `slice_append_left`, `slice_append_right`, `slice_slice`: ranges.
- `get?_eq_some_of_slice`: a number is read where its bytes lie.
- `putAt_eq_ok_iff`: when a record field takes a value, and what it leaves.
-/

namespace BootImage

namespace Bytes

/-! ## §1 Ranges -/

theorem zeros_append (m n : Nat) : zeros m ++ zeros n = zeros (m + n) := by
  simp [zeros, List.replicate_append_replicate]

@[simp] theorem drop_zeros (m n : Nat) : (zeros n).drop m = zeros (n - m) := by
  simp [zeros]

@[simp] theorem take_zeros (m n : Nat) : (zeros n).take m = zeros (min m n) := by
  simp [zeros]

theorem slice_zeros {n off len : Nat} (h : off + len ≤ n) : (zeros n).slice off len = zeros len := by
  rw [slice, drop_zeros, take_zeros]
  congr 1
  omega

theorem slice_zero (buf : Bytes) (len : Nat) : buf.slice 0 len = buf.take len := rfl

/-- A range of a range. -/
theorem slice_slice (buf : Bytes) {a n off len : Nat} (h : off + len ≤ n) :
    (buf.slice a n).slice off len = buf.slice (a + off) len := by
  rw [slice, slice, slice, List.drop_take, List.drop_drop, List.take_take]
  congr 1
  omega

theorem slice_drop (buf : Bytes) (a off len : Nat) :
    slice (buf.drop a) off len = buf.slice (a + off) len := by
  rw [slice, slice, List.drop_drop]

/-- A byte of a range that is known. -/
theorem getElem?_of_slice {buf piece : Bytes} {off i : Nat} (h : buf.slice off piece.length = piece)
    (hi : i < piece.length) : buf[off + i]? = piece[i]? := by
  have hread := getElem?_slice buf off piece.length i
  rw [h, if_pos hi] at hread
  exact hread.symm

/-- A range that the first part holds. -/
theorem slice_append_left {front rest : Bytes} {off len : Nat} (h : off + len ≤ front.length) :
    (front ++ rest).slice off len = front.slice off len := by
  rw [slice, slice, List.drop_append_of_le_length (by omega), List.take_append_of_le_length]
  rw [List.length_drop]
  omega

/-- A range behind the first part. -/
theorem slice_append_right {front rest : Bytes} {off len : Nat} (h : front.length ≤ off) :
    (front ++ rest).slice off len = rest.slice (off - front.length) len := by
  rw [slice, slice, List.drop_append, List.drop_eq_nil_of_le h, List.nil_append]

/-- The second of three parts is found behind the first. -/
theorem slice_append_self (front piece rest : Bytes) :
    (front ++ (piece ++ rest)).slice front.length piece.length = piece := by
  rw [slice_append_right (Nat.le_refl _), Nat.sub_self, slice_zero, List.take_left]

/-- A range that starts with the piece just written. -/
theorem slice_overlay_front {buf piece : Bytes} {off len : Nat} (hlen : piece.length ≤ len)
    (hfit : off + len ≤ buf.length) :
    (buf.overlay off piece).slice off len = piece ++ List.drop piece.length (buf.slice off len) := by
  have hoff : (buf.take off).length = off := by
    rw [List.length_take]
    omega
  -- Cut off in front of the piece, the buffer starts with it.
  have hfront : (buf.overlay off piece).drop off = piece ++ buf.drop (off + piece.length) := by
    rw [overlay, List.drop_left' hoff]
  rw [slice, hfront, slice, List.drop_take, List.drop_drop, List.take_append,
    List.take_of_length_le hlen]

/-- A buffer that is not cut is filled up with zeros. -/
theorem resize_of_length_le {buf : Bytes} {n : Nat} (h : buf.length ≤ n) :
    buf.resize n = buf ++ zeros (n - buf.length) := by
  rw [resize, List.take_of_length_le h]

/-- A piece put over the start of zeros is filled up with zeros to the end of its room. -/
theorem overlay_zeros {front piece : Bytes} {room n : Nat} (h : piece.length ≤ room) :
    (front ++ zeros (room + n)).overlay front.length piece =
      front ++ (piece.resize room ++ zeros n) := by
  -- The zeros behind the piece are those of its room and those behind its room.
  have hrest : room + n - piece.length = room - piece.length + n := by omega
  rw [overlay_append, drop_zeros, resize_of_length_le h, hrest, ← zeros_append,
    List.append_assoc piece]

/-- What a buffer holds already can be put over it. -/
theorem overlay_slice {buf : Bytes} {off len : Nat} (h : off + len ≤ buf.length) :
    buf.overlay off (buf.slice off len) = buf := by
  have hlen : (buf.slice off len).length = len := length_slice_of_le h
  apply List.ext_getElem?
  intro i
  rw [getElem?_overlay (by omega), hlen]
  -- Inside the range both sides read the range, and outside of it the buffer.
  split
  · rename_i hi
    rw [getElem?_slice, if_pos (by omega), Nat.add_sub_cancel' hi.1]
  · rfl

/-- A piece that the front part holds leaves what lies behind alone. -/
theorem overlay_append_left {front rest piece : Bytes} {off : Nat}
    (h : off + piece.length ≤ front.length) :
    (front ++ rest).overlay off piece = front.overlay off piece ++ rest := by
  have hoff : off ≤ front.length := Nat.le_trans (Nat.le_add_right _ _) h
  simp only [overlay, List.take_append_of_le_length hoff, List.drop_append_of_le_length h,
    List.append_assoc]

/-- A piece behind the front part leaves that part alone. -/
theorem overlay_append_right {front rest piece : Bytes} {off : Nat} (h : front.length ≤ off) :
    (front ++ rest).overlay off piece = front ++ rest.overlay (off - front.length) piece := by
  have hsum : off + piece.length - front.length = off - front.length + piece.length := by omega
  rw [overlay, overlay, List.take_append, List.drop_append, List.take_of_length_le h,
    List.drop_eq_nil_of_le (Nat.le_trans h (Nat.le_add_right _ _)), hsum, List.nil_append,
    List.append_assoc]

end Bytes

/-! ## §2 Numbers in ranges -/

namespace ByteOrder

variable {order : ByteOrder} {buf : Bytes} {offset width value : Nat}

/-- A number is read from the range that holds its bytes. -/
theorem get?_eq_some_of_slice (hfit : offset + width ≤ buf.length) (hv : value < limit width)
    (h : buf.slice offset width = order.encode width value) :
    order.get? buf offset width = some value := by
  rw [get?, if_pos hfit, h, decode_encode order hv]

/-- A number is read only where the buffer reaches so far. -/
theorem fits_of_get? (h : order.get? buf offset width = some value) :
    offset + width ≤ buf.length := by
  rw [get?] at h
  split at h
  · assumption
  · cases h

/-- Equal ranges hold equal numbers. -/
theorem get?_congr {other : Bytes} {start : Nat} (hfit : offset + width ≤ buf.length)
    (hother : start + width ≤ other.length) (h : buf.slice offset width = other.slice start width) :
    order.get? buf offset width = order.get? other start width := by
  rw [get?, get?, if_pos hfit, if_pos hother, h]

theorem get?_append_left {rest : Bytes} (hfit : offset + width ≤ buf.length) :
    order.get? (buf ++ rest) offset width = order.get? buf offset width := by
  refine get?_congr ?_ hfit (Bytes.slice_append_left hfit)
  rw [List.length_append]
  omega

theorem get?_slice {a n : Nat} (h : offset + width ≤ n) (hfit : a + n ≤ buf.length) :
    order.get? (buf.slice a n) offset width = order.get? buf (a + offset) width := by
  refine get?_congr ?_ (by omega) (Bytes.slice_slice buf h)
  rw [Bytes.length_slice_of_le hfit]
  exact h

theorem get?_drop {a : Nat} (hfit : a + offset + width ≤ buf.length) :
    order.get? (buf.drop a) offset width = order.get? buf (a + offset) width := by
  refine get?_congr ?_ hfit (Bytes.slice_drop buf a offset width)
  rw [List.length_drop]
  omega

/-- That the number was read shows that the buffer reaches so far. -/
theorem get?_drop_eq_some {a : Nat} (h : order.get? buf (a + offset) width = some value) :
    order.get? (buf.drop a) offset width = some value := by
  rw [get?_drop (fits_of_get? h)]
  exact h

theorem littleBytes_zero (width : Nat) : littleBytes width 0 = Bytes.zeros width := by
  induction width with
  | zero => rfl
  | succ width ih =>
    rw [littleBytes, Nat.zero_div, ih]
    rfl

theorem encode_zero (order : ByteOrder) (width : Nat) : order.encode width 0 = Bytes.zeros width := by
  cases order with
  | little => exact littleBytes_zero width
  | big =>
    rw [encode, littleBytes_zero]
    exact List.reverse_replicate ..

theorem limit_pos (width : Nat) : 0 < limit width := by
  rw [limit, Nat.shiftLeft_eq, Nat.one_mul]
  exact Nat.two_pow_pos _

theorem limit_zero : limit 0 = 1 := rfl

/-- The bytes in front are the low ones. -/
theorem ofLittleBytes_append (low high : Bytes) :
    ofLittleBytes (low ++ high) = ofLittleBytes low + limit low.length * ofLittleBytes high := by
  -- By induction on the low bytes; each of them moves the high ones up by a byte.
  induction low with
  | nil => rw [List.nil_append, List.length_nil, limit_zero, ofLittleBytes, Nat.zero_add, Nat.one_mul]
  | cons b low ih =>
    rw [List.cons_append, ofLittleBytes, ih, ofLittleBytes, List.length_cons, limit_succ, Nat.mul_add,
      Nat.add_assoc, Nat.mul_assoc]

/-! ## §3 Fields -/

/-- Whether a field of `width` bytes takes a value. Fields of 8 bytes take every size. -/
def Takes (width value : Nat) : Prop :=
  (width = 2 ∧ value < limit 2) ∨ (width = 4 ∧ value < limit 4) ∨ width = 8

/-- A field takes a value of its width, where the buffer has the field. -/
theorem putField_eq_ok_iff {out : Bytes} :
    order.putField buf offset width value = .ok out ↔
      Takes width value ∧ offset + width ≤ buf.length ∧
        out = buf.overlay offset (order.encode width value) := by
  -- One case for each width; the narrow ones look at the value first.
  unfold putField Takes
  split
  · by_cases h : value < limit 2 <;> simp [h, put_eq_ok_iff]
  · by_cases h : value < limit 4 <;> simp [h, put_eq_ok_iff]
  · simp [put_eq_ok_iff]
  · -- No other width is ever accepted, and none of the three is left.
    rename_i h₂ h₄ h₈
    simp only [refuse_ne_ok, false_iff, not_and]
    rintro (⟨h, -⟩ | ⟨h, -⟩ | h)
    · exact (h₂ h).elim
    · exact (h₄ h).elim
    · exact (h₈ h).elim

/-- A value that a field cannot take is refused, wherever the field is. -/
theorem putField_of_not_takes (hwidth : width = 2 ∨ width = 4 ∨ width = 8) (h : ¬ Takes width value) :
    order.putField buf offset width value = refuse (.valueTooLarge value) := by
  rcases hwidth with rfl | rfl | rfl
  · have hvalue : ¬ value < limit 2 := fun hlt => h (.inl ⟨rfl, hlt⟩)
    exact if_neg hvalue
  · have hvalue : ¬ value < limit 4 := fun hlt => h (.inr (.inl ⟨rfl, hlt⟩))
    exact if_neg hvalue
  · -- A field of 8 bytes takes every value.
    exact absurd (.inr (.inr rfl)) h

end ByteOrder

namespace WordFormat

/-- A record field takes a value where the place is a size and the buffer has the field. -/
theorem putAt_eq_ok_iff {format : WordFormat} {buf out : Bytes} {base value : Nat}
    {place : FieldPlace} :
    format.putAt buf base place value = .ok out ↔
      base + place.offset < Size.bound ∧ ByteOrder.Takes place.width value ∧
        base + place.offset + place.width ≤ buf.length ∧
        out = buf.overlay (base + place.offset) (format.order.encode place.width value) := by
  rw [putAt, bind_eq_ok_iff]
  constructor
  · intro h
    rcases h with ⟨offset, hoffset, h⟩
    obtain ⟨hbound, rfl⟩ := Size.add_eq_ok_iff.1 hoffset
    exact ⟨hbound, ByteOrder.putField_eq_ok_iff.1 h⟩
  · intro h
    rcases h with ⟨hbound, h⟩
    exact ⟨_, Size.add_eq_ok_iff.2 ⟨hbound, rfl⟩, ByteOrder.putField_eq_ok_iff.2 h⟩

end WordFormat

end BootImage
