import BootImage.Proofs.Slices

/-!
# Buffers that agree outside of some ranges

Two buffers of one length that may differ only inside of given ranges. Buffers that are put together
side by side keep to this: an equal piece adds nothing to the ranges, and a piece that may hold
anything, as long as it has the same length on both sides, adds its own range.

- `SameLength`: contents of one length.
- `ByteRange`: a range of a buffer.
- `AgreeOff`: agreement outside of ranges.
- `AgreeOff.append_same`, `AgreeOff.append_content`, `AgreeOff.overlay`, `AgreeOff.of_overlay`: the steps.
- `AgreeOff.slice_eq`: what lies apart from all ranges is equal.
-/

namespace BootImage

/-! ## §1 Contents of one length -/

/-- Two contents of one length, or none on either side. -/
def Bytes.SameLength (content other : Option Bytes) : Prop :=
  content.map List.length = other.map List.length

instance (content other : Option Bytes) : Decidable (Bytes.SameLength content other) :=
  inferInstanceAs (Decidable (content.map List.length = other.map List.length))

namespace Bytes.SameLength

variable {content other : Option Bytes}

theorem symm (h : SameLength content other) : SameLength other content := Eq.symm h

/-- Where there is one content, there is the other, and it is as long. -/
theorem exists_some (h : SameLength content other) {bytes : Bytes} (hcontent : content = some bytes) :
    ∃ found, other = some found ∧ found.length = bytes.length := by
  rw [SameLength, hcontent, Option.map_some] at h
  exact Option.map_eq_some_iff.1 h.symm

/-- A content is missing on both sides or on neither. -/
theorem exists_iff (h : SameLength content other) :
    (∃ bytes, content = some bytes) ↔ ∃ bytes, other = some bytes := by
  rw [← Option.isSome_iff_exists, ← Option.isSome_iff_exists, ← Option.isSome_map (f := List.length), h,
    Option.isSome_map]

/-- A missing content counts as an empty one on both sides. -/
theorem length_getD (h : SameLength content other) :
    (content.getD []).length = (other.getD []).length := by
  cases content with
  | none =>
    have hnone : other = none := by simpa [SameLength] using Eq.symm h
    rw [hnone]
  | some bytes =>
    obtain ⟨found, rfl, hlength⟩ := h.exists_some rfl
    exact hlength.symm

end Bytes.SameLength

/-! ## §2 Ranges -/

/-- A range of a buffer. -/
structure ByteRange where
  /-- Where it starts. -/
  offset : Nat
  /-- How many bytes it has. -/
  size : Nat
  deriving DecidableEq, Repr

/-- Whether a range holds an offset. -/
def ByteRange.Holds (range : ByteRange) (offset : Nat) : Prop :=
  range.offset ≤ offset ∧ offset < range.offset + range.size

/-- Whether a range lies apart from `len` bytes at an offset. -/
def ByteRange.Apart (range : ByteRange) (off len : Nat) : Prop :=
  range.offset + range.size ≤ off ∨ off + len ≤ range.offset

namespace Bytes

/-! ## §3 Agreement -/

/-- Buffers of the same length with equal bytes outside of some ranges. -/
structure AgreeOff (ranges : List ByteRange) (a b : Bytes) : Prop where
  length : a.length = b.length
  outside : ∀ i, (∀ range ∈ ranges, ¬ range.Holds i) → a[i]? = b[i]?

namespace AgreeOff

variable {ranges more : List ByteRange} {a b c d piece : Bytes}

theorem refl (ranges : List ByteRange) (a : Bytes) : AgreeOff ranges a a :=
  ⟨rfl, fun _ _ => rfl⟩

/-- With more ranges there is less to agree on. -/
theorem mono (h : AgreeOff ranges a b) (hsub : ranges ⊆ more) : AgreeOff more a b :=
  ⟨h.length, fun i hi => h.outside i fun range hrange => hi range (hsub hrange)⟩

/-- Two changes, one after the other. -/
theorem trans (h : AgreeOff ranges a b) (hlater : AgreeOff ranges b c) : AgreeOff ranges a c :=
  ⟨h.length.trans hlater.length, fun i hi => (h.outside i hi).trans (hlater.outside i hi)⟩

/-- A piece put over a buffer changes nothing but its own range. -/
theorem of_overlay {off : Nat} (hfit : off + piece.length ≤ a.length) :
    AgreeOff [⟨off, piece.length⟩] a (a.overlay off piece) := by
  refine ⟨(length_overlay hfit).symm, fun i hi => ?_⟩
  rw [getElem?_overlay hfit, if_neg]
  exact hi _ (List.mem_singleton_self _)

/-- An equal piece behind both buffers. -/
theorem append_same (h : AgreeOff ranges a b) (c : Bytes) : AgreeOff ranges (a ++ c) (b ++ c) := by
  refine ⟨by simp [h.length], fun i hi => ?_⟩
  -- Both buffers end at the same offset, so the piece lies at the same place.
  rw [List.getElem?_append, List.getElem?_append, h.length, h.outside i hi]

/-- A piece of the same length behind both buffers. -/
theorem append_content (h : AgreeOff ranges a b) (hlen : c.length = d.length) :
    AgreeOff (ranges ++ [⟨a.length, c.length⟩]) (a ++ c) (b ++ d) := by
  refine ⟨by simp [h.length, hlen], fun i hi => ?_⟩
  rw [List.forall_mem_append, List.forall_mem_singleton] at hi
  obtain ⟨hranges, hpiece⟩ := hi
  rw [List.getElem?_append, List.getElem?_append, ← h.length]
  split
  · exact h.outside i hranges
  · rename_i hbehind
    -- Behind the front parts an offset is in the pieces, or behind them as well.
    have hend : c.length ≤ i - a.length := by
      simp only [ByteRange.Holds] at hpiece
      omega
    rw [List.getElem?_eq_none hend, List.getElem?_eq_none (hlen ▸ hend)]

/-- A piece of the same length, filled up with zeros to its room, behind both buffers. -/
theorem append_resized (h : AgreeOff ranges a b) (hlen : c.length = d.length) {room : Nat}
    (hroom : c.length ≤ room) :
    AgreeOff (ranges ++ [⟨a.length, c.length⟩]) (a ++ c.resize room) (b ++ d.resize room) := by
  rw [resize_of_length_le hroom, resize_of_length_le (hlen ▸ hroom), ← List.append_assoc,
    ← List.append_assoc, ← hlen]
  exact (h.append_content hlen).append_same _

/-- The same piece over both buffers. -/
theorem overlay (h : AgreeOff ranges a b) {off : Nat} (hfit : off + piece.length ≤ a.length) :
    AgreeOff ranges (a.overlay off piece) (b.overlay off piece) := by
  have hfit' : off + piece.length ≤ b.length := h.length ▸ hfit
  refine ⟨by rw [length_overlay hfit, length_overlay hfit', h.length], fun i hi => ?_⟩
  -- Under the piece both hold the piece, and elsewhere what they held.
  rw [getElem?_overlay hfit, getElem?_overlay hfit', h.outside i hi]

/-- **Apart from all ranges** the buffers are equal. -/
theorem slice_eq (h : AgreeOff ranges a b) {off len : Nat}
    (hapart : ∀ range ∈ ranges, range.Apart off len) : a.slice off len = b.slice off len := by
  apply List.ext_getElem?
  intro i
  rw [getElem?_slice, getElem?_slice]
  split
  · apply h.outside
    -- A byte of the range is in none of the others, since it lies apart from them.
    intro range hrange
    have := hapart range hrange
    simp only [ByteRange.Apart, ByteRange.Holds] at this ⊢
    omega
  · rfl

end AgreeOff

end Bytes

end BootImage
