import BootImage.Proofs.ModuleRegion.Planning
import BootImage.Target.Registry

/-!
# Planning at the limits of sizes

What planning answers for every size and for every list of payloads, up to the largest size there is. A
number that is too large for a size is refused where the sum or the rounding that gives it is checked.
Three are not checked: the rounding to whole sectors, the zero byte behind a configuration, and the header
in front of a payload. They stop the build where they leave the sizes.

- `Payload.make_eq`: the payload of every size.
- `ModuleRegion.Plan.ofPayloads_of_stop`: the first payload that ends behind the sizes decides.
- `ModuleRegion.make_and_ofPayloads`: both together.
-/

namespace BootImage

/-! ## §1 One payload -/

/-- The padded size is the least number of whole words that holds what a payload takes up. -/
theorem PayloadKind.isLeast_paddedSize (word : WordWidth) (kind : PayloadKind) (size : Nat) :
    IsLeast {m | word.bytes ∣ m ∧ kind.occupied size ≤ m} (kind.paddedSize word size) := by
  rw [paddedSize_eq]
  exact Alignment.isLeast_roundUp word.bytes_pos _

/-- Rounding to words at all sizes: exact, or refused. -/
theorem Target.alignToWord_eq (t : Target) (size : Nat) :
    t.alignToWord size =
      if Alignment.roundUp t.format.word.bytes size < Size.bound then
        .ok (Alignment.roundUp t.format.word.bytes size)
      else refuse (.alignedSizeOverflow size) := by
  rw [alignToWord, Alignment.alignUp?_eq t.format.word.isPowerOfTwo_bytes t.format.word.bytes_dvd_bound,
    ok_bind]
  by_cases h : Alignment.roundUp t.format.word.bytes size < Size.bound
  · rw [if_pos h, if_pos h]
  · rw [if_neg h, if_neg h]

/-- **The payload of every size**: the padded size is exact. Where it is no size, this is found out when
words are filled, unless the content has left the sizes before. -/
theorem Payload.make_eq (t : Target) (kind : PayloadKind) (source : PayloadSource) {size : Nat}
    (h : size < Size.bound) :
    make t kind source size =
      if kind.paddedSize t.format.word size < Size.bound then
        .ok ⟨kind, source, size, kind.paddedSize t.format.word size⟩
      else if kind.occupied size < Size.bound then
        refuse (.alignedSizeOverflow (kind.occupied size))
      else fault .overflow := by
  have hle := (kind.isLeast_paddedSize t.format.word size).1.2
  rw [make, padded_eq t kind h, Target.alignToWord_eq, ← PayloadKind.paddedSize_eq]
  -- Words are filled only behind the other two steps, and what these make of the size is no less than
  -- it.
  by_cases hoccupied : kind.occupied size < Size.bound
  · rw [if_pos hoccupied, if_pos hoccupied]
    split <;> rfl
  · rw [if_neg hoccupied, if_neg hoccupied, if_neg (by omega)]
    rfl

/-! ## §2 A region -/

namespace ModuleRegion

/-- The first payload that ends behind the sizes. -/
structure Stop (start : Nat) (ps before : List Payload) (p : Payload) (after : List Payload) : Prop where
  split : ps = before ++ p :: after
  fits : start + extent before < Size.bound
  stops : Size.bound ≤ start + extent before + (Payload.headerBytes + p.paddedSize)

/-- Payloads that take up more than a size have a first one that ends behind the sizes. -/
theorem exists_stop {start : Nat} {ps : List Payload} (hstart : start < Size.bound)
    (h : Size.bound ≤ start + extent ps) : ∃ before p after, Stop start ps before p after := by
  induction ps generalizing start with
  | nil => exact absurd h (Nat.not_le.2 hstart)
  | cons p ps ih =>
    rw [extent_cons, ← Nat.add_assoc] at h
    -- By induction on the payloads: the first of them ends behind the sizes, or one of the others does.
    by_cases hp : start + (Payload.headerBytes + p.paddedSize) < Size.bound
    · obtain ⟨before, q, after, hsplit, hfits, hstops⟩ := ih hp h
      have hextent := extent_cons p before
      exact ⟨p :: before, q, after, by rw [hsplit, List.cons_append], by omega, by omega⟩
    · exact ⟨[], p, ps, rfl, hstart, Nat.le_of_not_lt hp⟩

/-- The first payload that ends behind the sizes decides. Its own sum is not checked, but the sum with
what precedes it is. -/
theorem Plan.lay_of_stop {start : Nat} {ps before after : List Payload} {p : Payload}
    (h : Stop start ps before p after) :
    lay start ps =
      if Payload.headerBytes + p.paddedSize < Size.bound then refuse .regionOverflow
      else fault .overflow := by
  obtain ⟨rfl, hfits, hstops⟩ := h
  -- By induction on the payloads in front of it, which are laid out.
  induction before generalizing start with
  | nil =>
    rw [extent_nil, Nat.add_zero] at hstops
    rw [List.nil_append, lay, Payload.footprint]
    by_cases hp : Payload.headerBytes + p.paddedSize < Size.bound
    · -- Its header fits, so the sum with what precedes it is the one that fails.
      have hnone : Size.add? start (Payload.headerBytes + p.paddedSize) = none :=
        if_neg (Nat.not_lt.2 hstops)
      rw [if_pos hp, Size.add_of_lt hp, ok_bind, hnone]
    · rw [if_neg hp, Size.add, if_neg hp]
      rfl
  | cons q before ih =>
    have hextent := extent_cons q before
    have hq : start + (Payload.headerBytes + q.paddedSize) < Size.bound := by omega
    have hfootprint : q.footprint = .ok (Payload.headerBytes + q.paddedSize) :=
      Size.add_of_lt (by omega)
    have hlater : lay (start + (Payload.headerBytes + q.paddedSize)) (before ++ p :: after) =
        if Payload.headerBytes + p.paddedSize < Size.bound then refuse .regionOverflow
        else fault .overflow := ih (by omega) (by omega)
    rw [List.cons_append, lay, hfootprint, ok_bind, Size.add?_eq_some_iff.2 ⟨hq, rfl⟩]
    simp only [hlater]
    split <;> rfl

/-- A plan is laid out from behind the info record on. -/
theorem Plan.ofPayloads_of_stop {format : WordFormat} {ps before after : List Payload} {p : Payload}
    (h : Stop format.word.infoSize ps before p after) :
    ofPayloads format ps =
      if Payload.headerBytes + p.paddedSize < Size.bound then refuse .regionOverflow
      else fault .overflow := by
  rw [ofPayloads, lay_of_stop h]
  split <;> rfl

/-! ## §3 All sizes -/

/-- **Planning at the limits**. A payload has the least padded size, unless that is no size. Then it is
refused, or the build stops, which happens to a memory disk in the last sector of the sizes and to a
configuration of the largest size. A plan has the exact size, unless that is none. Then the first payload
that ends behind the sizes is refused, or stops the build if it leaves them on its own. -/
theorem make_and_ofPayloads (t : Target) (kind : PayloadKind) (source : PayloadSource) {size : Nat}
    (h : size < Size.bound) (ps : List Payload) :
    IsLeast {m | t.format.word.bytes ∣ m ∧ kind.occupied size ≤ m}
      (kind.paddedSize t.format.word size) ∧
    Payload.make t kind source size =
      (if kind.paddedSize t.format.word size < Size.bound then
        .ok ⟨kind, source, size, kind.paddedSize t.format.word size⟩
      else if kind.occupied size < Size.bound then
        refuse (.alignedSizeOverflow (kind.occupied size))
      else fault .overflow) ∧
    (Size.bound ≤ kind.occupied size ↔
      (kind = .memdisk ∧ Size.bound < size + Payload.memdiskAlign) ∨
        (kind = .config ∧ size + 1 = Size.bound)) ∧
    (t.format.word.infoSize + extent ps < Size.bound →
      Plan.ofPayloads t.format ps = .ok ⟨t.format, spread t.format.word.infoSize ps,
        t.format.word.infoSize + extent ps⟩) ∧
    (Size.bound ≤ t.format.word.infoSize + extent ps →
      ∃ before p after, Stop t.format.word.infoSize ps before p after ∧
        Plan.ofPayloads t.format ps =
          if Payload.headerBytes + p.paddedSize < Size.bound then refuse .regionOverflow
          else fault .overflow) := by
  refine ⟨kind.isLeast_paddedSize t.format.word size, Payload.make_eq t kind source h,
    PayloadKind.bound_le_occupied_iff h, ?exact, ?stop⟩
  case exact =>
    intro hsum
    exact Plan.ofPayloads_eq_ok_iff.2 ⟨hsum, rfl⟩
  case stop =>
    intro hsum
    obtain ⟨before, p, after, hstop⟩ := exists_stop (infoSize_lt_bound _) hsum
    exact ⟨before, p, after, hstop, Plan.ofPayloads_of_stop hstop⟩

/-- A configuration of three bytes fills a word with its zero byte. -/
theorem make_and_ofPayloads_multiboot :
    IsLeast {m | 4 ∣ m ∧ 4 ≤ m} 4 ∧
    Payload.make Target.multiboot .config (.bytes []) 3 = .ok ⟨.config, .bytes [], 3, 4⟩ ∧
    Plan.ofPayloads ⟨.w32, .little⟩ [⟨.config, .bytes [], 3, 4⟩] =
      .ok ⟨⟨.w32, .little⟩, [⟨⟨.config, .bytes [], 3, 4⟩, 12⟩], 24⟩ := by
  have hsize : 3 < Size.bound := by decide
  have hplanned := make_and_ofPayloads Target.multiboot .config (.bytes []) hsize
    [⟨.config, .bytes [], 3, 4⟩]
  exact ⟨hplanned.1, hplanned.2.1, hplanned.2.2.2.1 (by decide)⟩

/-- A memory disk of the largest size is not refused, and neither is a module that can be planned but
leaves no room for its header. -/
theorem make_and_ofPayloads_fault :
    Payload.make Target.multiboot .memdisk (.bytes []) (Size.bound - 1) = fault .overflow ∧
    Payload.make Target.multiboot .loadable (.bytes []) (Size.bound - 8) =
      .ok ⟨.loadable, .bytes [], Size.bound - 8, Size.bound - 8⟩ ∧
    Plan.ofPayloads ⟨.w32, .little⟩ [⟨.loadable, .bytes [], Size.bound - 8, Size.bound - 8⟩] =
      fault .overflow :=
  ⟨rfl, rfl, rfl⟩

end ModuleRegion

end BootImage
