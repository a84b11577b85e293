import BootImage.Proofs.Agreement

/-!
# Patches over a buffer

Bytes that go over a buffer at several offsets, one after the other. Where each of them lies behind the
ones before it, every one is read back, and the buffer is what it was everywhere else.

- `Patch.Ordered`: patches between two offsets, in ascending order.
- `Bytes.patched`: the buffer with patches over it.
- `agreeOff_patched`: what is left alone; `slice_patched`, `get?_patched`: what is read back.
- `Patch.Compatible`, `slice_patched_eq_iff`: when a piece of the buffer outlives patches that lie over it.
-/

namespace BootImage

/-- Bytes that go over a buffer at an offset. -/
structure Patch where
  /-- The offset. -/
  offset : Nat
  /-- The bytes. -/
  content : Bytes
  deriving DecidableEq, Repr

namespace Patch

/-! ## §1 Patches in ascending order -/

/-- The offset behind a patch. -/
def finish (p : Patch) : Nat := p.offset + p.content.length

/-- The range that a patch covers. -/
def range (p : Patch) : ByteRange := ⟨p.offset, p.content.length⟩

/-- Whether two patches have the same bytes wherever both of them lie. -/
def Compatible (p q : Patch) : Prop :=
  ∀ i, p.range.Holds i → q.range.Holds i → p.content[i - p.offset]? = q.content[i - q.offset]?

/-- Patches from `start` on and in front of `limit`, each behind the ones before it. -/
def Ordered (limit : Nat) : Nat → List Patch → Prop
  | start, [] => start ≤ limit
  | start, p :: ps => start ≤ p.offset ∧ Ordered limit p.finish ps

namespace Ordered

variable {start middle limit : Nat} {ps qs : List Patch}

/-- Patches from an offset on are patches from any offset in front of it on. -/
theorem mono_start (h : Ordered limit middle ps) (hle : start ≤ middle) : Ordered limit start ps := by
  cases ps with
  | nil => exact Nat.le_trans hle h
  | cons p ps => exact ⟨Nat.le_trans hle h.1, h.2⟩

/-- Patches that end where others start can be put together. -/
theorem append (h : Ordered middle start ps) (hlater : Ordered limit middle qs) :
    Ordered limit start (ps ++ qs) := by
  induction ps generalizing start with
  | nil => exact hlater.mono_start h
  | cons p ps ih => exact ⟨h.1, ih h.2⟩

theorem start_le (h : Ordered limit start ps) : start ≤ limit := by
  induction ps generalizing start with
  | nil => exact h
  | cons p ps ih => exact Nat.le_trans h.1 (Nat.le_trans (Nat.le_add_right ..) (ih h.2))

/-- All patches lie between the two offsets. -/
theorem bounds (h : Ordered limit start ps) :
    ∀ p ∈ ps, start ≤ p.offset ∧ p.finish ≤ limit := by
  induction ps generalizing start with
  | nil => simp
  | cons p ps ih =>
    rw [List.forall_mem_cons]
    -- The first patch ends where the others start, and these end at the limit.
    refine ⟨⟨h.1, h.2.start_le⟩, fun q hq => ?_⟩
    obtain ⟨hlow, hhigh⟩ := ih h.2 q hq
    exact ⟨Nat.le_trans h.1 (Nat.le_trans (Nat.le_add_right ..) hlow), hhigh⟩

end Ordered

end Patch

namespace Bytes

/-! ## §2 Patched buffers -/

/-- The buffer with patches put over it, one after the other. -/
def patched (buf : Bytes) (patches : List Patch) : Bytes :=
  patches.foldl (fun buf p => buf.overlay p.offset p.content) buf

@[simp] theorem patched_nil (buf : Bytes) : buf.patched [] = buf := rfl

@[simp] theorem patched_cons (buf : Bytes) (p : Patch) (ps : List Patch) :
    buf.patched (p :: ps) = (buf.overlay p.offset p.content).patched ps := rfl

theorem patched_append (buf : Bytes) (ps qs : List Patch) :
    buf.patched (ps ++ qs) = (buf.patched ps).patched qs := List.foldl_append

section Ordered

variable {buf : Bytes} {start limit : Nat} {ps : List Patch}

/-- **Everything else is left alone**: patches change nothing but the ranges that they cover. -/
theorem agreeOff_patched (h : Patch.Ordered limit start ps) (hfit : limit ≤ buf.length) :
    AgreeOff (ps.map Patch.range) buf (buf.patched ps) := by
  -- By induction on the patches; each keeps the length that the next one is measured against.
  induction ps generalizing buf start with
  | nil => exact .refl _ _
  | cons p ps ih =>
    have hroom : p.offset + p.content.length ≤ buf.length := Nat.le_trans h.2.start_le hfit
    have hfirst := AgreeOff.of_overlay hroom
    have hlater := ih h.2 (by rwa [length_overlay hroom])
    rw [patched_cons, List.map_cons]
    refine (hfirst.mono ?_).trans (hlater.mono (List.subset_cons_self ..))
    intro range hrange
    rw [List.mem_singleton.1 hrange]
    exact List.mem_cons_self ..

theorem length_patched (h : Patch.Ordered limit start ps) (hfit : limit ≤ buf.length) :
    (buf.patched ps).length = buf.length := (agreeOff_patched h hfit).length.symm

/-- **Patches are read back**: the later ones lie behind the earlier ones. -/
theorem slice_patched (h : Patch.Ordered limit start ps) (hfit : limit ≤ buf.length) :
    ∀ p ∈ ps, (buf.patched ps).slice p.offset p.content.length = p.content := by
  -- By induction on the patches, each being read from what the ones before it have left.
  induction ps generalizing buf start with
  | nil => simp
  | cons p ps ih =>
    have hroom : p.offset + p.content.length ≤ buf.length := Nat.le_trans h.2.start_le hfit
    have hfit' : limit ≤ (buf.overlay p.offset p.content).length := by rwa [length_overlay hroom]
    rw [patched_cons, List.forall_mem_cons]
    refine ⟨?_, ih h.2 hfit'⟩
    -- The first patch is still there, since the others lie behind it.
    have hbehind : ∀ range ∈ ps.map Patch.range, range.Apart p.offset p.content.length := by
      rw [List.forall_mem_map]
      intro q hq
      exact .inr (h.2.bounds q hq).1
    rw [← (agreeOff_patched h.2 hfit').slice_eq hbehind]
    exact slice_overlay_self hroom

/-- A number among the patches is read back. -/
theorem get?_patched {order : ByteOrder} {offset width value : Nat} (h : Patch.Ordered limit start ps)
    (hfit : limit ≤ buf.length) (hp : ⟨offset, order.encode width value⟩ ∈ ps)
    (hv : value < ByteOrder.limit width) :
    order.get? (buf.patched ps) offset width = some value := by
  have hroom := (h.bounds _ hp).2
  have hread := slice_patched h hfit _ hp
  rw [Patch.finish, ByteOrder.length_encode] at hroom
  rw [ByteOrder.length_encode] at hread
  refine ByteOrder.get?_eq_some_of_slice ?_ hv hread
  rw [length_patched h hfit]
  exact Nat.le_trans hroom hfit

/-! ## §3 Patches over a piece -/

/-- One byte of a patch is read back. -/
theorem getElem?_patched (h : Patch.Ordered limit start ps) (hfit : limit ≤ buf.length) {p : Patch}
    (hp : p ∈ ps) {i : Nat} (hi : p.range.Holds i) :
    (buf.patched ps)[i]? = p.content[i - p.offset]? := by
  have hoffset : p.offset ≤ i := hi.1
  have hlt : i - p.offset < p.content.length := Nat.sub_lt_left_of_lt_add hoffset hi.2
  rw [← getElem?_of_slice (slice_patched h hfit p hp) hlt, Nat.add_sub_cancel' hoffset]

/-- **A piece of the buffer outlives** the patches over it exactly if none of them changes a byte of
it. -/
theorem slice_patched_eq_iff (h : Patch.Ordered limit start ps) (hfit : limit ≤ buf.length) {q : Patch}
    (hq : buf.slice q.offset q.content.length = q.content) :
    (buf.patched ps).slice q.offset q.content.length = q.content ↔ ∀ p ∈ ps, p.Compatible q := by
  -- A byte of the piece that a patch covers is that of the patch, so both have to be the same.
  constructor
  · intro hslice p hp i hpatch hpiece
    have hoffset : q.offset ≤ i := hpiece.1
    have hlt : i - q.offset < q.content.length := Nat.sub_lt_left_of_lt_add hoffset hpiece.2
    rw [← getElem?_patched h hfit hp hpatch, ← getElem?_of_slice hslice hlt, Nat.add_sub_cancel' hoffset]
  · intro hcompatible
    apply List.ext_getElem?
    intro i
    rw [getElem?_slice]
    split
    · rename_i hi
      have hpiece : q.range.Holds (q.offset + i) := ⟨Nat.le_add_right .., Nat.add_lt_add_left hi _⟩
      -- The byte comes from a patch, or it is the one that was there before.
      by_cases hpatch : ∃ p ∈ ps, p.range.Holds (q.offset + i)
      · obtain ⟨p, hp, hholds⟩ := hpatch
        rw [getElem?_patched h hfit hp hholds, hcompatible p hp _ hholds hpiece, Nat.add_sub_cancel_left]
      · rw [← (agreeOff_patched h hfit).outside, getElem?_of_slice hq hi]
        rw [List.forall_mem_map]
        exact fun p hp hholds => hpatch ⟨p, hp, hholds⟩
    · rename_i hi
      exact (List.getElem?_eq_none (Nat.le_of_not_lt hi)).symm

end Ordered

end Bytes

end BootImage
