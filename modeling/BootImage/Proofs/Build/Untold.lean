import BootImage.Proofs.Build.Stub
import Mathlib.Data.List.Forall2

/-!
# Values that a stub is not told

A target that does not carry a value leaves the stub as it is, whatever the value. But each value has to
fit 32 bits, and this is checked before the target is asked where it carries it. So a value that the stub
is never told can keep it from being patched. It is the only thing that such a value can do.

- `Told.Hindered`: a run that gets to a value that is too large and is not told.
- `StubFields.AgreeOn`: values that agree on what the stub is told.
- `StubFields.patching_of_agreeOn`: two runs with values that agree.
-/

namespace BootImage.StubFields

/-! ## §1 One value -/

namespace Told

variable {told : Told} {t : Target} {stub : Bytes}

theorem on_patching_of_lt (h : told.value < Size.bound32) :
    (told.patching t).on stub = (InPlace.edit (t.patch told.field · told.value)).on stub := by
  rw [patching, InPlace.on_bind, InPlace.on_check, Size.to32, if_pos h]

theorem on_patching_of_le (h : Size.bound32 ≤ told.value) :
    (told.patching t).on stub = (refuse (.stubValueTooLarge told.what told.value), stub) := by
  -- The size is checked before the target is asked.
  rw [patching, InPlace.on_bind, InPlace.on_check, Size.to32, if_neg (Nat.not_lt.2 h)]
  rfl

/-- A value that fits and is not told makes no difference. -/
theorem on_patching_of_untold (hfits : told.value < Size.bound32) (huntold : t.carries told.field = false) :
    (told.patching t).on stub = (.ok (), stub) := by
  rw [on_patching_of_lt hfits, InPlace.on_edit_eq_ok_iff]
  exact Target.patch_of_not_carries huntold

/-- Whether a value is patched into a stub of some length: it fits 32 bits, and the stub reaches behind
the place at which the target carries it. -/
def Accepted (t : Target) (length : Nat) (told : Told) : Prop :=
  told.value < Size.bound32 ∧ ∀ place ∈ t.patches.offset? told.field, place + 4 ≤ length

/-- A value is patched in exactly where it is accepted. -/
theorem exists_on_patching_iff :
    (∃ out, (told.patching t).on stub = (.ok (), out)) ↔ told.Accepted t stub.length := by
  simp only [on_patching_eq_ok_iff, exists_and_left, Accepted, Target.patch]
  refine and_congr_right fun _ => ?_
  -- Without a place there is nothing that could be too short.
  cases t.patches.offset? told.field with
  | none => simp
  | some place => simp [ByteOrder.put_eq_ok_iff]

/-! ## §2 Two runs -/

/-- Whether patching values in gets to one that the target does not carry and that does not fit 32 bits.
All values in front of it are accepted. -/
def Hindered (t : Target) (length : Nat) : List Told → Prop
  | [] => False
  | told :: rest =>
    (t.carries told.field = false ∧ Size.bound32 ≤ told.value) ∨
      (told.Accepted t length ∧ Hindered t length rest)

/-- The same value as far as the stub is told. -/
structure Agrees (t : Target) (told other : Told) : Prop where
  field : told.field = other.field
  what : told.what = other.what
  value : t.carries told.field = true → told.value = other.value

variable {list others : List Told}

/-- **What is not told makes no difference** to a run that it does not hinder: the runs end in the same
way and leave the same stub. -/
theorem on_patchingAll_of_agrees (hagree : List.Forall₂ (Agrees t) list others)
    (hlist : ¬ Hindered t stub.length list) (hothers : ¬ Hindered t stub.length others) :
    (patchingAll t list).on stub = (patchingAll t others).on stub := by
  -- By induction on the two lists, with the stub that the earlier values leave.
  induction hagree generalizing stub with
  | nil => rfl
  | @cons told other list others hfirst hrest ih =>
    rw [Hindered, not_or, not_and, not_and] at hlist hothers
    rw [patchingAll, patchingAll, InPlace.on_bind, InPlace.on_bind]
    cases hcarried : t.carries told.field with
    | true =>
      -- The stub is told this value, so it is the same in both runs.
      obtain rfl : told = other := by
        cases told
        cases other
        obtain ⟨rfl, rfl, hvalue⟩ := hfirst
        cases hvalue hcarried
        rfl
      -- The same value meets the same stub, so it fails in both runs or in none.
      rcases hstep : (told.patching t).on stub with ⟨answer, out⟩
      cases answer with
      | error failure => rfl
      | ok _ =>
        have haccepted := exists_on_patching_iff.1 ⟨out, hstep⟩
        have hlength := Target.length_of_patch (on_patching_eq_ok_iff.1 hstep).2
        rw [← hlength] at hlist hothers haccepted
        exact ih (hlist.2 haccepted) (hothers.2 haccepted)
    | false =>
      -- Neither run is told its value. Both are small, or one of the runs would be hindered here.
      have hother : t.carries other.field = false := hfirst.field ▸ hcarried
      have hfits : told.value < Size.bound32 := Nat.lt_of_not_le (hlist.1 hcarried)
      have hfits' : other.value < Size.bound32 := Nat.lt_of_not_le (hothers.1 hother)
      have hstep : (told.patching t).on stub = (.ok (), stub) := on_patching_of_untold hfits hcarried
      have hstep' : (other.patching t).on stub = (.ok (), stub) := on_patching_of_untold hfits' hother
      rw [hstep, hstep']
      exact ih (hlist.2 (exists_on_patching_iff.1 ⟨_, hstep⟩))
        (hothers.2 (exists_on_patching_iff.1 ⟨_, hstep'⟩))

/-- A run that is hindered ends at a value that is too large and is not told. -/
theorem refused_of_hindered (h : Hindered t stub.length list) :
    ∃ told ∈ list, t.carries told.field = false ∧ Size.bound32 ≤ told.value ∧
      ((patchingAll t list).on stub).1 = refuse (.stubValueTooLarge told.what told.value) := by
  -- By induction on the values, with the stub that those in front have been patched into.
  induction list generalizing stub with
  | nil => exact h.elim
  | cons told list ih =>
    rw [patchingAll, InPlace.on_bind]
    rcases h with ⟨huntold, hlarge⟩ | ⟨haccepted, hrest⟩
    · refine ⟨told, List.mem_cons_self .., huntold, hlarge, ?_⟩
      rw [on_patching_of_le hlarge]
      rfl
    · obtain ⟨out, hstep⟩ := exists_on_patching_iff.2 haccepted
      have hlength := Target.length_of_patch (on_patching_eq_ok_iff.1 hstep).2
      rw [← hlength] at hrest
      rw [hstep]
      obtain ⟨late, hlate, hrefused⟩ := ih hrest
      exact ⟨late, List.mem_cons_of_mem _ hlate, hrefused⟩

/-- Values of 32 bits hinder nothing. -/
theorem not_hindered_of_fits {length : Nat}
    (h : ∀ told ∈ list, t.carries told.field = false → told.value < Size.bound32) :
    ¬ Hindered t length list := by
  -- By induction on the values; none of them is too large.
  induction list with
  | nil => exact id
  | cons told list ih =>
    rw [List.forall_mem_cons] at h
    rw [Hindered, not_or, not_and, not_and]
    exact ⟨fun huntold => Nat.not_le.2 (h.1 huntold), fun _ => ih h.2⟩

end Told

/-! ## §3 The values for a stub -/

/-- Values that agree on what the stub of a target is told. -/
structure AgreeOn (t : Target) (fields other : StubFields) : Prop where
  compressedSize : t.carries .compressedSize = true → fields.compressedSize = other.compressedSize
  uncompressedSize : t.carries .uncompressedSize = true →
    fields.uncompressedSize = other.uncompressedSize
  uncompressedAddress : t.carries .uncompressedAddress = true →
    fields.uncompressedAddress = other.uncompressedAddress

/-- Whether every value that the stub of a target is not told fits 32 bits. -/
def UntoldFit (fields : StubFields) (t : Target) : Prop :=
  ∀ told ∈ fields.told, t.carries told.field = false → told.value < Size.bound32

/-- Whether patching a stub gets to a value that is too large and is not told. -/
def Hindered (fields : StubFields) (t : Target) (stub : Bytes) : Prop :=
  Told.Hindered t stub.length fields.told

section

variable {t : Target} {fields other : StubFields} {stub out : Bytes}

theorem AgreeOn.agrees_told (h : AgreeOn t fields other) :
    List.Forall₂ (Told.Agrees t) fields.told other.told :=
  .cons ⟨rfl, rfl, h.compressedSize⟩ (.cons ⟨rfl, rfl, h.uncompressedSize⟩
    (.cons ⟨rfl, rfl, h.uncompressedAddress⟩ .nil))

theorem UntoldFit.not_hindered (h : fields.UntoldFit t) : ¬ fields.Hindered t stub :=
  Told.not_hindered_of_fits h

theorem untoldFit_of_patch (h : fields.patch t stub = .ok out) : fields.UntoldFit t := by
  intro told htold _
  -- A run that succeeds has found all its values small, told or not.
  rw [patch_eq_ok_iff_patching, patching, Told.on_patchingAll_eq_ok_iff] at h
  exact h.1 told htold

/-- **What a stub is not told** decides nothing but whether it is patched at all. Two runs with values
that agree on what is told end in the same way, with the same stub, unless one of them is hindered. A
hindered run is refused, for a value that is too large and is not told. So if the values that are not
told fit in one run, the other patches the stub exactly when they fit there as well and the one does. -/
theorem patching_of_agreeOn (h : AgreeOn t fields other) :
    (¬ fields.Hindered t stub → ¬ other.Hindered t stub →
      (fields.patching t).on stub = (other.patching t).on stub) ∧
    (fields.Hindered t stub → ∃ told ∈ fields.told,
      t.carries told.field = false ∧ Size.bound32 ≤ told.value ∧
      ((fields.patching t).on stub).1 = refuse (.stubValueTooLarge told.what told.value)) ∧
    (other.UntoldFit t → ∀ out,
      fields.patch t stub = .ok out ↔ fields.UntoldFit t ∧ other.patch t stub = .ok out) := by
  have hagree : ¬ fields.Hindered t stub → ¬ other.Hindered t stub →
      (fields.patching t).on stub = (other.patching t).on stub :=
    Told.on_patchingAll_of_agrees h.agrees_told
  refine ⟨hagree, Told.refused_of_hindered, ?_⟩
  intro hother out
  -- If neither run can be hindered, they are the same run.
  have hsame (hfields : fields.UntoldFit t) :
      fields.patch t stub = .ok out ↔ other.patch t stub = .ok out := by
    rw [patch_eq_ok_iff_patching, patch_eq_ok_iff_patching,
      hagree hfields.not_hindered hother.not_hindered]
  constructor
  · intro hpatch
    have hfields := untoldFit_of_patch hpatch
    exact ⟨hfields, (hsame hfields).1 hpatch⟩
  · rintro ⟨hfields, hpatch⟩
    exact (hsame hfields).2 hpatch

end

/-! ### A stub that is told one size -/

namespace SizeOnly

/-- A target whose stub is told the size of the compressed core image and nothing else. -/
def target : Target :=
  { Target.multiboot with hasStub := true, patches := { compressedSize := some 0 } }

/-- Values of 32 bits, with a given size of the core image. -/
def low (uncompressedSize : Nat) : StubFields := ⟨1, uncompressedSize, 0⟩

/-- The same values with an address of 33 bits. -/
def high : StubFields := ⟨1, 2, Size.bound32⟩

/-- A stub of eight bytes. -/
def stub : Bytes := List.replicate 8 0xeb

/-- The stub with the size in it. -/
def patched : Bytes := [1, 0, 0, 0] ++ List.replicate 4 0xeb

theorem low_untoldFit (uncompressedSize : Nat) (h : uncompressedSize < Size.bound32) :
    (low uncompressedSize).UntoldFit target := by
  intro told htold _
  simp only [low, StubFields.told, List.mem_cons, List.not_mem_nil, or_false] at htold
  rcases htold with rfl | rfl | rfl
  · show 1 < Size.bound32
    decide
  · exact h
  · show 0 < Size.bound32
    decide

theorem high_hindered : high.Hindered target stub := by
  -- The two sizes are accepted, and the address is too large.
  refine .inr ⟨⟨by decide, by decide⟩, .inr ⟨⟨by decide, by decide⟩, .inl ⟨by decide, ?_⟩⟩⟩
  exact Nat.le_refl _

theorem agreeOn_low (fields : StubFields) (h : fields.compressedSize = 1) (uncompressedSize : Nat) :
    AgreeOn target fields (low uncompressedSize) :=
  ⟨fun _ => h, fun hcarried => absurd hcarried (by decide), fun hcarried => absurd hcarried (by decide)⟩

end SizeOnly

theorem patching_of_agreeOn_sizeOnly :
    ((SizeOnly.low 2).patching SizeOnly.target).on SizeOnly.stub =
      ((SizeOnly.low 3).patching SizeOnly.target).on SizeOnly.stub ∧
    (∃ told ∈ SizeOnly.high.told,
      SizeOnly.target.carries told.field = false ∧ Size.bound32 ≤ told.value ∧
      ((SizeOnly.high.patching SizeOnly.target).on SizeOnly.stub).1 =
        refuse (.stubValueTooLarge told.what told.value)) ∧
    (SizeOnly.low 2).patch SizeOnly.target SizeOnly.stub = .ok SizeOnly.patched := by
  have htwo := SizeOnly.low_untoldFit 2 (by decide)
  have hthree := SizeOnly.low_untoldFit 3 (by decide)
  have hlow := SizeOnly.agreeOn_low (SizeOnly.low 2) rfl 3
  have hhigh := SizeOnly.agreeOn_low SizeOnly.high rfl 2
  exact ⟨(patching_of_agreeOn hlow).1 htwo.not_hindered hthree.not_hindered,
    (patching_of_agreeOn hhigh).2.1 SizeOnly.high_hindered,
    ((patching_of_agreeOn hlow).2.2 hthree _).2 ⟨htwo, by decide⟩⟩

/-- An address that the stub is not told makes the difference: the lowest one leaves the size in the
stub, one of 33 bits is refused. -/
theorem patch_ne_of_agreeOn :
    AgreeOn SizeOnly.target SizeOnly.high (SizeOnly.low 2) ∧
    SizeOnly.target.carries .uncompressedAddress = false ∧
    (SizeOnly.low 2).patch SizeOnly.target SizeOnly.stub = .ok SizeOnly.patched ∧
    SizeOnly.high.patch SizeOnly.target SizeOnly.stub =
      refuse (.stubValueTooLarge "uncompressed address" Size.bound32) :=
  ⟨SizeOnly.agreeOn_low SizeOnly.high rfl 2, by decide, by decide, by decide⟩

end BootImage.StubFields
