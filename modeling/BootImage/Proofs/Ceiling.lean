import BootImage.Container
import BootImage.Proofs.Outcome
import BootImage.Target.Registry

/-!
# The ceiling of raw images

How the check of a raw image ends, for every kernel and every zero-filled data behind it that a loader can
report. The end of both in memory is compared with a ceiling. It is a sum of three sizes that is taken for
granted. Where it is no size it overflows, and a kernel far behind the ceiling is not refused.

- `Raw.finish`: the end in memory.
- `Raw.checkSize_eq`: the check for all sizes.
- `Container.wrap_raw_outcome`: the image, the refusal and the fault, each with its exact condition.
-/

namespace BootImage

/-! ## §1 The check -/

namespace Raw

variable {t : Target} {layout : Kernel.Layout}

/-- Where a kernel and its zero-filled data end in memory. -/
def finish (layout : Kernel.Layout) : Nat := layout.kernelSize + layout.bssSize + linkAddress

/-- **The check for all sizes**: it compares exact ends, as long as the end is a size. -/
theorem checkSize_eq (h : t.architecture ≠ .arm) :
    checkSize t layout =
      if finish layout < Size.bound then
        if ceiling < finish layout then refuse (.kernelTooBig (finish layout) ceiling) else .ok ()
      else fault .overflow := by
  have hle : layout.kernelSize + layout.bssSize ≤ finish layout := Nat.le_add_right ..
  rw [checkSize, if_neg h]
  by_cases hfinish : finish layout < Size.bound
  · rw [if_pos hfinish, Size.add_of_lt (Nat.lt_of_le_of_lt hle hfinish), ok_bind,
      Size.add_of_lt hfinish, ok_bind]
    rfl
  · rw [if_neg hfinish]
    -- One of the two sums leaves the sizes.
    by_cases hmemory : layout.kernelSize + layout.bssSize < Size.bound
    · rw [Size.add_of_lt hmemory, ok_bind, Size.add_of_le (Nat.le_of_not_lt hfinish)]
      rfl
    · rw [Size.add_of_le (Nat.le_of_not_lt hmemory)]
      rfl

/-- An end at the ceiling can be computed. -/
theorem ceiling_lt_bound : ceiling < Size.bound := by decide

/-- The end of the kernel is checked against the ceiling on every architecture but one. -/
theorem checkSize_eq_ok_iff (h : t.architecture ≠ .arm) :
    checkSize t layout = .ok () ↔ layout.kernelSize + layout.bssSize + linkAddress ≤ ceiling := by
  rw [← finish, checkSize_eq h]
  by_cases hfinish : finish layout < Size.bound
  · rw [if_pos hfinish, guard_eq_ok_iff, Nat.not_lt]
    exact and_iff_left rfl
  · -- An end that is no size lies behind the ceiling, and is not accepted either.
    have hbehind := ceiling_lt_bound
    rw [if_neg hfinish, fault_ne_ok, false_iff]
    omega

/-- The check faults in no other way than by the end that is no size. -/
theorem faultFree_checkSize (h : layout.kernelSize + layout.bssSize + linkAddress < Size.bound) :
    FaultFree (checkSize t layout) := by
  -- One architecture is not checked at all.
  by_cases harch : t.architecture = .arm
  · rw [checkSize, if_pos harch]
    exact faultFree_ok ()
  · rw [← finish] at h
    rw [checkSize_eq harch, if_pos h]
    exact FaultFree.guard fun _ => faultFree_ok ()

end Raw

/-! ## §2 The image -/

namespace Container

/-- Wrapping a raw image is the check, and nothing is added to the core image. -/
theorem wrap_raw_eq {files : FileSystem} {t : Target} {core : Bytes} {layout : Kernel.Layout}
    {modulesSize : Nat} (hraw : t.container = .raw) (harch : t.architecture ≠ .arm) :
    wrap files t core layout modulesSize none =
      if Raw.finish layout < Size.bound then
        if Raw.ceiling < Raw.finish layout then
          refuse (.kernelTooBig (Raw.finish layout) Raw.ceiling)
        else .ok core
      else fault .overflow := by
  rw [wrap, hraw]
  show (Raw.checkSize t layout >>= fun _ => .ok core) = _
  rw [Raw.checkSize_eq harch]
  split
  · split <;> rfl
  · rfl

/-- **A raw image under its ceiling**. Without metadata there is an image exactly if the kernel and its
zero-filled data end at the ceiling or below, and it is the core image. They are refused for their capacity
exactly if they end behind the ceiling at an address that is a size. An end that is no size is an overflow,
which stops the build instead. -/
theorem wrap_raw_outcome (files : FileSystem) {t : Target} (hraw : t.container = .raw)
    (harch : t.architecture ≠ .arm) (core : Bytes) (layout : Kernel.Layout) (modulesSize : Nat) :
    (∀ image, wrap files t core layout modulesSize none = .ok image ↔
      Raw.finish layout ≤ Raw.ceiling ∧ image = core) ∧
    ((∃ cause, wrap files t core layout modulesSize none = refuse cause ∧ cause.kind = .capacity) ↔
      Raw.ceiling < Raw.finish layout ∧ Raw.finish layout < Size.bound) ∧
    (wrap files t core layout modulesSize none = fault .overflow ↔
      Size.bound ≤ Raw.finish layout) := by
  have hbound := Raw.ceiling_lt_bound
  rw [wrap_raw_eq hraw harch]
  -- The three conditions exclude each other, and one of them holds.
  rcases Nat.lt_or_ge (Raw.finish layout) Size.bound with hsize | hsize
  case inr =>
    rw [if_neg (Nat.not_lt.2 hsize)]
    refine ⟨fun image => ?_, ?_, iff_of_true rfl hsize⟩
    · rw [fault_ne_ok, false_iff]
      omega
    · refine iff_of_false ?_ (by omega)
      rintro ⟨cause, h, -⟩
      cases h
  case inl =>
    rw [if_pos hsize]
    rcases Nat.lt_or_ge Raw.ceiling (Raw.finish layout) with hbehind | hbelow
    case inl =>
      rw [if_pos hbehind]
      refine ⟨fun image => ?_, iff_of_true ⟨_, rfl, rfl⟩ ⟨hbehind, hsize⟩, ?_⟩
      · rw [refuse_ne_ok, false_iff]
        omega
      · exact iff_of_false (fun h => by cases h) (Nat.not_le.2 hsize)
    case inr =>
      rw [if_neg (Nat.not_lt.2 hbelow)]
      refine ⟨fun image => ?_, ?_, ?_⟩
      · rw [and_iff_right hbelow, Except.ok.injEq, eq_comm]
      · refine iff_of_false ?_ (by omega)
        rintro ⟨cause, h, -⟩
        cases h
      · exact iff_of_false (fun h => by cases h) (Nat.not_le.2 hsize)

/-! ### Kernels around the ceiling -/

namespace AtCeiling

/-- A file system without files. -/
def files : FileSystem := ⟨fun _ => .error .noEntry⟩

/-- A core image of sixteen bytes. -/
def core : Bytes := List.replicate 16 0x90

/-- A kernel as large as the core image, with zero-filled data of some size behind it. -/
def layout (bssSize : Nat) : Kernel.Layout :=
  { kernelSize := 16, executableSize := 16, bssSize := bssSize }

end AtCeiling

theorem wrap_raw_outcome_multiboot :
    wrap AtCeiling.files Target.multiboot AtCeiling.core (AtCeiling.layout 0x5eff0) 0 none =
      .ok AtCeiling.core ∧
    ∃ cause, wrap AtCeiling.files Target.multiboot AtCeiling.core (AtCeiling.layout 0x5eff1) 0 none =
      refuse cause ∧ cause.kind = .capacity := by
  have hraw : Target.multiboot.container = .raw := rfl
  have harch : Target.multiboot.architecture ≠ .arm := by decide
  -- One byte of zero-filled data makes the difference.
  constructor
  · have houtcome := wrap_raw_outcome AtCeiling.files hraw harch AtCeiling.core (AtCeiling.layout 0x5eff0) 0
    exact (houtcome.1 _).2 ⟨by decide, rfl⟩
  · have houtcome := wrap_raw_outcome AtCeiling.files hraw harch AtCeiling.core (AtCeiling.layout 0x5eff1) 0
    exact houtcome.2.1.2 (by decide)

/-- Zero-filled data of the largest size ends far behind the ceiling and is not refused. The sum of the sizes
overflows, to a number below the ceiling. -/
theorem wrap_raw_of_largest_bss :
    Target.multiboot.container = .raw ∧ Target.multiboot.architecture ≠ .arm ∧
    Raw.ceiling < Raw.finish (AtCeiling.layout 0xFFFFFFFFFFFFFFFF) ∧
    Raw.finish (AtCeiling.layout 0xFFFFFFFFFFFFFFFF) % Size.bound ≤ Raw.ceiling ∧
    wrap AtCeiling.files Target.multiboot AtCeiling.core (AtCeiling.layout 0xFFFFFFFFFFFFFFFF) 0 none =
      fault .overflow :=
  ⟨rfl, by decide, by decide, by decide, rfl⟩

end Container

end BootImage
