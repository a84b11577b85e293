import BootImage.Proofs.ModuleRegion.Emission
import BootImage.Target.Registry

/-!
# Where the region is placed

The region behind the kernel and the region in front of it are the same region. It is written over
the zeros that the image keeps for it, or over zeros that take the place of the kernel after the kernel
was moved up, and nothing else tells the two placements apart.

- `Plan.length_of_write`: a written region is as long as the bytes that it was written over.
- `Plan.on_placing_of_short`: an image without room is left as it was.
- `Plan.placing_same_region`: both placements, as two orders of the same three parts.
-/

namespace BootImage.ModuleRegion

section Placement

variable {plan : Plan} {files : FileSystem}

theorem Plan.length_of_write {region out : Bytes} {finish : Nat}
    (h : plan.write files region = .ok (finish, out)) : out.length = region.length := by
  obtain ⟨-, hroom, -, hwritable, -, rfl⟩ := write_eq_ok_iff.1 h
  exact length_regionOver (fun p hp => (hwritable p hp).fits) hroom

/-- An image without room for the region is refused before anything is moved or written. -/
theorem Plan.on_placing_of_short (t : Target) {image : Bytes} {kernelSize : Nat}
    (hbound : kernelSize + plan.totalSize < Size.bound)
    (hshort : image.length < kernelSize + plan.totalSize) :
    (plan.placing files t kernelSize).on image =
      (refuse (.noRoomForModules image.length plan.totalSize), image) := by
  -- Both looks at the image come before the first step that changes it.
  rw [placing, InPlace.on_bind, InPlace.on_check, Size.add_of_lt hbound]
  dsimp only
  rw [InPlace.on_bind, InPlace.on_check, if_pos hshort]
  rfl

/-- Zeros that were kept behind the kernel are the same ground as zeros put in front of it. -/
theorem Plan.ground_of_zeros (t : Target) {image : Bytes} {kernelSize : Nat}
    (hzeros : image.slice kernelSize plan.totalSize = Bytes.zeros plan.totalSize) :
    plan.ground t image kernelSize = Bytes.zeros plan.totalSize := by
  rw [ground, hzeros, ite_self]

/-- **Both placements hold the same kernel and the same region.** An image is given whose bytes behind
the kernel are zeros, as many as the region has. Placing the region succeeds exactly when the region can
be written over zeros, and fails as that does. Where it succeeds, the image keeps its length: it holds
the kernel, the region and what lay behind them, with the region in front where the target wants it,
however long the kernel is. An image that is too short is refused for its format, and left as it was. -/
theorem Plan.placing_same_region (plan : Plan) (files : FileSystem) (t : Target) (image : Bytes)
    (kernelSize : Nat) (hbound : kernelSize + plan.totalSize < Size.bound) :
    (kernelSize + plan.totalSize ≤ image.length →
      image.slice kernelSize plan.totalSize = Bytes.zeros plan.totalSize →
      ((plan.placing files t kernelSize).on image).1 =
          (plan.write files (Bytes.zeros plan.totalSize)).map (fun _ => ()) ∧
        ∀ finish region, plan.write files (Bytes.zeros plan.totalSize) = .ok (finish, region) →
          let placed :=
            if t.modulesFirst then
              region ++ image.take kernelSize ++ image.drop (kernelSize + plan.totalSize)
            else image.take kernelSize ++ region ++ image.drop (kernelSize + plan.totalSize)
          (plan.placing files t kernelSize).on image = (.ok (), placed) ∧
            plan.place files t image kernelSize = .ok placed ∧ placed.length = image.length) ∧
    (image.length < kernelSize + plan.totalSize →
      ∃ cause, (plan.placing files t kernelSize).on image = (.error (.refused cause), image) ∧
        cause.kind = .format) := by
  refine ⟨fun hroom hzeros => ?_, fun hshort => ?_⟩
  case refine_1 =>
    have hplacing := on_placing files t hbound hroom
    rw [ground_of_zeros t hzeros] at hplacing
    refine ⟨?_, fun finish region hwrite => ?_⟩
    · -- The answer of the write is kept, only the offset in it is not.
      rw [hplacing, write, InPlace.outcome]
      cases (plan.writing files).on (Bytes.zeros plan.totalSize) with
      | mk answer out => cases answer <;> rfl
    · have hplaced : (if t.modulesFirst then
            region ++ image.take kernelSize ++ image.drop (kernelSize + plan.totalSize)
          else image.take kernelSize ++ region ++ image.drop (kernelSize + plan.totalSize)) =
            assemble t (image.take kernelSize) region ++ image.drop (kernelSize + plan.totalSize) := by
        rw [assemble]
        split <;> rfl
      have hlength := length_of_write hwrite
      rw [hplaced]
      refine ⟨?_, ?_, ?_⟩
      · rw [hplacing, InPlace.outcome_eq_ok_iff.1 hwrite]
        rfl
      · refine place_eq_ok_iff.2 ⟨hbound, hroom, finish, region, ?_, rfl⟩
        rwa [ground_of_zeros t hzeros]
      · -- The kernel and the region change places, and the region is as long as its room.
        rw [Bytes.length_zeros] at hlength
        rw [List.length_append, length_assemble, hlength, List.length_take, List.length_drop]
        omega
  case refine_2 =>
    exact ⟨_, on_placing_of_short t hbound hshort, rfl⟩

end Placement

/-! ### A kernel longer than its region -/

namespace Sample

/-- The plan of a prefix alone. -/
def plan : Plan := ⟨⟨.w32, .little⟩, [⟨⟨.pathPrefix, .bytes [0x2f, 0], 2, 4⟩, 12⟩], 24⟩

/-- The region of the plan, over zeros. -/
def region : Bytes := [
  0x6d, 0x69, 0x6d, 0x67, 12, 0, 0, 0, 24, 0, 0, 0,
  3, 0, 0, 0, 12, 0, 0, 0, 0x2f, 0, 0, 0]

/-- A kernel of four bytes more than the region. -/
def kernel : Bytes := List.replicate 27 0x90 ++ [0x91]

/-- A file system without files. -/
def files : FileSystem := ⟨fun _ => .error .noEntry⟩

/-- The target of the plan, and one that wants the region in front. -/
def target (modulesFirst : Bool) : Target := { Target.multiboot with modulesFirst := modulesFirst }

end Sample

/-- The kernel is longer than the region, so moved up it overlaps the place it came from. -/
theorem Plan.placing_same_region_sample :
    (Sample.plan.placing Sample.files (Sample.target false) 28).on
        (Sample.kernel ++ Bytes.zeros 24 ++ [7]) =
      (.ok (), Sample.kernel ++ Sample.region ++ [7]) ∧
    (Sample.plan.placing Sample.files (Sample.target true) 28).on
        (Sample.kernel ++ Bytes.zeros 24 ++ [7]) =
      (.ok (), Sample.region ++ Sample.kernel ++ [7]) ∧
    ∃ cause, (Sample.plan.placing Sample.files (Sample.target true) 28).on Sample.kernel =
      (.error (.refused cause), Sample.kernel) ∧ cause.kind = .format := by
  have hwrite : Sample.plan.write Sample.files (Bytes.zeros 24) = .ok (24, Sample.region) :=
    toOption_eq_some_iff.1 (by decide +kernel)
  -- One kernel and one region, for a target of either kind.
  have hplacing := fun modulesFirst => (placing_same_region Sample.plan Sample.files
    (Sample.target modulesFirst) (Sample.kernel ++ Bytes.zeros 24 ++ [7]) 28 (by decide)).1
      (by decide) (by decide)
  refine ⟨?_, ?_, ?_⟩
  · exact ((hplacing false).2 24 Sample.region hwrite).1
  · exact ((hplacing true).2 24 Sample.region hwrite).1
  · exact (placing_same_region Sample.plan Sample.files (Sample.target true) Sample.kernel 28
      (by decide)).2 (by decide)

end BootImage.ModuleRegion
