import BootImage.Build
import BootImage.Proofs.Kernel
import BootImage.Proofs.ModuleRegion.ReadBack

/-!
# The stages of a build

Each stage of a build as a condition on its input and a value. What a build without a stub puts into
its container is known from the files and the loader alone: the kernel and the module region, in the
order that the target wants.

- `regionPlan_eq_ok_iff`: the plan of the region.
- `region`, `core`: the module region of a build, and its core image.
- `image_eq_ok_iff`: a build, stage by stage; `image_noStub_eq_ok_iff`: a build without a stub.
-/

namespace BootImage

/-- A target that does not carry a value leaves everything as it is. -/
theorem Target.patch_of_not_carries {t : Target} {field : PatchField} {buf : Bytes} {value : Nat}
    (h : t.carries field = false) : t.patch field buf value = .ok buf := by
  rw [carries, Option.isSome_eq_false_iff, Option.isNone_iff_eq_none] at h
  rw [patch, h]

namespace Build

/-! ## §1 Planning the region -/

/-- Inputs that a build can plan: metadata only where an image can carry it, every input with a
content, and a region that 32 bits can count. -/
structure Plannable (files : FileSystem) (configuration : Configuration) : Prop where
  metadata : configuration.metadata = none ∨ configuration.target.isPe
  available : ∀ input ∈ configuration.inputs.listed,
    ∃ content, input.source.content? files = some content
  counted : configuration.inputs.regionSize files configuration.target.format.word < Size.bound32

/-- The plan of the region of a build, with exact numbers. -/
def exactPlan (files : FileSystem) (configuration : Configuration) : ModuleRegion.Plan :=
  let format := configuration.target.format
  ⟨format, ModuleRegion.spread format.word.infoSize
      (configuration.inputs.listed.map (·.payload files format.word)),
    configuration.inputs.regionSize files format.word⟩

theorem checkMetadata_eq_ok_iff {t : Target} {metadata : Option Path} :
    Container.checkMetadata t metadata = .ok () ↔ metadata = none ∨ t.isPe := by
  cases metadata with
  | none => exact ⟨fun _ => .inl rfl, fun _ => rfl⟩
  | some path =>
    -- Metadata is refused by the kind of the container alone, whatever file it is.
    rw [Container.checkMetadata]
    by_cases hpe : t.isPe
    · rw [if_pos hpe]
      exact ⟨fun _ => .inr hpe, fun _ => rfl⟩
    -- The refusal names the target.
    · rw [if_neg hpe, bind_eq_ok_iff]
      refine ⟨?_, ?_⟩
      · intro h
        rcases h with ⟨name, -, h⟩
        exact absurd h (by simp)
      · rintro (h | h)
        · cases h
        · exact absurd h hpe

section Region

variable {files : FileSystem} {configuration : Configuration}

theorem payloads_exactPlan :
    (exactPlan files configuration).entries.map (·.payload) =
      configuration.inputs.listed.map (·.payload files configuration.target.format.word) :=
  ModuleRegion.map_payload_spread _ _

/-- The region ends where its last block does. -/
theorem tight_exactPlan : ModuleRegion.Plan.Tight (exactPlan files configuration) := by
  rw [ModuleRegion.Plan.Tight, payloads_exactPlan]
  rfl

/-- **Planning the region**: it gives the exact plan, or the inputs cannot be planned. -/
theorem regionPlan_eq_ok_iff {plan : ModuleRegion.Plan} :
    regionPlan files configuration = .ok plan ↔
      Plannable files configuration ∧ plan = exactPlan files configuration := by
  have hbound : Size.bound32 ≤ Size.bound := by decide
  have hsize : configuration.inputs.regionSize files configuration.target.format.word =
      configuration.target.format.word.infoSize + extent
        (configuration.inputs.listed.map (·.payload files configuration.target.format.word)) := rfl
  -- The four stages: metadata, inputs, layout, and a size of 32 bits.
  simp only [regionPlan, bind_eq_ok_iff, PayloadInputs.collect_eq_ok_iff,
    ModuleRegion.Plan.ofPayloads_eq_ok_iff, Size.to32_eq_ok_iff]
  refine ⟨?_, ?_⟩
  · intro h
    rcases h with ⟨_, hmetadata, _, ⟨hplannable, rfl⟩, _, ⟨-, rfl⟩, _, ⟨hcounted, -⟩, h⟩
    cases h
    exact ⟨⟨checkMetadata_eq_ok_iff.1 hmetadata, fun input hinput => (hplannable input hinput).1,
      hcounted⟩, rfl⟩
  · intro h
    rcases h with ⟨⟨hmetadata, havailable, hcounted⟩, rfl⟩
    refine ⟨(), checkMetadata_eq_ok_iff.2 hmetadata, _, ⟨fun input hinput => ?_, rfl⟩, _,
      ⟨by omega, rfl⟩, _, ⟨hcounted, rfl⟩, rfl⟩
    -- One input takes up no more than the region.
    have hextent := ModuleRegion.paddedSize_le_extent (List.mem_map_of_mem
      (f := fun input : Input => input.payload files configuration.target.format.word) hinput)
    exact ⟨havailable input hinput, by omega⟩

/-- What is planned can be written: every content is there, and its header can count it. -/
theorem Plannable.writable (h : Plannable files configuration) :
    ∀ p ∈ (exactPlan files configuration).entries.map (·.payload), p.Writable files := by
  rw [payloads_exactPlan, List.forall_mem_map]
  intro input hinput
  obtain ⟨content, hcontent⟩ := h.available input hinput
  -- The header of one input counts less than the region.
  have hextent := ModuleRegion.paddedSize_le_extent (List.mem_map_of_mem
    (f := fun input : Input => input.payload files configuration.target.format.word) hinput)
  have hcounted := h.counted
  rw [PayloadInputs.regionSize] at hcounted
  exact ModuleRegion.writable_payload hcontent (by omega)

/-! ## §2 The core image -/

/-- The module region of a build. -/
def region (files : FileSystem) (configuration : Configuration) : Bytes :=
  ModuleRegion.Plan.regionOver (exactPlan files configuration) files
    (Bytes.zeros (exactPlan files configuration).totalSize)

/-- The core image of a build without a stub: the kernel and the module region. -/
def core (files : FileSystem) (configuration : Configuration) (loaded : Kernel.Loaded) : Bytes :=
  ModuleRegion.assemble configuration.target loaded.blob (region files configuration)

theorem Plannable.length_regionOver (h : Plannable files configuration) {ground : Bytes}
    (hground : ground.length = (exactPlan files configuration).totalSize) :
    (ModuleRegion.Plan.regionOver (exactPlan files configuration) files ground).length =
      (exactPlan files configuration).totalSize := by
  -- Whatever is written over has exactly the size of the region.
  have hroom : configuration.target.format.word.infoSize + extent
      ((exactPlan files configuration).entries.map (·.payload)) ≤ ground.length := by
    rw [hground]
    exact Nat.le_of_eq tight_exactPlan.symm
  rw [ModuleRegion.Plan.length_regionOver (fun p hp => (h.writable p hp).fits) hroom, hground]

theorem Plannable.length_region (h : Plannable files configuration) :
    (region files configuration).length = (exactPlan files configuration).totalSize :=
  h.length_regionOver (Bytes.length_zeros _)

/-- A core image has the bytes of its kernel and of its region. -/
theorem Plannable.length_core {loaded : Kernel.Loaded} (h : Plannable files configuration)
    (husable : loaded.Usable (exactPlan files configuration).totalSize) :
    (core files configuration loaded).length =
      loaded.layout.kernelSize + (exactPlan files configuration).totalSize := by
  rw [core, ModuleRegion.length_assemble, husable.length_blob, h.length_region]

/-- What is planned is written over any bytes of the size of the region. -/
theorem Plannable.write (h : Plannable files configuration) {ground : Bytes}
    (hground : ground.length = (exactPlan files configuration).totalSize) :
    ModuleRegion.Plan.write (exactPlan files configuration) files ground =
      .ok ((exactPlan files configuration).totalSize,
        ModuleRegion.Plan.regionOver (exactPlan files configuration) files ground) := by
  -- No byte of the ground is left over behind the last block.
  have htight : (exactPlan files configuration).totalSize = _ := tight_exactPlan
  exact ModuleRegion.Plan.write_eq_ok_iff.2 ⟨Nat.le_of_eq hground.symm,
    Nat.le_of_eq (htight.symm.trans hground.symm), fun _ => h.counted, h.writable, htight, rfl⟩

/-- **Placing the region** of a build succeeds wherever the image has exactly the room for it. -/
theorem Plannable.place {t : Target} (h : Plannable files configuration) {image : Bytes}
    {kernelSize : Nat} (hbound : kernelSize + (exactPlan files configuration).totalSize < Size.bound)
    (hlen : image.length = kernelSize + (exactPlan files configuration).totalSize) :
    ModuleRegion.Plan.place (exactPlan files configuration) files t image kernelSize =
      .ok (ModuleRegion.assemble t (image.take kernelSize)
        (ModuleRegion.Plan.regionOver (exactPlan files configuration) files
          (ModuleRegion.Plan.ground (exactPlan files configuration) t image kernelSize))) := by
  have hground := ModuleRegion.Plan.length_ground t (Nat.le_of_eq hlen.symm)
  refine ModuleRegion.Plan.place_eq_ok_iff.2 ⟨hbound, by omega, _, _, h.write hground, ?_⟩
  -- Nothing lies behind the room for the region.
  rw [List.drop_eq_nil_of_le (by omega), List.append_nil]

end Region

/-! ## §3 Builds -/

section Image

variable {files : FileSystem} {codecs : Codecs} {loader : Kernel.Loader}
  {configuration : Configuration} {out : Bytes}

/-- **A build, stage by stage**: the inputs can be planned, the loader gives a usable kernel, and the
core image is put together, finished and wrapped. -/
theorem image_eq_ok_iff :
    image files codecs loader configuration = .ok out ↔
      Plannable files configuration ∧
      ∃ loaded, loader.load (kernelRequest configuration (exactPlan files configuration)) = .ok loaded ∧
        loaded.Usable (exactPlan files configuration).totalSize ∧
      ∃ unpacked, unpackedCore files configuration.target (exactPlan files configuration)
          (loaded.fitted (exactPlan files configuration).totalSize) = .ok unpacked ∧
      ∃ finished, finishedCore files codecs configuration (exactPlan files configuration)
          loaded.layout.kernelSize unpacked = .ok finished ∧
        Container.wrap files configuration.target finished loaded.layout
          (exactPlan files configuration).totalSize configuration.metadata = .ok out := by
  -- Planning and fitting have one value each; the other stages may fail in ways that are kept open
  -- here.
  simp only [image, bind_eq_ok_iff, regionPlan_eq_ok_iff, Kernel.Loaded.fitTo_eq_ok_iff]
  refine ⟨?_, ?_⟩
  · intro h
    rcases h with ⟨_, ⟨hplannable, rfl⟩, loaded, hloaded, _, ⟨husable, rfl⟩, h⟩
    exact ⟨hplannable, loaded, hloaded, husable, h⟩
  · intro h
    rcases h with ⟨hplannable, loaded, hloaded, husable, h⟩
    exact ⟨_, ⟨hplannable, rfl⟩, loaded, hloaded, _, ⟨husable, rfl⟩, h⟩

/-- Without a stub, the core image is put together from zeros behind the kernel. -/
theorem unpackedCore_noStub {loaded : Kernel.Loaded} (hstub : configuration.target.hasStub = false)
    (hplannable : Plannable files configuration)
    (husable : loaded.Usable (exactPlan files configuration).totalSize) :
    unpackedCore files configuration.target (exactPlan files configuration)
      (loaded.fitted (exactPlan files configuration).totalSize) =
        .ok (core files configuration loaded) := by
  have hbound : Size.bufferBound ≤ Size.bound := by decide
  have hallocatable := husable.allocatable
  have hblob := husable.length_blob
  -- The room behind the kernel holds zeros, as does the room made in front of it.
  have hground : ModuleRegion.Plan.ground (exactPlan files configuration) configuration.target
      (loaded.fitted (exactPlan files configuration).totalSize).image loaded.layout.kernelSize =
        Bytes.zeros (exactPlan files configuration).totalSize := by
    rw [ModuleRegion.Plan.ground]
    split
    · rfl
    · rw [Kernel.Loaded.fitted, Bytes.slice_append_right (by omega), hblob, Nat.sub_self,
        Bytes.slice_zeros (by omega)]
  have hkernel : (loaded.fitted (exactPlan files configuration).totalSize).image.take
      loaded.layout.kernelSize = loaded.blob := by
    rw [Kernel.Loaded.fitted]
    exact List.take_left' hblob
  -- The image is exactly as long as the kernel and the region.
  have hplaced := hplannable.place (t := configuration.target) (by omega) husable.length_fitted
  rw [hkernel, hground] at hplaced
  rw [unpackedCore, hstub, if_neg Bool.false_ne_true, ok_bind]
  exact hplaced

/-- Without a stub, nothing but the size of the region in the kernel is left to finish. -/
theorem finishedCore_noStub {plan : ModuleRegion.Plan} {kernelSize : Nat} {unpacked : Bytes}
    (hstub : configuration.target.hasStub = false) :
    finishedCore files codecs configuration plan kernelSize unpacked =
      configuration.target.patch .totalModuleSize unpacked plan.totalSize := by
  simp only [finishedCore, CoreImage.compress, hstub, Bool.false_eq_true, if_false, ok_bind]

/-- A build without a stub puts as many bytes into its container as its kernel and region have, patched
or not. -/
theorem wrapped_noStub (hstub : configuration.target.hasStub = false)
    (h : image files codecs loader configuration = .ok out) :
    ∃ plan loaded finished,
      regionPlan files configuration = .ok plan ∧
      loader.load (kernelRequest configuration plan) = .ok loaded ∧
      finished.length = loaded.layout.kernelSize + plan.totalSize ∧
      Container.wrap files configuration.target finished loaded.layout plan.totalSize
        configuration.metadata = .ok out := by
  obtain ⟨hplannable, loaded, hloaded, husable, unpacked, hunpacked, finished, hfinished, hwrap⟩ :=
    image_eq_ok_iff.1 h
  rw [unpackedCore_noStub hstub hplannable husable] at hunpacked
  cases hunpacked
  rw [finishedCore_noStub hstub] at hfinished
  refine ⟨_, loaded, finished, regionPlan_eq_ok_iff.2 ⟨hplannable, rfl⟩, hloaded, ?_, hwrap⟩
  rw [Target.length_of_patch hfinished, hplannable.length_core husable]

/-- No region is empty, since it starts with its info record. -/
theorem totalSize_pos {plan : ModuleRegion.Plan} (h : regionPlan files configuration = .ok plan) :
    0 < plan.totalSize := by
  obtain ⟨-, rfl⟩ := regionPlan_eq_ok_iff.1 h
  have hinfo : 0 < configuration.target.format.word.infoSize := by
    cases configuration.target.format.word <;> decide
  -- The record is counted in front of the blocks.
  rw [tight_exactPlan]
  exact Nat.lt_of_lt_of_le hinfo (Nat.le_add_right _ _)

/-- **A build without a stub**: what is wrapped is the kernel and the region of the build. -/
theorem image_noStub_eq_ok_iff (hstub : configuration.target.hasStub = false)
    (hpatch : configuration.target.carries .totalModuleSize = false) :
    image files codecs loader configuration = .ok out ↔
      Plannable files configuration ∧
      ∃ loaded, loader.load (kernelRequest configuration (exactPlan files configuration)) = .ok loaded ∧
        loaded.Usable (exactPlan files configuration).totalSize ∧
        Container.wrap files configuration.target (core files configuration loaded) loaded.layout
          (exactPlan files configuration).totalSize configuration.metadata = .ok out := by
  rw [image_eq_ok_iff]
  refine and_congr_right fun hplannable => exists_congr fun loaded => and_congr_right fun _ =>
    and_congr_right fun husable => ?_
  -- Both stages behind the kernel succeed, so only the container is left.
  rw [unpackedCore_noStub hstub hplannable husable]
  refine ⟨?_, ?_⟩
  · intro h
    rcases h with ⟨unpacked, hunpacked, finished, hfinished, h⟩
    cases hunpacked
    rw [finishedCore_noStub hstub, Target.patch_of_not_carries hpatch] at hfinished
    cases hfinished
    exact h
  · intro h
    refine ⟨_, rfl, _, ?_, h⟩
    rw [finishedCore_noStub hstub]
    exact Target.patch_of_not_carries hpatch

end Image

end Build

end BootImage
