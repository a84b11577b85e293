import BootImage.Proofs.Build.Contents
import BootImage.Proofs.Ceiling
import BootImage.Proofs.Pe.Capacity

/-!
# Builds with flat kernels

A build for a registered target, with the loader of flat kernels, needs no more than its files, a
module region that 32 bits can count, and a kernel or sections that end early enough. Whatever else is
checked along the way follows from these conditions, and no step stops on a fault.

- `Target.Regular`: what the registered targets have in common.
- `Build.Buildable`: the conditions.
- `Build.exists_image_iff`, `Build.faultFree_image`: when there is an image, and that nothing faults.
-/

namespace BootImage

/-! ## §1 Registered targets -/

/-- A target without a stub and without a size to patch in, with sections that can be aligned, a name,
and a raw image only where the end of the kernel is checked. -/
structure Target.Regular (t : Target) : Prop where
  noStub : t.hasStub = false
  noPatch : t.carries .totalModuleSize = false
  aligned : t.sectionAlign.isPowerOfTwo
  divides : t.sectionAlign ∣ Size.bound32
  named : t.names ≠ []
  checked : t.architecture ≠ .arm ∨ t.container ≠ .raw

/-- Every registered target is regular. -/
theorem Target.regular_of_mem_registry {t : Target} (h : t ∈ registry) : t.Regular := by
  -- Seven targets, each looked at.
  have hregistry : ∀ t ∈ registry, t.hasStub = false ∧ t.carries .totalModuleSize = false ∧
      t.sectionAlign.isPowerOfTwo ∧ t.sectionAlign ∣ Size.bound32 ∧ t.names ≠ [] ∧
        (t.architecture ≠ .arm ∨ t.container ≠ .raw) := by
    decide
  obtain ⟨hstub, hpatch, hpow, hdvd, hnames, hchecked⟩ := hregistry t h
  exact ⟨hstub, hpatch, hpow, hdvd, hnames, hchecked⟩

/-- A refusal of metadata names the target, and a regular target has a name. -/
theorem Target.Regular.faultFree_checkMetadata {t : Target} (h : t.Regular) (metadata : Option Path) :
    FaultFree (Container.checkMetadata t metadata) := by
  obtain ⟨name, rest, hnames⟩ := List.exists_cons_of_ne_nil h.named
  have hname : t.name = .ok name := by rw [Target.name, Target.name?, hnames, List.head?_cons]
  cases metadata with
  | none => exact faultFree_ok ()
  | some path =>
    rw [Container.checkMetadata, hname]
    split
    · exact faultFree_ok ()
    · exact faultFree_refuse _

/-! ## §2 When there is an image -/

/-- A file system whose files are shorter than `2 ^ 62` bytes. -/
def FileSystem.Bounded (files : FileSystem) : Prop :=
  ∀ path content, files.content? path = some content → content.length < 0x4000000000000000

theorem FileSystem.Bounded.length_contentAt {files : FileSystem} (h : files.Bounded) (path : Path) :
    (files.contentAt path).length < 0x4000000000000000 := by
  -- A file that is missing counts as empty.
  cases hcontent : files.content? path with
  | none =>
    rw [contentAt, hcontent]
    decide
  | some content =>
    rw [contentAt_eq hcontent]
    exact h path content hcontent

namespace Build

/-- What a loader of flat kernels reports for the kernel of a configuration. -/
def flatLayout (files : FileSystem) (configuration : Configuration) : Kernel.Layout :=
  let size := Kernel.flatSize configuration.target.format.word
    (files.contentAt configuration.kernelFile)
  { kernelSize := size, executableSize := size }

/-- Whether the container of a target has room for a kernel and a region: below the ceiling for the
kernel of a raw image, within 32 bits for the end of every section of a PE image. -/
def Contained (files : FileSystem) (configuration : Configuration) : Prop :=
  let t := configuration.target
  let layout := flatLayout files configuration
  let total := configuration.inputs.regionSize files t.format.word
  match t.container with
  | .raw => layout.kernelSize + Raw.linkAddress ≤ Raw.ceiling
  | .pe _ => ∀ s ∈ (Pe.Plan.exact t (layout.kernelSize + total) layout total
      (configuration.metadata.map fun path => (files.contentAt path).length)).sections,
        s.EndsWithin t.sectionAlign

/-- What a build with a flat kernel needs. -/
structure Buildable (files : FileSystem) (configuration : Configuration) : Prop where
  plannable : Plannable files configuration
  metadata : ∀ path ∈ configuration.metadata, ∃ content, files.content? path = some content
  kernel : ∃ content, files.content? configuration.kernelFile = some content
  contained : Contained files configuration

section Image

variable {files : FileSystem} {codecs : Codecs} {configuration : Configuration}

theorem contained_raw (ht : configuration.target.container = .raw) :
    Contained files configuration ↔
      (flatLayout files configuration).kernelSize + Raw.linkAddress ≤ Raw.ceiling := by
  unfold Contained
  simp only [ht]

theorem contained_pe {machine : Machine} (ht : configuration.target.container = .pe machine) :
    Contained files configuration ↔
      ∀ s ∈ (Pe.Plan.exact configuration.target ((flatLayout files configuration).kernelSize +
        (exactPlan files configuration).totalSize) (flatLayout files configuration)
        (exactPlan files configuration).totalSize
        (configuration.metadata.map fun path => (files.contentAt path).length)).sections,
          s.EndsWithin configuration.target.sectionAlign := by
  unfold Contained
  simp only [ht]
  exact Iff.rfl

/-- The kernel that a build with flat kernels loads. -/
def flatKernel (files : FileSystem) (configuration : Configuration) : Kernel.Loaded :=
  .ofFlat configuration.target.format.word (files.contentAt configuration.kernelFile)
    (exactPlan files configuration).totalSize

/-- The loader of flat kernels gives the file, filled up to a word and with room for the region, as long
as memory can hold both. -/
theorem load_flat_eq_ok_iff {loaded : Kernel.Loaded} :
    (Kernel.Loader.flat files).load (kernelRequest configuration (exactPlan files configuration)) =
        .ok loaded ↔
      (∃ content, files.content? configuration.kernelFile = some content) ∧
        (flatLayout files configuration).kernelSize + (exactPlan files configuration).totalSize <
          Size.bufferBound ∧
        loaded = flatKernel files configuration := by
  -- The loader reads the file itself, and the build counts its content; both are the same bytes.
  rw [Kernel.Loader.flat_eq_ok_iff]
  refine ⟨?_, ?_⟩
  · intro h
    rcases h with ⟨content, hcontent, hroom, rfl⟩
    have heq : files.contentAt configuration.kernelFile = content := FileSystem.contentAt_eq hcontent
    rw [flatLayout, flatKernel, heq]
    exact ⟨⟨content, hcontent⟩, hroom, rfl⟩
  · intro h
    rcases h with ⟨⟨content, hcontent⟩, hroom, rfl⟩
    have heq : files.contentAt configuration.kernelFile = content := FileSystem.contentAt_eq hcontent
    rw [flatLayout, heq] at hroom
    rw [flatKernel, heq]
    exact ⟨content, hcontent, hroom, rfl⟩

/-- Where files are bounded, there is memory for every kernel with every region that can be counted. -/
theorem room_of_bounded (hfiles : files.Bounded) (h : Plannable files configuration) :
    (flatLayout files configuration).kernelSize + (exactPlan files configuration).totalSize <
      0x4000000000000008 + Size.bound32 := by
  -- Rounding adds less than eight bytes to the file.
  have hkernel := Kernel.flatSize_lt configuration.target.format.word
    (files.contentAt configuration.kernelFile)
  have hfile := hfiles.length_contentAt configuration.kernelFile
  have hregion : (exactPlan files configuration).totalSize < Size.bound32 := h.counted
  show Kernel.flatSize configuration.target.format.word (files.contentAt configuration.kernelFile) +
    (exactPlan files configuration).totalSize < _
  omega

theorem usable_flatKernel (hfiles : files.Bounded) (h : Plannable files configuration) :
    (flatKernel files configuration).Usable (exactPlan files configuration).totalSize := by
  have hroom := room_of_bounded hfiles h
  have hbound : 0x4000000000000008 + Size.bound32 ≤ Size.bufferBound := by decide
  exact Kernel.usable_ofFlat (Nat.lt_of_lt_of_le hroom hbound)

theorem length_core_flat (hfiles : files.Bounded) (h : Plannable files configuration) :
    (core files configuration (flatKernel files configuration)).length =
      (flatLayout files configuration).kernelSize + (exactPlan files configuration).totalSize :=
  h.length_core (usable_flatKernel hfiles h)

/-- **The container** is all that is left to check once the kernel is loaded. -/
theorem exists_wrap_flat_iff (hregular : configuration.target.Regular) (hfiles : files.Bounded)
    (h : Plannable files configuration) :
    (∃ out, Container.wrap files configuration.target (core files configuration
        (flatKernel files configuration)) (flatLayout files configuration)
        (exactPlan files configuration).totalSize configuration.metadata = .ok out) ↔
      (∀ path ∈ configuration.metadata, ∃ content, files.content? path = some content) ∧
        Contained files configuration := by
  cases ht : configuration.target.container with
  | raw =>
    -- A raw image of a registered target is not one for the architecture whose kernels are not checked.
    have harm := hregular.checked.resolve_right fun hraw => hraw ht
    simp only [wrap_raw_eq_ok_iff ht, Raw.checkSize_eq_ok_iff harm, contained_raw ht]
    refine ⟨?_, ?_⟩
    · intro h
      rcases h with ⟨_, hmetadata, hend, -⟩
      rw [hmetadata]
      exact ⟨fun path hpath => absurd hpath (Option.not_mem_none path), hend⟩
    · intro h
      rcases h with ⟨-, hend⟩
      -- Metadata was refused before the region was planned.
      have hpe : ¬ configuration.target.isPe := by
        rw [Target.isPe, ht]
        exact Bool.false_ne_true
      exact ⟨_, h.metadata.resolve_right hpe, hend, rfl⟩
  | pe machine =>
    rw [Pe.exists_wrap_pe_iff ht (show (0 : Nat) < Size.bound32 by decide), length_core_flat hfiles h,
      Pe.Plan.feasible_iff_ends hregular.aligned hregular.divides rfl, contained_pe ht]

/-- **When there is an image**: nothing that is checked behind the plan of the region refuses a build
that has its files and fits its container. -/
theorem exists_image_iff (hregular : configuration.target.Regular) (hfiles : files.Bounded) :
    (∃ out, image files codecs (.flat files) configuration = .ok out) ↔
      Buildable files configuration := by
  -- What is left of a build is the plan, the kernel and the container.
  simp only [image_noStub_eq_ok_iff hregular.noStub hregular.noPatch, load_flat_eq_ok_iff]
  refine ⟨?_, ?_⟩
  · intro h
    rcases h with ⟨out, hplannable, _, ⟨hkernel, -, rfl⟩, -, hwrap⟩
    -- What the container accepted is the rest of the conditions.
    obtain ⟨hmetadata, hcontained⟩ :=
      (exists_wrap_flat_iff hregular hfiles hplannable).1 ⟨out, hwrap⟩
    exact ⟨hplannable, hmetadata, hkernel, hcontained⟩
  · intro h
    rcases h with ⟨hplannable, hmetadata, hkernel, hcontained⟩
    obtain ⟨out, hwrap⟩ :=
      (exists_wrap_flat_iff hregular hfiles hplannable).2 ⟨hmetadata, hcontained⟩
    have husable := usable_flatKernel hfiles hplannable
    exact ⟨out, hplannable, _, ⟨hkernel, husable.allocatable, rfl⟩, husable, hwrap⟩

/-! ## §3 Absence of faults -/

/-- Every input of a build is as long as a buffer can be, if files are bounded and so is the prefix. -/
theorem length_content_le (hfiles : files.Bounded)
    (hshort : ∀ text ∈ configuration.pathPrefix, (Bytes.ofText text).length < Size.bufferBound) :
    ∀ input ∈ configuration.inputs.listed, (input.content files).length ≤ Size.bufferBound := by
  have hbound : 0x4000000000000000 ≤ Size.bufferBound := by decide
  rw [PayloadInputs.listed_eq, List.forall_mem_append, List.forall_mem_map, List.forall_mem_map]
  refine ⟨?_, ?_⟩
  · intro input _
    exact Nat.le_of_lt (Nat.lt_of_lt_of_le (hfiles.length_contentAt input.2) hbound)
  · intro text htext
    -- The prefix is followed by one zero byte.
    have hlen : (Bytes.ofText text ++ [0]).length = (Bytes.ofText text).length + 1 := by
      rw [List.length_append, List.length_singleton]
    show (Bytes.ofText text ++ [0]).length ≤ _
    rw [hlen]
    exact hshort text (Option.mem_toList.1 htext)

/-- Planning the region does not fault: no input is longer than a buffer, so rounding its size stays
within the sizes. -/
theorem faultFree_regionPlan (hregular : configuration.target.Regular) (hfiles : files.Bounded)
    (hshort : ∀ text ∈ configuration.pathPrefix, (Bytes.ofText text).length < Size.bufferBound) :
    FaultFree (regionPlan files configuration) := by
  have hbound : Size.bufferBound + Payload.memdiskAlign + 2 * Payload.headerBytes < Size.bound := by
    decide
  have hlengths := length_content_le hfiles hshort
  refine (hregular.faultFree_checkMetadata _).bind fun _ _ => ?_
  refine (PayloadInputs.faultFree_collect hlengths).bind fun payloads hpayloads => ?_
  obtain ⟨-, rfl⟩ := PayloadInputs.collect_eq_ok_iff.1 hpayloads
  -- One input and its header are a size, whatever the others are.
  have hsizes : ∀ p ∈ configuration.inputs.listed.map
      (·.payload files configuration.target.format.word),
      Payload.headerBytes + p.paddedSize < Size.bound := by
    rw [List.forall_mem_map]
    intro input hinput
    have hpadded := PayloadKind.paddedSize_lt configuration.target.format.word input.kind
      (input.content files).length
    have hlength := hlengths input hinput
    show Payload.headerBytes + input.kind.paddedSize configuration.target.format.word
      (input.content files).length < _
    omega
  -- The entries are laid out one behind the other, and the sum is held against 32 bits in the end.
  refine FaultFree.bind ?_ fun plan _ => ?_
  · exact (ModuleRegion.Plan.faultFree_lay hsizes).bind fun _ _ => faultFree_ok _
  · exact Size.faultFree_to32.bind fun _ _ => faultFree_ok plan

/-- Wrapping the core image of a flat kernel does not fault, since the sum of all sizes stays far below
the largest size. -/
theorem faultFree_wrap_flat (hregular : configuration.target.Regular) (hfiles : files.Bounded)
    (h : Plannable files configuration) :
    FaultFree (Container.wrap files configuration.target (core files configuration
      (flatKernel files configuration)) (flatLayout files configuration)
      (exactPlan files configuration).totalSize configuration.metadata) := by
  have hroom := room_of_bounded hfiles h
  have hlen := length_core_flat hfiles h
  cases ht : configuration.target.container with
  | raw =>
    have hbound : 0x4000000000000008 + Size.bound32 + Raw.linkAddress ≤ Size.bound := by decide
    rw [Container.wrap, ht]
    -- Only the sum of the kernel and the link address could leave the sizes.
    refine (hregular.faultFree_checkMetadata _).bind fun _ _ => ?_
    refine (Raw.faultFree_checkSize ?_).bind fun _ _ => faultFree_ok _
    show (flatLayout files configuration).kernelSize + 0 + Raw.linkAddress < Size.bound
    omega
  | pe machine =>
    have hmetadata : (configuration.metadata.map fun path => (files.contentAt path).length).getD 0 <
        0x4000000000000000 := by
      cases configuration.metadata with
      | none =>
        rw [Option.map_none, Option.getD_none]
        decide
      | some path => exact hfiles.length_contentAt path
    have hbound : 0x4000000000000008 + Size.bound32 + 0x4000000000000000 + 0x1000 ≤ Size.bound := by
      decide
    -- Kernel and region, metadata and the slack for rounding: each of them is bounded.
    refine Pe.faultFree_wrap_pe ht (show (0 : Nat) < Size.bound32 by decide) hregular.aligned
      (Nat.le_of_eq hlen.symm) ?_
    rw [hlen]
    show _ + 0 + _ + 0x1000 < Size.bound
    omega

/-- **No step faults**, whatever the files and the configuration are. -/
theorem faultFree_image (hregular : configuration.target.Regular) (hfiles : files.Bounded)
    (hshort : ∀ text ∈ configuration.pathPrefix, (Bytes.ofText text).length < Size.bufferBound) :
    FaultFree (image files codecs (.flat files) configuration) := by
  refine (faultFree_regionPlan hregular hfiles hshort).bind fun plan hplan => ?_
  -- Behind the plan everything is known: it is the exact one.
  obtain ⟨hplannable, rfl⟩ := regionPlan_eq_ok_iff.1 hplan
  have husable := usable_flatKernel hfiles hplannable
  refine FaultFree.bind ?_ fun loaded hloaded => ?_
  · refine Kernel.Loader.faultFree_flat fun content hcontent => ?_
    have heq : files.contentAt configuration.kernelFile = content := FileSystem.contentAt_eq hcontent
    have hallocatable := husable.allocatable
    rw [← heq]
    exact hallocatable
  · obtain ⟨-, -, rfl⟩ := load_flat_eq_ok_iff.1 hloaded
    -- The stages between loading and wrapping succeed.
    rw [Kernel.Loaded.fitTo_eq_ok_iff.2 ⟨husable, rfl⟩, ok_bind,
      unpackedCore_noStub hregular.noStub hplannable husable, ok_bind,
      finishedCore_noStub hregular.noStub, Target.patch_of_not_carries hregular.noPatch, ok_bind]
    exact faultFree_wrap_flat hregular hfiles hplannable

end Image

/-- **Builds for registered targets.** With flat kernels, a build never stops on a fault, and it gives
an image exactly when its files are there and its numbers are small enough: secure-boot metadata only
for a PE image, a region that 32 bits can count, and a kernel or sections that end early enough. -/
theorem image_flat_exists_iff {files : FileSystem} {codecs : Codecs} {configuration : Configuration}
    (ht : configuration.target ∈ Target.registry)
    (hfiles : files.Bounded)
    (hshort : ∀ text ∈ configuration.pathPrefix, (Bytes.ofText text).length < Size.bufferBound) :
    FaultFree (image files codecs (.flat files) configuration) ∧
      ((∃ out, image files codecs (.flat files) configuration = .ok out) ↔
        Buildable files configuration) := by
  have hregular := Target.regular_of_mem_registry ht
  exact ⟨faultFree_image hregular hfiles hshort, exists_image_iff hregular hfiles⟩

/-- The image of the small build with a flat kernel: the three bytes of the kernel, filled up to a word, and
the region as before. -/
def Sample.flatImage : Bytes := [1, 2, 3, 0] ++ image.drop 4

theorem image_flat_exists_iff_sample :
    image Sample.files ⟨.identity, .identity⟩ (.flat Sample.files) Sample.configuration =
      .ok Sample.flatImage ∧
    Sample.configuration.target ∈ Target.registry ∧ Sample.files.Bounded ∧
      (FaultFree (image Sample.files ⟨.identity, .identity⟩ (.flat Sample.files)
        Sample.configuration) ∧
      ((∃ out, image Sample.files ⟨.identity, .identity⟩ (.flat Sample.files) Sample.configuration =
        .ok out) ↔ Buildable Sample.files Sample.configuration)) ∧
      Buildable Sample.files Sample.configuration := by
  have ht : Sample.configuration.target ∈ Target.registry := List.mem_cons_self ..
  have hfiles : Sample.files.Bounded := by
    intro path content hcontent
    cases hcontent
    decide
  have hshort : ∀ text ∈ Sample.configuration.pathPrefix,
      (Bytes.ofText text).length < Size.bufferBound := by decide +kernel
  have hbuild : image Sample.files ⟨.identity, .identity⟩ (.flat Sample.files) Sample.configuration =
      .ok Sample.flatImage := toOption_eq_some_iff.1 (by decide +kernel)
  -- The image is known, so the conditions follow from it.
  have hiff := @image_flat_exists_iff Sample.files ⟨.identity, .identity⟩ Sample.configuration ht hfiles
    hshort
  exact ⟨hbuild, ht, hfiles, hiff, hiff.2.1 ⟨_, hbuild⟩⟩

end Build

end BootImage
