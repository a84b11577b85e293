import BootImage.Proofs.Build.Stages
import BootImage.Proofs.Pe.Image

/-!
# What an image holds

The core image of a build is found in its image behind the headers, if there are any: the first bytes
of the kernel that the loader gave, as many as it reported, and the module region beside them. A
kernel that walks the region finds every input of the configuration, in the order of emission and
with its whole content.

- `coreOffset`: where the core image starts; `prefix_of_wrap`: that it does.
- `image_holds_region`: the kernel and the region in an image, read back.
-/

namespace BootImage.Build

/-! ## §1 The core image in its container -/

/-- The offset of the core image in an image: the start, or behind the headers of a PE application. -/
def coreOffset (t : Target) : Nat :=
  match t.container with
  | .raw => 0
  | .pe _ => Pe.headerSize t.format.word

/-- A raw image is its core image, unless its kernel ends too late. -/
theorem wrap_raw_eq_ok_iff {files : FileSystem} {t : Target} {core out : Bytes} {layout : Kernel.Layout}
    {modulesSize : Nat} {metadata : Option Path} (ht : t.container = .raw) :
    Container.wrap files t core layout modulesSize metadata = .ok out ↔
      metadata = none ∧ Raw.checkSize t layout = .ok () ∧ out = core := by
  -- A raw image cannot carry metadata.
  have hpe : ¬ t.isPe := by
    rw [Target.isPe, ht]
    exact Bool.false_ne_true
  -- What is left is the check of the ceiling.
  rw [Container.wrap, bind_eq_ok_iff, ht]
  refine ⟨?_, ?_⟩
  · intro h
    rcases h with ⟨_, hmetadata, h⟩
    obtain ⟨_, hsize, h⟩ := bind_eq_ok_iff.1 h
    cases h
    exact ⟨(checkMetadata_eq_ok_iff.1 hmetadata).resolve_right hpe, hsize, rfl⟩
  · intro h
    rcases h with ⟨rfl, hsize, rfl⟩
    exact ⟨(), rfl, bind_eq_ok_iff.2 ⟨(), hsize, rfl⟩⟩

/-- Every container holds its core image as it was given, at the offset of core images. -/
theorem prefix_of_wrap {files : FileSystem} {t : Target} {core out : Bytes} {layout : Kernel.Layout}
    {modulesSize : Nat} {metadata : Option Path}
    (h : Container.wrap files t core layout modulesSize metadata = .ok out) :
    ∃ rest, out.drop (coreOffset t) = core ++ rest := by
  cases ht : t.container with
  | raw =>
    -- There is nothing around a raw image.
    obtain ⟨-, -, rfl⟩ := (wrap_raw_eq_ok_iff ht).1 h
    rw [coreOffset, ht]
    exact ⟨[], (List.append_nil _).symm⟩
  | pe machine =>
    -- The headers of a PE image are exactly as long as the offset.
    obtain ⟨-, -, headers, hheaders, rfl⟩ := (Pe.wrap_pe_eq_ok_iff ht).1 h
    rw [coreOffset, ht]
    exact ⟨_, List.drop_left' (Pe.length_headers_exact hheaders)⟩

/-! ## §2 The module region -/

section Region

variable {files : FileSystem} {configuration : Configuration}

/-- **The region of a build is read back**: its info record, and one block for each input. -/
theorem Plannable.read?_region (h : Plannable files configuration) :
    ModuleRegion.Info.read? configuration.target.format (region files configuration) =
        some ⟨infoMagic, configuration.target.format.word.infoSize,
          (region files configuration).length⟩ ∧
      ModuleRegion.read? configuration.target.format (region files configuration) =
        some (configuration.inputs.listed.map fun input =>
          ModuleRegion.blockOf files (input.payload files configuration.target.format.word)) := by
  -- Every input states the distance to the next one.
  have hpaced : ∀ p ∈ (exactPlan files configuration).entries.map (·.payload),
      ModuleRegion.Payload.Paced configuration.target.format.word p := by
    rw [payloads_exactPlan, List.forall_mem_map]
    intro input _
    exact ModuleRegion.paced_payload _ input
  -- The region was written over zeros, so behind each content there are only zeros.
  obtain ⟨hinfo, hblocks⟩ :=
    ModuleRegion.read?_regionOver tight_exactPlan h.counted h.writable hpaced
  rw [payloads_exactPlan, List.map_map] at hblocks
  refine ⟨?_, hblocks⟩
  rw [h.length_region]
  exact hinfo

end Region

/-- **The kernel and the region in an image.** Without a stub and without a size to patch in, an image
holds at the offset of its core image the first bytes that the loader gave, as many as it reported,
and a module region, the region in front for targets that want it there. The info record of the
region is the one that was meant, and a walk from the first block to the end of the region finds
exactly the inputs of the configuration, in the order of emission: the tag of each, and its content
with nothing but zeros behind it. -/
theorem image_holds_region {files : FileSystem} {codecs : Codecs} {loader : Kernel.Loader}
    {configuration : Configuration} {out : Bytes}
    (hstub : configuration.target.hasStub = false)
    (hpatch : configuration.target.carries .totalModuleSize = false)
    (h : image files codecs loader configuration = .ok out) :
    ∃ loaded region rest,
      loader.load ⟨configuration.kernelFile, region.length, configuration.target⟩ = .ok loaded ∧
      loaded.layout.kernelSize ≤ loaded.image.length ∧
      out.drop (coreOffset configuration.target) =
        ModuleRegion.assemble configuration.target (loaded.image.take loaded.layout.kernelSize) region ++
          rest ∧
      ModuleRegion.Info.read? configuration.target.format region =
        some ⟨infoMagic, configuration.target.format.word.infoSize, region.length⟩ ∧
      ModuleRegion.read? configuration.target.format region =
        some (configuration.inputs.listed.map fun input =>
          ModuleRegion.blockOf files (input.payload files configuration.target.format.word)) ∧
      ∀ input ∈ configuration.inputs.listed, ∃ content, input.source.content? files = some content := by
  obtain ⟨hplannable, loaded, hloaded, husable, hwrap⟩ :=
    (image_noStub_eq_ok_iff hstub hpatch).1 h
  -- The core image lies in its container as it is, and the region in the core image.
  obtain ⟨rest, hrest⟩ := prefix_of_wrap hwrap
  obtain ⟨hinfo, hblocks⟩ := hplannable.read?_region
  refine ⟨loaded, region files configuration, rest, ?_, husable.complete, hrest, hinfo, hblocks,
    hplannable.available⟩
  rw [hplannable.length_region]
  exact hloaded

/-! ### A small build -/

namespace Sample

/-- A file system in which every file holds the same three bytes. -/
def files : FileSystem := ⟨fun _ => .ok (.regular [1, 2, 3])⟩

/-- A loader that leaves one byte behind a kernel of four. -/
def loader : Kernel.Loader := .fixed (.ok ⟨[0xaa, 0xbb, 0xcc, 0xdd, 0xee], { kernelSize := 4 }⟩)

/-- A configuration with a module, a public key, an early configuration and a prefix. -/
def configuration : Configuration where
  target := Target.multiboot
  directory := ⟨"d"⟩
  modules := [⟨"d/a.mod"⟩]
  publicKeys := [⟨"k"⟩]
  config := some ⟨"c"⟩
  pathPrefix := some "/p"

/-- The image of the small build: the kernel, the info record, and four blocks. -/
def image : Bytes := [
  0xaa, 0xbb, 0xcc, 0xdd, 0x6d, 0x69, 0x6d, 0x67, 12, 0, 0, 0, 60, 0, 0, 0,
  0, 0, 0, 0, 12, 0, 0, 0, 1, 2, 3, 0,
  4, 0, 0, 0, 11, 0, 0, 0, 1, 2, 3, 0,
  2, 0, 0, 0, 12, 0, 0, 0, 1, 2, 3, 0,
  3, 0, 0, 0, 12, 0, 0, 0, 0x2f, 0x70, 0, 0]

end Sample

theorem image_holds_region_sample :
    image Sample.files ⟨.identity, .identity⟩ Sample.loader Sample.configuration = .ok Sample.image ∧
    ∃ loaded region rest,
      Sample.loader.load ⟨Sample.configuration.kernelFile, region.length, Target.multiboot⟩ =
          .ok loaded ∧
        loaded.layout.kernelSize ≤ loaded.image.length ∧
        Sample.image.drop (coreOffset Target.multiboot) = ModuleRegion.assemble Target.multiboot
          (loaded.image.take loaded.layout.kernelSize) region ++ rest ∧
        ModuleRegion.Info.read? Target.multiboot.format region =
          some ⟨infoMagic, WordWidth.w32.infoSize, region.length⟩ ∧
        ModuleRegion.read? Target.multiboot.format region =
          some (Sample.configuration.inputs.listed.map fun input =>
            ModuleRegion.blockOf Sample.files (input.payload Sample.files .w32)) ∧
        ∀ input ∈ Sample.configuration.inputs.listed,
          ∃ content, input.source.content? Sample.files = some content := by
  have hbuild : image Sample.files ⟨.identity, .identity⟩ Sample.loader Sample.configuration =
      .ok Sample.image := toOption_eq_some_iff.1 (by decide +kernel)
  exact ⟨hbuild, image_holds_region rfl rfl hbuild⟩

end BootImage.Build
