import BootImage.Proofs.Build.Flat
import BootImage.Proofs.Build.RegionSize
import BootImage.Proofs.ModuleRegion.Agreement
import BootImage.Proofs.Pe.Agreement
import BootImage.Proofs.Pe.Entry

/-!
# Builds from inputs of the same sizes

Whether a build gives an image, how long the image is, and every byte of it that no input was copied to
depend on the sizes of the inputs alone. Two builds that find inputs of the same sizes at the same
places go through the same stages; what they put together agrees outside of the contents.

- `Alike`: two builds whose inputs have the same sizes.
- `contentRanges`: the ranges of an image that hold content; `apart_front`, `apart_info`, `apart_header`:
  no header is in one of them.
- `agree_core`, `agree_wrap`: what alike builds put together; `image_of_alike`: one build follows the
  other.
- `images_agree`: success and images of alike builds.
-/

namespace BootImage

/-! ## §1 Alike builds -/

/-- A condition on all members of a list carries over to a list of partners. -/
theorem forall_mem_iff_of_forall₂ {α β : Type} {R : α → β → Prop} {p : α → Prop} {q : β → Prop}
    (hiff : ∀ a b, R a b → (p a ↔ q b)) {first : List α} {second : List β}
    (h : first.Forall₂ R second) : (∀ a ∈ first, p a) ↔ ∀ b ∈ second, q b := by
  -- By induction on the pairs.
  induction h with
  | nil => exact iff_of_true (List.forall_mem_nil _) (List.forall_mem_nil _)
  | cons hpair _ ih => rw [List.forall_mem_cons, List.forall_mem_cons, hiff _ _ hpair, ih]

namespace Build

/-- Two builds with one configuration but for the text of the prefix, whose inputs have the same sizes:
the files of the payloads, the prefix, the secure-boot metadata, the kernel and its relocation table. A
file that is missing for one build is missing for the other. The kernels are compared as they are asked
for, so it does not matter what the loaders would answer to other requests. -/
structure Alike (files₁ files₂ : FileSystem) (loader₁ loader₂ : Kernel.Loader)
    (configuration₁ configuration₂ : Configuration) : Prop where
  configuration : configuration₂ =
    { configuration₁ with pathPrefix := configuration₂.pathPrefix }
  pathPrefix : Bytes.SameLength (configuration₁.pathPrefix.map Bytes.ofText)
    (configuration₂.pathPrefix.map Bytes.ofText)
  inputs : ∀ input ∈ configuration₁.inputs.files,
    Bytes.SameLength (files₁.content? input.2) (files₂.content? input.2)
  metadata : ∀ path ∈ configuration₁.metadata,
    Bytes.SameLength (files₁.content? path) (files₂.content? path)
  kernel : ∀ plan, regionPlan files₁ configuration₁ = .ok plan → Kernel.AnswersAlike
    (loader₁.load (kernelRequest configuration₁ plan)) (loader₂.load (kernelRequest configuration₁ plan))

namespace Alike

variable {files₁ files₂ : FileSystem} {loader₁ loader₂ : Kernel.Loader}
  {configuration₁ configuration₂ : Configuration}
  (h : Alike files₁ files₂ loader₁ loader₂ configuration₁ configuration₂)
include h

theorem target_eq : configuration₂.target = configuration₁.target := by rw [h.configuration]

theorem kernelFile_eq : configuration₂.kernelFile = configuration₁.kernelFile := by
  rw [h.configuration]
  rfl

theorem metadata_eq : configuration₂.metadata = configuration₁.metadata := by rw [h.configuration]

theorem files_eq : configuration₂.inputs.files = configuration₁.inputs.files := by
  rw [h.configuration]
  rfl

/-- The inputs are alike one by one. -/
theorem listed : configuration₁.inputs.listed.Forall₂ (Input.Alike files₁ files₂)
    configuration₂.inputs.listed := by
  rw [PayloadInputs.listed_eq, PayloadInputs.listed_eq, h.files_eq]
  -- The files come first, and the prefix last.
  refine List.rel_append ?files ?text
  case files =>
    rw [List.forall₂_map_left_iff, List.forall₂_map_right_iff, List.forall₂_same]
    exact fun input hinput => ⟨rfl, h.inputs input hinput⟩
  case text =>
    have htext := h.pathPrefix
    show (configuration₁.pathPrefix.toList.map _).Forall₂ _ (configuration₂.pathPrefix.toList.map _)
    cases h₁ : configuration₁.pathPrefix <;> cases h₂ : configuration₂.pathPrefix <;>
      simp [h₁, h₂, Bytes.SameLength] at htext ⊢
    exact ⟨rfl, by simp [PayloadSource.content?, Bytes.SameLength, htext]⟩

/-- The regions of alike builds have the same size, since only the lengths of the inputs go into it. -/
theorem totalSize_eq : (exactPlan files₂ configuration₂).totalSize =
    (exactPlan files₁ configuration₁).totalSize := by
  simp only [exactPlan, PayloadInputs.regionSize, h.target_eq,
    ModuleRegion.extent_payload_alike h.listed]

/-- The request for the kernel depends on nothing that differs. -/
theorem kernelRequest_eq : kernelRequest configuration₂ (exactPlan files₂ configuration₂) =
    kernelRequest configuration₁ (exactPlan files₁ configuration₁) := by
  rw [kernelRequest, kernelRequest, h.kernelFile_eq, h.totalSize_eq, h.target_eq]

/-- What can be planned for one build can be planned for the other. -/
theorem plannable_iff : Plannable files₂ configuration₂ ↔ Plannable files₁ configuration₁ := by
  have hmetadata : (configuration₂.metadata = none ∨ configuration₂.target.isPe) ↔
      (configuration₁.metadata = none ∨ configuration₁.target.isPe) := by
    rw [h.metadata_eq, h.target_eq]
  have hcounted : (exactPlan files₂ configuration₂).totalSize < Size.bound32 ↔
      (exactPlan files₁ configuration₁).totalSize < Size.bound32 := by
    rw [h.totalSize_eq]
  -- Every input of the one build has its partner in the other.
  have havailable : (∀ input ∈ configuration₁.inputs.listed,
        ∃ content, input.source.content? files₁ = some content) ↔
      ∀ input ∈ configuration₂.inputs.listed, ∃ content, input.source.content? files₂ = some content :=
    forall_mem_iff_of_forall₂ (fun _ _ hinput => hinput.content.exists_iff) h.listed
  exact ⟨fun hplannable => ⟨hmetadata.1 hplannable.metadata, havailable.2 hplannable.available,
      hcounted.1 hplannable.counted⟩,
    fun hplannable => ⟨hmetadata.2 hplannable.metadata, havailable.1 hplannable.available,
      hcounted.2 hplannable.counted⟩⟩

/-- It does not matter which of the builds comes first. -/
theorem symm : Alike files₂ files₁ loader₂ loader₁ configuration₂ configuration₁ := by
  refine ⟨?configuration, h.pathPrefix.symm, ?inputs, ?metadata, ?kernel⟩
  case configuration => rw [h.configuration]
  case inputs =>
    rw [h.files_eq]
    exact fun input hinput => (h.inputs input hinput).symm
  case metadata =>
    rw [h.metadata_eq]
    exact fun path hpath => (h.metadata path hpath).symm
  case kernel =>
    -- A kernel is asked for only behind a plan, and both builds have the same plan or none.
    intro plan hplan
    obtain ⟨hplannable, rfl⟩ := regionPlan_eq_ok_iff.1 hplan
    rw [h.kernelRequest_eq]
    exact (h.kernel _ (regionPlan_eq_ok_iff.2 ⟨h.plannable_iff.1 hplannable, rfl⟩)).symm

end Alike

/-! ## §2 What alike builds put together -/

/-- The ranges of a core image at an offset that hold content: the kernel, and the contents of the
region. -/
def coreRanges (t : Target) (plan : ModuleRegion.Plan) (kernelSize start : Nat) : List ByteRange :=
  ⟨start + kernelOffset t plan.totalSize, kernelSize⟩ ::
    plan.contentRanges (start + regionOffset t kernelSize)

/-- The ranges behind the core image that hold content: none in a raw image, and the secure-boot metadata
and the relocation table in a PE image. -/
def containerRanges (t : Target) (layout : Kernel.Layout) (modulesSize : Nat) (metadata : Option Nat) :
    List ByteRange :=
  match t.container with
  | .raw => []
  | .pe _ =>
    match Pe.Plan.make t (layout.kernelSize + modulesSize) layout modulesSize metadata with
    | .ok plan => plan.contentRanges metadata layout.relocationSize
    | .error _ => []

/-- The offset of the module region in an image with a kernel of `kernelSize` bytes. -/
def regionStart (t : Target) (kernelSize : Nat) : Nat := coreOffset t + regionOffset t kernelSize

/-- The ranges of an image that hold content: those of its core image, and those of its container behind
it. -/
def contentRanges (files : FileSystem) (configuration : Configuration) (plan : ModuleRegion.Plan)
    (layout : Kernel.Layout) : List ByteRange :=
  let t := configuration.target
  coreRanges t plan layout.kernelSize (coreOffset t) ++
    containerRanges t layout plan.totalSize
      (configuration.metadata.map fun path => (files.contentAt path).length)

theorem containerRanges_raw {t : Target} {layout : Kernel.Layout} {modulesSize : Nat}
    {metadata : Option Nat} (ht : t.container = .raw) :
    containerRanges t layout modulesSize metadata = [] := by
  rw [containerRanges, ht]

/-- In a PE image the plan names the ranges behind the core image, where a feasible layout has one. -/
theorem containerRanges_pe {t : Target} {machine : Machine} {layout : Kernel.Layout} {modulesSize : Nat}
    {metadata : Option Nat} (ht : t.container = .pe machine)
    (h : Pe.Plan.Feasible t (layout.kernelSize + modulesSize) layout modulesSize metadata) :
    containerRanges t layout modulesSize metadata =
      (Pe.Plan.exact t (layout.kernelSize + modulesSize) layout modulesSize metadata).contentRanges
        metadata layout.relocationSize := by
  rw [containerRanges, ht]
  simp only [Pe.Plan.make_of_feasible h]

section Stages

variable {files₁ files₂ : FileSystem} {loader₁ loader₂ : Kernel.Loader}
  {configuration₁ configuration₂ : Configuration} {ranges : List ByteRange} {a b : Bytes}

/-- The regions of alike builds agree outside of the contents. -/
theorem agree_region (h : Alike files₁ files₂ loader₁ loader₂ configuration₁ configuration₂)
    (hagree : Bytes.AgreeOff ranges a b) :
    Bytes.AgreeOff (ranges ++ (exactPlan files₁ configuration₁).contentRanges a.length)
      (a ++ region files₁ configuration₁) (b ++ region files₂ configuration₂) := by
  -- The region starts with its info record, so there is room for it.
  have hinfo : configuration₁.target.format.word.infoSize ≤ (Bytes.zeros
      (exactPlan files₁ configuration₁).totalSize).length := by
    rw [Bytes.length_zeros, tight_exactPlan]
    exact Nat.le_add_right _ _
  have hrecord : (a ++ ModuleRegion.infoRecord configuration₁.target.format
      (Bytes.zeros (exactPlan files₁ configuration₁).totalSize)
      (exactPlan files₁ configuration₁).totalSize).length =
        a.length + configuration₁.target.format.word.infoSize := by
    rw [List.length_append, ModuleRegion.length_infoRecord hinfo]
  have hformat₁ : (exactPlan files₁ configuration₁).format = configuration₁.target.format := rfl
  have hformat₂ : (exactPlan files₂ configuration₂).format = configuration₁.target.format := by
    rw [exactPlan, h.target_eq]
  -- The info records are equal, and the blocks agree one by one.
  rw [region, region, ModuleRegion.Plan.regionOver_zeros tight_exactPlan,
    ModuleRegion.Plan.regionOver_zeros tight_exactPlan, payloads_exactPlan, payloads_exactPlan,
    h.totalSize_eq, hformat₁, hformat₂, h.target_eq, ← List.append_assoc, ← List.append_assoc]
  exact ModuleRegion.agree_blocks h.listed (hagree.append_same _) hrecord

/-- The core images of alike builds agree outside of the kernel and of the contents of the region. -/
theorem agree_core (h : Alike files₁ files₂ loader₁ loader₂ configuration₁ configuration₂)
    (hplannable : Plannable files₁ configuration₁) {loaded kernel : Kernel.Loaded}
    (hkernel : loaded.Alike kernel)
    (husable : loaded.Usable (exactPlan files₁ configuration₁).totalSize)
    (hagree : Bytes.AgreeOff ranges a b) :
    Bytes.AgreeOff (ranges ++ coreRanges configuration₁.target (exactPlan files₁ configuration₁)
        loaded.layout.kernelSize a.length)
      (a ++ core files₁ configuration₁ loaded) (b ++ core files₂ configuration₂ kernel) := by
  have hblob := husable.length_blob
  -- Only the first bytes of what was loaded are the kernel, as many for both.
  have hblobs : loaded.blob.length = kernel.blob.length := by
    rw [Kernel.Loaded.blob, Kernel.Loaded.blob, List.length_take, List.length_take, hkernel.length,
      hkernel.layout.kernelSize]
  have hregion := hplannable.length_region
  rw [core, core, ModuleRegion.assemble, ModuleRegion.assemble, h.target_eq, coreRanges, kernelOffset,
    regionOffset]
  split
  · have hall := (agree_region h hagree).append_content hblobs
    rw [List.length_append, hregion, hblob, List.append_assoc, List.append_assoc, List.append_assoc]
      at hall
    -- The order of the ranges does not matter.
    refine hall.mono fun range hrange => ?_
    simp only [List.mem_append, List.mem_cons, List.not_mem_nil, or_false] at hrange ⊢
    tauto
  · have hall := agree_region h (hagree.append_content hblobs)
    rw [List.length_append, hblob, List.append_assoc, List.append_assoc, List.append_assoc] at hall
    exact hall

/-- A value that can be patched into one buffer can be patched into a buffer of the same length. -/
theorem agree_patch {t : Target} {field : PatchField} {value : Nat} {buf₁ buf₂ out₁ : Bytes}
    (hlen : buf₁.length = buf₂.length) (h : t.patch field buf₁ value = .ok out₁) :
    ∃ out₂, t.patch field buf₂ value = .ok out₂ ∧ ∀ a b : Bytes, a.length = b.length →
      Bytes.AgreeOff ranges (a ++ buf₁) (b ++ buf₂) → Bytes.AgreeOff ranges (a ++ out₁) (b ++ out₂) := by
  unfold Target.patch at h ⊢
  split at h
  · cases h
    exact ⟨buf₂, rfl, fun _ _ _ hagree => hagree⟩
  · rename_i offset _
    obtain ⟨hfit, rfl⟩ := ByteOrder.put_eq_ok_iff.1 h
    refine ⟨_, ByteOrder.put_eq_ok_iff.2 ⟨hlen ▸ hfit, rfl⟩, fun a b hab hagree => ?_⟩
    -- The same bytes are put at the same offset, so nothing new can differ.
    have hroom : a.length + offset + (t.format.order.encode 4 value).length ≤ (a ++ buf₁).length := by
      rw [ByteOrder.length_encode, List.length_append]
      omega
    have hover := hagree.overlay hroom
    rw [Bytes.overlay_append_right (Nat.le_add_right _ _), Nat.add_sub_cancel_left, hab,
      Bytes.overlay_append_right (Nat.le_add_right _ _), Nat.add_sub_cancel_left] at hover
    exact hover

/-- Alike builds plan the same room for their secure-boot metadata. -/
theorem metadataSizes_alike {metadata : Option Path}
    (h : ∀ path ∈ metadata, Bytes.SameLength (files₁.content? path) (files₂.content? path)) :
    (metadata.map fun path => (files₂.contentAt path).length) =
      metadata.map fun path => (files₁.contentAt path).length := by
  cases metadata with
  | none => rfl
  | some path => exact congrArg some (h path rfl).length_getD.symm

/-- **Wrapping**: if one of two core images with the same sizes can be wrapped, so can the other, and
the images agree outside of what the core images and their containers hold. -/
theorem agree_wrap {t : Target} {finished₁ finished₂ out₁ : Bytes} {layout other : Kernel.Layout}
    {modulesSize : Nat} {metadata : Option Path} (hlayout : layout.Alike other)
    (hmetadata : ∀ path ∈ metadata, Bytes.SameLength (files₁.content? path) (files₂.content? path))
    (hlength : finished₁.length = layout.kernelSize + modulesSize)
    (hagree : ∀ front : Bytes, front.length = coreOffset t →
      Bytes.AgreeOff ranges (front ++ finished₁) (front ++ finished₂))
    (h : Container.wrap files₁ t finished₁ layout modulesSize metadata = .ok out₁) :
    ∃ out₂, Container.wrap files₂ t finished₂ other modulesSize metadata = .ok out₂ ∧
      Bytes.AgreeOff (ranges ++ containerRanges t layout modulesSize
        (metadata.map fun path => (files₁.contentAt path).length)) out₁ out₂ := by
  -- A raw image adds nothing. A PE image adds headers, which are equal, and what lies behind the core
  -- image.
  cases ht : t.container with
  | raw =>
    obtain ⟨hnone, hsize, rfl⟩ := (wrap_raw_eq_ok_iff ht).1 h
    -- The ceiling is checked for sizes that are the same.
    have hsame : Raw.checkSize t other = Raw.checkSize t layout := by
      simp only [Raw.checkSize, hlayout.kernelSize, hlayout.bssSize]
    have hoffset : coreOffset t = 0 := by rw [coreOffset, ht]
    rw [containerRanges_raw ht, List.append_nil]
    exact ⟨finished₂, (wrap_raw_eq_ok_iff ht).2 ⟨hnone, hsame.trans hsize, rfl⟩,
      hagree [] hoffset.symm⟩
  | pe machine =>
    obtain ⟨hfiles, hfeasible, headers, hheaders, rfl⟩ := (Pe.wrap_pe_eq_ok_iff ht).1 h
    have hfront : headers.length = coreOffset t := by
      rw [coreOffset, ht]
      exact Pe.length_headers_exact hheaders
    have hfinished : finished₂.length = finished₁.length := by
      have hlen := (hagree headers hfront).length
      rw [List.length_append, List.length_append] at hlen
      omega
    have hsizes := metadataSizes_alike hmetadata
    have hfiles₂ : ∀ path ∈ metadata, ∃ content, files₂.content? path = some content :=
      fun path hpath => (hmetadata path hpath).exists_iff.1 (hfiles path hpath)
    -- The layout and the headers are the same for both.
    refine ⟨_, (Pe.wrap_pe_eq_ok_iff ht).2 ⟨hfiles₂, ?feasible, headers, ?headers, rfl⟩, ?agree⟩
    case feasible =>
      rw [hfinished, hsizes]
      exact hfeasible.alike hlayout
    case headers =>
      rw [hfinished, hsizes, ← Pe.Plan.exact_alike hlayout, ← Pe.Plan.headers_alike hlayout]
      exact hheaders
    case agree =>
      have hcontent : (metadata.map files₁.contentAt).map List.length =
          metadata.map fun path => (files₁.contentAt path).length := Option.map_map ..
      have hcontent₂ : (metadata.map files₂.contentAt).map List.length =
          metadata.map fun path => (files₂.contentAt path).length := Option.map_map ..
      have hbehind := @Pe.agree_behindCore layout other t finished₁.length modulesSize ranges
        (headers ++ finished₁) (headers ++ finished₂) (metadata.map files₁.contentAt)
        (metadata.map files₂.contentAt) hlayout (hagree headers hfront)
        (by rw [List.length_append, Pe.length_headers_exact hheaders])
        (by rw [Bytes.SameLength, hcontent, hcontent₂, hsizes]) hfeasible.holdsKernel
      rw [hcontent, hcontent₂] at hbehind
      rw [containerRanges_pe ht (hlength ▸ hfeasible), ← hlength, hfinished, ← List.append_assoc,
        ← List.append_assoc]
      exact hbehind

end Stages

/-! ## §3 Alike builds give alike images -/

section Image

variable {files₁ files₂ : FileSystem} {codecs₁ codecs₂ : Codecs} {loader₁ loader₂ : Kernel.Loader}
  {configuration₁ configuration₂ : Configuration} {out₁ out₂ : Bytes}

/-- **One build follows the other**: it gives an image as well, with the same bytes outside of the
contents. -/
theorem image_of_alike (h : Alike files₁ files₂ loader₁ loader₂ configuration₁ configuration₂)
    (hstub : configuration₁.target.hasStub = false)
    (himage : image files₁ codecs₁ loader₁ configuration₁ = .ok out₁) :
    ∃ loaded out₂,
      loader₁.load (kernelRequest configuration₁ (exactPlan files₁ configuration₁)) = .ok loaded ∧
      image files₂ codecs₂ loader₂ configuration₂ = .ok out₂ ∧
      Bytes.AgreeOff (contentRanges files₁ configuration₁ (exactPlan files₁ configuration₁)
        loaded.layout) out₁ out₂ := by
  obtain ⟨hplannable, loaded, hloaded, husable, unpacked, hunpacked, finished, hfinished, hwrap⟩ :=
    image_eq_ok_iff.1 himage
  rw [unpackedCore_noStub hstub hplannable husable] at hunpacked
  cases hunpacked
  rw [finishedCore_noStub hstub] at hfinished
  -- The other build plans the same sizes, so it asks for its kernel in the same way.
  have hplannable₂ := h.plannable_iff.2 hplannable
  have hstub₂ : configuration₂.target.hasStub = false := h.target_eq ▸ hstub
  have hplan := regionPlan_eq_ok_iff.2 ⟨hplannable, rfl⟩
  -- The answers to one request are alike, so there is a kernel for the other build.
  obtain ⟨kernel, hkernel, hpair⟩ := (h.kernel _ hplan).exists_ok hloaded
  have husable₂ : kernel.Usable (exactPlan files₂ configuration₂).totalSize :=
    h.totalSize_eq ▸ hpair.usable husable
  have hcores : (core files₁ configuration₁ loaded).length =
      (core files₂ configuration₂ kernel).length := by
    rw [hplannable.length_core husable, hplannable₂.length_core husable₂, hpair.layout.kernelSize,
      h.totalSize_eq]
  -- The size of the region is patched into both core images, at the same place.
  obtain ⟨finished₂, hfinished₂, hpatched⟩ := agree_patch hcores hfinished
  obtain ⟨out₂, hwrap₂, hagree⟩ := agree_wrap hpair.layout h.metadata
    ((Target.length_of_patch hfinished).trans (hplannable.length_core husable))
    (fun front hfront => hpatched front front rfl
      (hfront ▸ agree_core h hplannable hpair husable (Bytes.AgreeOff.refl [] front))) hwrap
  have hunpacked₂ := unpackedCore_noStub hstub₂ hplannable₂ husable₂
  rw [← h.kernelRequest_eq] at hkernel
  refine ⟨loaded, out₂, hloaded, image_eq_ok_iff.2 ⟨hplannable₂, kernel, hkernel, husable₂, _, hunpacked₂,
    finished₂, ?_, ?_⟩, hagree⟩
  · rw [finishedCore_noStub hstub₂, h.target_eq, h.totalSize_eq]
    exact hfinished₂
  · rw [h.target_eq, h.totalSize_eq, h.metadata_eq]
    exact hwrap₂

end Image

/-! ## §4 Headers hold no content -/

section Ranges

variable {files : FileSystem} {configuration : Configuration} {layout : Kernel.Layout}
  {plan : ModuleRegion.Plan} {t : Target}

/-- What a container adds lies behind the whole core image. -/
theorem le_offset_of_mem_containerRanges {modulesSize : Nat} {metadata : Option Nat} :
    ∀ range ∈ containerRanges t layout modulesSize metadata,
      coreOffset t + (layout.kernelSize + modulesSize) ≤ range.offset := by
  cases ht : t.container with
  | raw =>
    rw [containerRanges_raw ht]
    exact fun range hrange => absurd hrange List.not_mem_nil
  | pe machine =>
    rw [containerRanges, coreOffset, ht]
    simp only
    -- There are ranges only where there is a plan.
    split
    · rename_i hplan
      obtain ⟨hfeasible, rfl⟩ := Pe.Plan.make_eq_ok_iff.1 hplan
      exact Pe.Plan.le_offset_of_mem_contentRanges hfeasible.holdsKernel
    · exact fun range hrange => absurd hrange List.not_mem_nil

/-- No content lies in the headers of an image. -/
theorem apart_front : ∀ range ∈ contentRanges files configuration plan layout,
    range.Apart 0 (coreOffset configuration.target) := by
  intro range hrange
  refine .inr ?_
  rw [Nat.zero_add]
  simp only [contentRanges, coreRanges, List.cons_append, List.mem_cons, List.mem_append,
    ModuleRegion.Plan.contentRanges, List.mem_map] at hrange
  -- The kernel, a content of the region, or something of the container.
  rcases hrange with rfl | ⟨entry, -, rfl⟩ | hrange
  · exact Nat.le_add_right _ _
  · simp only [ModuleRegion.Entry.contentRange]
    omega
  · exact Nat.le_trans (Nat.le_add_right _ _) (le_offset_of_mem_containerRanges range hrange)

/-- The kernel and the contents of the container lie apart from the region, so a part of the region
that holds no content of the region holds none. -/
theorem apart_of_region {off len : Nat} (hwithin : off + len ≤ plan.totalSize)
    (h : ∀ entry ∈ plan.entries,
      (entry.contentRange (regionStart configuration.target layout.kernelSize)).Apart
        (regionStart configuration.target layout.kernelSize + off) len) :
    ∀ range ∈ contentRanges files configuration plan layout,
      range.Apart (regionStart configuration.target layout.kernelSize + off) len := by
  intro range hrange
  simp only [contentRanges, coreRanges, List.cons_append, List.mem_cons, List.mem_append,
    ModuleRegion.Plan.contentRanges, List.mem_map] at hrange
  -- The same three kinds, against a part of the region.
  rcases hrange with rfl | ⟨entry, hentry, rfl⟩ | hrange
  · -- Kernel and region lie side by side, in either order.
    simp only [ByteRange.Apart, kernelOffset, regionStart, regionOffset]
    split <;> omega
  · exact h entry hentry
  · have hbehind := le_offset_of_mem_containerRanges range hrange
    refine .inr (Nat.le_trans ?_ hbehind)
    rw [regionStart, regionOffset]
    split <;> omega

/-- The info record lies at the start of the region, in front of all contents. -/
theorem apart_info :
    ∀ range ∈ contentRanges files configuration (exactPlan files configuration) layout,
      range.Apart (regionStart configuration.target layout.kernelSize)
        configuration.target.format.word.infoSize := by
  have hinfo : 0 + configuration.target.format.word.infoSize ≤
      (exactPlan files configuration).totalSize := by
    rw [Nat.zero_add, tight_exactPlan]
    exact Nat.le_add_right _ _
  refine apart_of_region hinfo fun entry hentry => .inr ?_
  -- The entries start behind the info record.
  have hbehind := (ModuleRegion.bounds_of_mem_spread entry hentry).1
  simp only [ModuleRegion.Entry.contentRange]
  omega

/-- No header of a module lies in the content of any module, its own or another. -/
theorem apart_header : ∀ entry ∈ (exactPlan files configuration).entries,
    ∀ range ∈ contentRanges files configuration (exactPlan files configuration) layout,
      range.Apart (regionStart configuration.target layout.kernelSize + entry.offset)
        Payload.headerBytes := by
  intro entry hentry
  have hfits : ∀ p ∈ configuration.inputs.listed.map (·.payload files configuration.target.format.word),
      p.rawSize ≤ p.paddedSize := by
    rw [List.forall_mem_map]
    exact fun input _ => input.kind.le_paddedSize _ _
  -- Entries do not lie over one another, so this is left to the region.
  refine apart_of_region ?_ (ModuleRegion.apart_of_mem_spread hfits _ entry hentry)
  have hbounds := (ModuleRegion.bounds_of_mem_spread entry hentry).2
  have htight : (exactPlan files configuration).totalSize = configuration.target.format.word.infoSize +
    extent (configuration.inputs.listed.map (·.payload files configuration.target.format.word)) := rfl
  omega

end Ranges

/-! ## §5 Images -/

/-- **Images depend on sizes alone**, but for the bytes that hold content. Of two alike builds without a
stub, one gives an image exactly when the other does; the images have the same length and the same
headers, the same info record, and the same header in front of every content, and they agree everywhere
outside of the ranges that hold content. -/
theorem images_agree {files₁ files₂ : FileSystem} {codecs₁ codecs₂ : Codecs}
    {loader₁ loader₂ : Kernel.Loader} {configuration₁ configuration₂ : Configuration}
    (h : Alike files₁ files₂ loader₁ loader₂ configuration₁ configuration₂)
    (hstub : configuration₁.target.hasStub = false) :
    ((∃ out, image files₁ codecs₁ loader₁ configuration₁ = .ok out) ↔
      ∃ out, image files₂ codecs₂ loader₂ configuration₂ = .ok out) ∧
    ∀ out₁ out₂, image files₁ codecs₁ loader₁ configuration₁ = .ok out₁ →
      image files₂ codecs₂ loader₂ configuration₂ = .ok out₂ →
      ∃ plan loaded, regionPlan files₁ configuration₁ = .ok plan ∧
        loader₁.load (kernelRequest configuration₁ plan) = .ok loaded ∧
        out₁.length = out₂.length ∧
        out₁.take (coreOffset configuration₁.target) = out₂.take (coreOffset configuration₁.target) ∧
        out₁.slice (regionStart configuration₁.target loaded.layout.kernelSize)
            configuration₁.target.format.word.infoSize =
          out₂.slice (regionStart configuration₁.target loaded.layout.kernelSize)
            configuration₁.target.format.word.infoSize ∧
        (∀ entry ∈ plan.entries,
          out₁.slice (regionStart configuration₁.target loaded.layout.kernelSize + entry.offset)
              Payload.headerBytes =
            out₂.slice (regionStart configuration₁.target loaded.layout.kernelSize + entry.offset)
              Payload.headerBytes) ∧
        Bytes.AgreeOff (contentRanges files₁ configuration₁ plan loaded.layout) out₁ out₂ := by
  refine ⟨⟨?first, ?second⟩, ?agree⟩
  case first =>
    intro himage
    obtain ⟨out₁, himage⟩ := himage
    obtain ⟨-, out₂, -, himage₂, -⟩ := image_of_alike h hstub himage
    exact ⟨out₂, himage₂⟩
  case second =>
    intro himage
    obtain ⟨out₂, himage⟩ := himage
    obtain ⟨-, out₁, -, himage₁, -⟩ := image_of_alike h.symm (h.target_eq ▸ hstub) himage
    exact ⟨out₁, himage₁⟩
  case agree =>
    intro out₁ out₂ himage₁ himage₂
    -- The second build has one image only, so it is the one that follows the first.
    obtain ⟨loaded, built, hloaded, hbuilt, hagree⟩ := image_of_alike h hstub himage₁
    obtain rfl := Except.ok.inj (hbuilt.symm.trans himage₂)
    obtain ⟨hplannable, -⟩ := image_eq_ok_iff.1 himage₁
    refine ⟨_, loaded, regionPlan_eq_ok_iff.2 ⟨hplannable, rfl⟩, hloaded, hagree.length, ?_,
      hagree.slice_eq apart_info, fun entry hentry => hagree.slice_eq (apart_header entry hentry),
      hagree⟩
    have hfront := hagree.slice_eq apart_front
    rw [Bytes.slice_zero, Bytes.slice_zero] at hfront
    exact hfront

namespace Repeated

/-- A file system in which every file holds one byte many times. -/
def files (byte : UInt8) : FileSystem := ⟨fun _ => .ok (.regular (List.replicate 512 byte))⟩

/-- A configuration with a module, a public key, a prefix and secure-boot metadata. -/
def configuration (text : String) : Configuration where
  target := Target.efiAmd64
  directory := ⟨"p"⟩
  pathPrefix := some text
  modules := [⟨"linux.mod"⟩]
  publicKeys := [⟨"key.pgp"⟩]
  metadata := some ⟨"sbat.csv"⟩

theorem exists_image : ∃ out, image (files 0x90) ⟨.identity, .identity⟩ (.flat (files 0x90))
    (configuration "/p") = .ok out := by
  have ht : (configuration "/p").target ∈ Target.registry := by decide
  have hfiles : (files 0x90).Bounded := by
    intro path content hcontent
    cases hcontent
    decide +kernel
  -- The kernel, the module, the key and the metadata are all the same file.
  refine (exists_image_iff (Target.regular_of_mem_registry ht) hfiles).2
    ⟨⟨.inr rfl, ?available, ?counted⟩, fun _ _ => ⟨_, rfl⟩, ⟨_, rfl⟩, ?contained⟩
  case available =>
    intro input _
    rcases input with ⟨kind, path | content⟩ <;> exact ⟨_, rfl⟩
  case counted => decide +kernel
  case contained =>
    rw [contained_pe rfl]
    unfold Pe.Section.EndsWithin
    decide +kernel

theorem content?_files (byte : UInt8) (path : Path) :
    (files byte).content? path = some (List.replicate 512 byte) := rfl

theorem sameLength (byte other : UInt8) (path : Path) :
    Bytes.SameLength ((files byte).content? path) ((files other).content? path) := by
  rw [Bytes.SameLength, content?_files, content?_files, Option.map_some, Option.map_some,
    List.length_replicate, List.length_replicate]

theorem alike (byte other : UInt8) : Alike (files byte) (files other) (.flat (files byte))
    (.flat (files other)) (configuration "/p") (configuration "/q") :=
  ⟨rfl, by decide +kernel, fun _ _ => sameLength _ _ _, fun _ _ => sameLength _ _ _,
    fun _ _ => Kernel.Loader.flat_alike (sameLength _ _ _)⟩

/-- The kernel lies in an image as it is. -/
theorem slice_kernel {byte : UInt8} {text : String} {out : Bytes}
    (h : image (files byte) ⟨.identity, .identity⟩ (.flat (files byte)) (configuration text) = .ok out) :
    out.slice 0x400 512 = List.replicate 512 byte := by
  have hwords : WordWidth.w64.bytes ∣ (List.replicate 512 byte).length := by
    rw [List.length_replicate]
    decide
  have hcarries : (configuration text).target.carries .totalModuleSize = false := rfl
  obtain ⟨hplannable, loaded, hloaded, -⟩ := image_eq_ok_iff.1 h
  have hplan := regionPlan_eq_ok_iff.2 ⟨hplannable, rfl⟩
  -- Where the kernel lies does not depend on what is planned.
  generalize exactPlan (files byte) (configuration text) = plan at hplan hloaded
  have hkernel := Pe.slice_kernel_of_image rfl rfl hcarries h hplan hloaded
  obtain ⟨content, hcontent, -, rfl⟩ := Kernel.Loader.flat_eq_ok_iff.1 hloaded
  cases hcontent
  have hslice : out.slice (Pe.headerSize .w64 + 0) (Kernel.flatSize .w64 (List.replicate 512 byte)) =
    (Kernel.Loaded.ofFlat .w64 (List.replicate 512 byte) plan.totalSize).blob := hkernel
  rw [Kernel.flatSize_of_dvd hwords, Kernel.blob_ofFlat_of_dvd hwords, List.length_replicate] at hslice
  exact hslice

end Repeated

theorem images_agree_repeated :
    Alike (Repeated.files 0x90) (Repeated.files 0x91) (.flat (Repeated.files 0x90))
        (.flat (Repeated.files 0x91)) (Repeated.configuration "/p") (Repeated.configuration "/q") ∧
    ∃ out₁ out₂ plan,
      image (Repeated.files 0x90) ⟨.identity, .identity⟩ (.flat (Repeated.files 0x90))
          (Repeated.configuration "/p") = .ok out₁ ∧
      image (Repeated.files 0x91) ⟨.identity, .identity⟩ (.flat (Repeated.files 0x91))
          (Repeated.configuration "/q") = .ok out₂ ∧
      regionPlan (Repeated.files 0x90) (Repeated.configuration "/p") = .ok plan ∧
      plan.entries.length = 3 ∧ out₁ ≠ out₂ ∧ out₁.length = out₂.length ∧
      out₁.take 0x400 = out₂.take 0x400 ∧
      out₁.slice (0x400 + 512) 24 = out₂.slice (0x400 + 512) 24 ∧
      ∀ entry ∈ plan.entries, out₁.slice (0x400 + 512 + entry.offset) 8 =
        out₂.slice (0x400 + 512 + entry.offset) 8 := by
  have hboth := @images_agree _ _ ⟨.identity, .identity⟩ ⟨.identity, .identity⟩ _ _ _ _
    (Repeated.alike 0x90 0x91) rfl
  obtain ⟨out₁, himage₁⟩ := Repeated.exists_image
  obtain ⟨out₂, himage₂⟩ := hboth.1.1 ⟨out₁, himage₁⟩
  obtain ⟨plan, loaded, hplan, hloaded, hlength, hfront, hinfo, hheaders, -⟩ := hboth.2 _ _ himage₁ himage₂
  obtain ⟨-, rfl⟩ := regionPlan_eq_ok_iff.1 hplan
  -- The region starts behind the headers and the kernel.
  have hsize : loaded.layout.kernelSize = 512 := by
    obtain ⟨content, hcontent, -, rfl⟩ := Kernel.Loader.flat_eq_ok_iff.1 hloaded
    cases hcontent
    exact (Kernel.flatSize_of_dvd (by decide +kernel)).trans List.length_replicate
  have hstart : regionStart (Repeated.configuration "/p").target 512 = 0x400 + 512 := by decide
  rw [hsize, hstart] at hinfo hheaders
  refine ⟨Repeated.alike 0x90 0x91, out₁, out₂, _, himage₁, himage₂, hplan, by decide +kernel, ?differ,
    hlength, hfront, hinfo, hheaders⟩
  case differ =>
    -- Equal images would hold the same kernel.
    rintro rfl
    have hkernels := (Repeated.slice_kernel himage₁).symm.trans (Repeated.slice_kernel himage₂)
    exact absurd hkernels (by decide +kernel)

end Build

end BootImage
