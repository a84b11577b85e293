import BootImage.Proofs.Build.Stub

/-!
# The size of the region, as the kernel is told it

A target can carry a place in the kernel for the size of the module region. A build with a stub writes
the size there before the region is put beside the kernel; one without a stub writes it into the
finished core image, where the place is that of the kernel only if the kernel comes first.

- `HoldsCore`: the core image of an image, which a stub may have to unpack; `exists_holdsCore_streams`:
  that of an image packed as streams.
- `Informed`: a core image whose kernel was told the size of the region, and nothing else was changed.
- `informed_patch_iff`: what becomes of the size when it is written into a finished core image.
- `informed_of_image_iff`: the core images of builds.
-/

namespace BootImage

namespace Build

/-! ## §1 Core images that were told the size -/

/-- The offset of the module region in a core image with a kernel of `kernelSize` bytes. -/
def regionOffset (t : Target) (kernelSize : Nat) : Nat := if t.modulesFirst then 0 else kernelSize

/-- The core image of a kernel and a region in which the kernel was told the size of the region: the
number stands at its place in the kernel, every other byte of the kernel is what was loaded, and the
region is what was written. -/
structure Informed (t : Target) (place : Nat) (blob region core : Bytes) : Prop where
  within : place + 4 ≤ blob.length
  told : core.slice (kernelOffset t region.length + place) 4 = t.format.order.encode 4 region.length
  kernel : ∀ i < blob.length, i < place ∨ place + 4 ≤ i →
    core[kernelOffset t region.length + i]? = blob[i]?
  region : core.slice (regionOffset t blob.length) region.length = region

section Informed

variable {t : Target} {place : Nat} {blob region core : Bytes}

/-- The region of a core image that was put together is found in it. -/
theorem slice_region_assemble (t : Target) (kernel region : Bytes) :
    (ModuleRegion.assemble t kernel region).slice (regionOffset t kernel.length) region.length =
      region := by
  rw [ModuleRegion.assemble, regionOffset]
  split
  · rw [Bytes.slice_zero, List.take_left]
  · rw [Bytes.slice_append_right (Nat.le_refl _), Nat.sub_self, Bytes.slice_zero, List.take_length]

/-- So is every byte of its kernel. -/
theorem getElem?_assemble (t : Target) {kernel : Bytes} (region : Bytes) {i : Nat}
    (hi : i < kernel.length) :
    (ModuleRegion.assemble t kernel region)[kernelOffset t region.length + i]? = kernel[i]? := by
  have hslice := congrArg (fun bytes : Bytes => bytes[i]?) (slice_assemble t kernel region)
  simp only [Bytes.getElem?_slice, if_pos hi] at hslice
  exact hslice

/-- A core image that is put together around a kernel with the number in it is informed. -/
theorem informed_assemble (hplace : place + 4 ≤ blob.length) :
    Informed t place blob region (ModuleRegion.assemble t
      (blob.overlay place (t.format.order.encode 4 region.length)) region) := by
  have hfit : place + (t.format.order.encode 4 region.length).length ≤ blob.length := by
    simpa using hplace
  have hlen := Bytes.length_overlay hfit
  have hkernel := slice_assemble t (blob.overlay place (t.format.order.encode 4 region.length)) region
  have hregion := slice_region_assemble t (blob.overlay place (t.format.order.encode 4 region.length))
    region
  rw [hlen] at hkernel hregion
  refine ⟨hplace, ?told, ?kernel, hregion⟩
  case told =>
    -- The number is a range of the kernel, which is a range of the core image.
    have htold := Bytes.slice_overlay_self hfit
    rw [← hkernel, ByteOrder.length_encode, Bytes.slice_slice _ hplace] at htold
    exact htold
  case kernel =>
    intro i hi houtside
    rw [getElem?_assemble t region (hlen.symm ▸ hi), Bytes.getElem?_overlay hfit, ByteOrder.length_encode,
      if_neg (by omega)]

/-! ## §2 The size in a finished core image -/

/-- With the modules in front, the place counted from the start of the core image is one in the region,
or in the part of the kernel in front of the place that was meant. All of it has to be left alone. -/
theorem Informed.slice_place (h : Informed t place blob region core) (hfirst : t.modulesFirst = true)
    (hregion : 4 ≤ region.length) :
    core.slice place 4 = (ModuleRegion.assemble t blob region).slice place 4 := by
  have hwithin := h.within
  have hkernelOffset : kernelOffset t region.length = region.length := if_pos hfirst
  have hregionOffset : regionOffset t blob.length = 0 := if_pos hfirst
  apply List.ext_getElem?
  intro i
  rw [Bytes.getElem?_slice, Bytes.getElem?_slice]
  split
  · rename_i hi
    -- A byte of the region, or one of the kernel in front of the place.
    rcases Nat.lt_or_ge (place + i) region.length with hin | hbehind
    · have hold := congrArg (fun bytes : Bytes => bytes[place + i]?) (slice_region_assemble t blob region)
      have hnew := congrArg (fun bytes : Bytes => bytes[place + i]?) h.region
      simp only [hregionOffset, Bytes.getElem?_slice, if_pos hin, Nat.zero_add] at hold hnew
      rw [hold, hnew]
    · have hkernel := h.kernel (place + i - region.length) (by omega) (.inl (by omega))
      have hold := getElem?_assemble t region
        (show place + i - region.length < blob.length by omega)
      rw [hkernelOffset, Nat.add_sub_cancel' hbehind] at hkernel hold
      rw [hkernel, hold]
  · rfl

/-- So with the modules in front, the kernel is told the size, with everything else left alone, only
where the number stood at both places before. -/
theorem informed_overlay_modulesFirst_iff (hfirst : t.modulesFirst = true)
    (hplace : place + 4 ≤ blob.length) (hregion : 4 ≤ region.length) :
    Informed t place blob region ((ModuleRegion.assemble t blob region).overlay place
        (t.format.order.encode 4 region.length)) ↔
      (ModuleRegion.assemble t blob region).slice place 4 = t.format.order.encode 4 region.length ∧
        blob.slice place 4 = t.format.order.encode 4 region.length := by
  have hlen := ModuleRegion.length_assemble t blob region
  have hfit : place + (t.format.order.encode 4 region.length).length ≤
      (ModuleRegion.assemble t blob region).length := by
    rw [ByteOrder.length_encode]
    omega
  have hblob := slice_assemble t blob region
  refine ⟨?_, ?_⟩
  · intro h
    -- The number was put over bytes that had to stay, so they are the number.
    have hkept := h.slice_place hfirst hregion
    have hself := Bytes.slice_overlay_self hfit
    rw [ByteOrder.length_encode, hkept] at hself
    refine ⟨hself, ?_⟩
    -- So nothing was changed, and the kernel holds what it was told.
    have htold := h.told
    rw [← hself, Bytes.overlay_slice (by omega), hself, ← Bytes.slice_slice _ hplace, hblob] at htold
    exact htold
  · intro h
    rcases h with ⟨hstands, hknown⟩
    -- Putting the number over itself changes nothing.
    have hsame : (ModuleRegion.assemble t blob region).overlay place
        (t.format.order.encode 4 region.length) = ModuleRegion.assemble t blob region := by
      rw [← hstands]
      exact Bytes.overlay_slice (by omega)
    rw [hsame]
    refine ⟨hplace, ?_, fun i hi _ => getElem?_assemble t region hi, slice_region_assemble t blob region⟩
    rw [← Bytes.slice_slice _ hplace, hblob]
    exact hknown

/-- **The size written into a finished core image** reaches the kernel if the kernel comes first and
holds the place; with the modules in front, only where it stood already. -/
theorem informed_patch_iff (hregion : 4 ≤ region.length)
    (hcarried : t.patches.offset? .totalModuleSize = some place)
    (h : t.patch .totalModuleSize (ModuleRegion.assemble t blob region) region.length = .ok core) :
    Informed t place blob region core ↔
      place + 4 ≤ blob.length ∧ (t.modulesFirst = true →
        (ModuleRegion.assemble t blob region).slice place 4 =
            t.format.order.encode 4 region.length ∧
          blob.slice place 4 = t.format.order.encode 4 region.length) := by
  rw [Target.patch, hcarried] at h
  obtain ⟨-, rfl⟩ := ByteOrder.put_eq_ok_iff.1 h
  -- A kernel that ends in front of the place can be told nothing.
  by_cases hplace : place + 4 ≤ blob.length
  · rw [and_iff_right hplace]
    cases hfirst : t.modulesFirst with
    | true =>
      rw [informed_overlay_modulesFirst_iff hfirst hplace hregion]
      exact ⟨fun hstands _ => hstands, fun hstands => hstands rfl⟩
    | false =>
      -- The kernel comes first, so the place is the same in the kernel and in the core image.
      have hassemble : ∀ kernel, ModuleRegion.assemble t kernel region = kernel ++ region := by
        intro kernel
        rw [ModuleRegion.assemble, hfirst, if_neg Bool.false_ne_true]
      have hinformed : Informed t place blob region _ := informed_assemble hplace
      rw [hassemble, ← Bytes.overlay_append_left (by simpa using hplace), ← hassemble] at hinformed
      exact ⟨fun _ hno => absurd hno Bool.false_ne_true, fun _ => hinformed⟩
  · exact ⟨fun hinformed => absurd hinformed.within hplace, fun hcond => absurd hcond.1 hplace⟩

end Informed

/-! ## §3 Builds -/

/-- Whether an image holds a core image: behind its headers, if there are any, as it is, or packed
behind a stub of the length of the one that the scheme of the build names. -/
def HoldsCore (files : FileSystem) (codecs : Codecs) (configuration : Configuration)
    (out core : Bytes) : Prop :=
  let scheme := configuration.compression.resolve configuration.target.defaultCompression
  ∃ finished rest, out.drop (coreOffset configuration.target) = finished ++ rest ∧
    if configuration.target.hasStub then
      ∃ name stub patched packed, scheme.stubFile = .ok name ∧
        files.content? (configuration.directory.join name) = some stub ∧
        patched.length = stub.length ∧ finished = patched ++ packed ∧
        scheme.unpack? codecs packed = some core
    else finished = core

section Image

variable {files : FileSystem} {codecs : Codecs} {configuration : Configuration}

/-- An image with a stub holds the core image that was packed for it, since unpacking undoes the
compression. -/
theorem holdsCore_of_finishedCore (hxz : codecs.xz.Lossless) (hlzma : codecs.lzma.Lossless)
    (hstub : configuration.target.hasStub = true) {plan : ModuleRegion.Plan} {kernelSize modulesSize : Nat}
    {unpacked finished out : Bytes} {layout : Kernel.Layout} {metadata : Option Path}
    (hfinished : finishedCore files codecs configuration plan kernelSize unpacked = .ok finished)
    (hwrap : Container.wrap files configuration.target finished layout modulesSize metadata = .ok out) :
    HoldsCore files codecs configuration out unpacked := by
  -- A container leaves what it is given as it is.
  obtain ⟨rest, hrest⟩ := prefix_of_wrap hwrap
  obtain ⟨packed, name, stub, patched, address, hunpack, hname, hread, rfl, hpatched, -⟩ :=
    finishedCore_patched hstub hxz hlzma hfinished
  -- Only the values of the stub are patched in, so its length stays.
  have hlen := Target.length_of_patchAll (StubFields.patch_eq_ok_iff.1 hpatched).2
  refine ⟨patched ++ packed, rest, hrest, ?_⟩
  rw [if_pos hstub]
  exact ⟨name, stub, patched, packed, hname, hread, hlen, rfl, hunpack⟩

/-- **An image packed as streams can be unpacked**, without any assumption about the codecs: what comes
out is the core image that was put together before it was compressed. -/
theorem exists_holdsCore_streams {loader : Kernel.Loader} {out : Bytes}
    (hstub : configuration.target.hasStub = true)
    (h : image files .streams loader configuration = .ok out) :
    ∃ plan loaded fitted core,
      regionPlan files configuration = .ok plan ∧
      loader.load (kernelRequest configuration plan) = .ok loaded ∧
      loaded.fitTo plan.totalSize = .ok fitted ∧
      unpackedCore files configuration.target plan fitted = .ok core ∧
      core.length = loaded.layout.kernelSize + plan.totalSize ∧
      HoldsCore files .streams configuration out core := by
  obtain ⟨hplannable, loaded, hloaded, husable, core, hcore, finished, hfinished, hwrap⟩ :=
    image_eq_ok_iff.1 h
  obtain ⟨-, -, -, hlen, -⟩ := unpackedCore_stub hstub hplannable husable hcore
  have hplan := regionPlan_eq_ok_iff.2 ⟨hplannable, rfl⟩
  have hfitted := Kernel.Loaded.fitTo_eq_ok_iff.2 ⟨husable, rfl⟩
  obtain ⟨hxz, hlzma⟩ := Codecs.lossless_streams
  exact ⟨exactPlan files configuration, loaded, _, core, hplan, hloaded, hfitted, hcore, hlen,
    holdsCore_of_finishedCore hxz hlzma hstub hfinished hwrap⟩

/-- With a stub, the kernel is told the size before the region is put beside it, so it is enough that
the kernel holds the place. -/
theorem informed_unpackedCore_iff {loaded : Kernel.Loaded} {unpacked : Bytes} {place : Nat}
    (hstub : configuration.target.hasStub = true)
    (hcarried : configuration.target.patches.offset? .totalModuleSize = some place)
    (hplannable : Plannable files configuration)
    (husable : loaded.Usable (exactPlan files configuration).totalSize)
    (h : unpackedCore files configuration.target (exactPlan files configuration)
      (loaded.fitted (exactPlan files configuration).totalSize) = .ok unpacked) :
    Informed configuration.target place loaded.blob (region files configuration) unpacked ↔
      place + 4 ≤ loaded.layout.kernelSize := by
  have hbound : Size.bufferBound ≤ Size.bound := by decide
  have hallocatable := husable.allocatable
  have hblob := husable.length_blob
  have hregion := hplannable.length_region
  refine ⟨fun hinformed => hblob ▸ hinformed.within, fun hplace => ?_⟩
  obtain ⟨kernel, hkernel, hplaced, -, -⟩ := unpackedCore_stub hstub hplannable husable h
  have hlen : kernel.length = loaded.layout.kernelSize + (exactPlan files configuration).totalSize := by
    rw [Target.length_of_patch hkernel, husable.length_fitted]
  rw [Target.patch, hcarried] at hkernel
  obtain ⟨-, rfl⟩ := ByteOrder.put_eq_ok_iff.1 hkernel
  -- The number stays in the kernel, so the room behind it holds zeros as before.
  have hpatched : (loaded.fitted (exactPlan files configuration).totalSize).image.overlay place
      (configuration.target.format.order.encode 4 (exactPlan files configuration).totalSize) =
        loaded.blob.overlay place
          (configuration.target.format.order.encode 4 (region files configuration).length) ++
        Bytes.zeros (exactPlan files configuration).totalSize := by
    rw [hregion, Kernel.Loaded.fitted]
    exact Bytes.overlay_append_left (by rw [ByteOrder.length_encode]; omega)
  have hoverlaid : (loaded.blob.overlay place (configuration.target.format.order.encode 4
      (region files configuration).length)).length = loaded.layout.kernelSize := by
    rw [Bytes.length_overlay (by rw [ByteOrder.length_encode]; omega), hblob]
  rw [hpatched] at hplaced hlen
  have hground : ModuleRegion.Plan.ground (exactPlan files configuration) configuration.target
      (loaded.blob.overlay place (configuration.target.format.order.encode 4
        (region files configuration).length) ++ Bytes.zeros (exactPlan files configuration).totalSize)
      loaded.layout.kernelSize = Bytes.zeros (exactPlan files configuration).totalSize := by
    rw [ModuleRegion.Plan.ground]
    split
    · rfl
    · rw [Bytes.slice_append_right (by omega), hoverlaid, Nat.sub_self, Bytes.slice_zeros (by omega)]
  have hexact := hplannable.place (t := configuration.target) (by omega) hlen
  -- So the region is written over zeros, as it would be without a stub.
  rw [hground, List.take_left' hoverlaid] at hexact
  obtain rfl := Except.ok.inj (hplaced.symm.trans hexact)
  exact informed_assemble (by omega)

/-- **What a kernel is told about the modules.** The core image of a build, unpacked where a stub is to
unpack it, has a kernel that was told the size of the region, and is otherwise made of the kernel that
was loaded and the region that was written, if the kernel holds the place of the number and a stub
follows or the kernel comes first; with the modules in front and no stub, it has such a kernel only
where the number stood already, at the place in the core image and at the place in the kernel. -/
theorem informed_of_image_iff {loader : Kernel.Loader} {out : Bytes} {place : Nat}
    (hcarried : configuration.target.patches.totalModuleSize = some place)
    (hxz : codecs.xz.Lossless) (hlzma : codecs.lzma.Lossless)
    (h : image files codecs loader configuration = .ok out) :
    ∃ plan loaded region core,
      regionPlan files configuration = .ok plan ∧
      loader.load (kernelRequest configuration plan) = .ok loaded ∧
      loaded.layout.kernelSize ≤ loaded.image.length ∧
      plan.write files (Bytes.zeros plan.totalSize) = .ok (plan.totalSize, region) ∧
      HoldsCore files codecs configuration out core ∧
      core.length = loaded.layout.kernelSize + plan.totalSize ∧
      (Informed configuration.target place loaded.blob region core ↔
        place + 4 ≤ loaded.layout.kernelSize ∧
          (configuration.target.hasStub = false → configuration.target.modulesFirst = true →
            (ModuleRegion.assemble configuration.target loaded.blob region).slice place 4 =
                configuration.target.format.order.encode 4 plan.totalSize ∧
              loaded.blob.slice place 4 =
                configuration.target.format.order.encode 4 plan.totalSize)) := by
  obtain ⟨hplannable, loaded, hloaded, husable, unpacked, hunpacked, finished, hfinished, hwrap⟩ :=
    image_eq_ok_iff.1 h
  have hplan := regionPlan_eq_ok_iff.2 ⟨hplannable, rfl⟩
  have hwrite := hplannable.write (Bytes.length_zeros _)
  have hregion := hplannable.length_region
  -- With a stub the core image comes out of it; without one it lies in the image.
  cases hstub : configuration.target.hasStub with
  | true =>
    obtain ⟨-, -, -, hlen, -⟩ := unpackedCore_stub hstub hplannable husable hunpacked
    refine ⟨_, loaded, region files configuration, unpacked, hplan, hloaded, husable.complete, hwrite,
      holdsCore_of_finishedCore hxz hlzma hstub hfinished hwrap, hlen, ?_⟩
    -- Such a kernel is told the size first, wherever the region lies.
    rw [informed_unpackedCore_iff hstub hcarried hplannable husable hunpacked]
    exact ⟨fun hplace => ⟨hplace, fun hno => absurd hno (Bool.noConfusion ·)⟩, fun hplace => hplace.1⟩
  | false =>
    rw [unpackedCore_noStub hstub hplannable husable] at hunpacked
    cases hunpacked
    rw [finishedCore_noStub hstub] at hfinished
    obtain ⟨rest, hrest⟩ := prefix_of_wrap hwrap
    have hlen : finished.length = _ :=
      (Target.length_of_patch hfinished).trans (hplannable.length_core husable)
    -- The info record alone has more bytes than the number.
    have hinfo : 4 ≤ (region files configuration).length := by
      have hword : 4 ≤ configuration.target.format.word.infoSize := by
        cases configuration.target.format.word <;> decide
      rw [hregion, tight_exactPlan]
      exact Nat.le_trans hword (Nat.le_add_right _ _)
    refine ⟨_, loaded, region files configuration, finished, hplan, hloaded, husable.complete, hwrite,
      ⟨finished, rest, hrest, ?_⟩, hlen, ?_⟩
    · rw [hstub, if_neg Bool.false_ne_true]
    · rw [← hregion] at hfinished ⊢
      rw [informed_patch_iff hinfo hcarried hfinished, husable.length_blob]
      exact and_congr_right fun _ => ⟨fun hstands _ => hstands, fun hstands => hstands rfl⟩

end Image

theorem informed_of_image_board :
    image Board.files Board.codecs (.flat Board.files) Board.configuration = .ok Board.image ∧
    ∃ plan loaded region core,
      regionPlan Board.files Board.configuration = .ok plan ∧
      (Kernel.Loader.flat Board.files).load (kernelRequest Board.configuration plan) = .ok loaded ∧
      loaded.layout.kernelSize ≤ loaded.image.length ∧
      plan.write Board.files (Bytes.zeros plan.totalSize) = .ok (plan.totalSize, region) ∧
      HoldsCore Board.files Board.codecs Board.configuration Board.image core ∧
      core.length = loaded.layout.kernelSize + plan.totalSize ∧
      Informed Board.target 0 loaded.blob region core := by
  obtain ⟨hxz, hlzma⟩ := Board.lossless_codecs
  obtain ⟨plan, loaded, region, core, hplan, hloaded, hcomplete, hwrite, hcore, hlen, hinformed⟩ :=
    informed_of_image_iff rfl hxz hlzma Board.image_eq
  refine ⟨Board.image_eq, plan, loaded, region, core, hplan, hloaded, hcomplete, hwrite, hcore, hlen,
    hinformed.2 ⟨?_, fun hno => absurd hno (Bool.noConfusion ·)⟩⟩
  -- The kernel has sixteen bytes, and the place is at its start.
  obtain ⟨content, hcontent, -, rfl⟩ := Kernel.Loader.flat_eq_ok_iff.1 hloaded
  cases hcontent
  show 4 ≤ Kernel.flatSize .w32 (List.replicate 16 7)
  decide

/-! ### A kernel behind its modules -/

namespace ModulesFirst

/-- A target without a stub that has the modules in front, and the size at the start of the kernel. -/
def target : Target :=
  { Target.multiboot with modulesFirst := true, patches := { totalModuleSize := some 0 } }

/-- A file system in which every file holds the same sixteen bytes. -/
def files : FileSystem := ⟨fun _ => .ok (.regular (List.replicate 16 0x90))⟩

/-- A configuration with nothing but a kernel. -/
def configuration : Configuration where
  target := target
  directory := ⟨"p"⟩

/-- The image: an info record without its magic number, and the kernel as it was loaded. -/
def image : Bytes := [12, 0, 0, 0, 12, 0, 0, 0, 12, 0, 0, 0] ++ List.replicate 16 0x90

end ModulesFirst

/-- The size is written over the magic number of the info record, and the kernel is not told it. -/
theorem not_informed_modulesFirst :
    image ModulesFirst.files ⟨.identity, .identity⟩ (.flat ModulesFirst.files)
        ModulesFirst.configuration = .ok ModulesFirst.image ∧
    ∀ plan loaded region core,
      regionPlan ModulesFirst.files ModulesFirst.configuration = .ok plan →
      (Kernel.Loader.flat ModulesFirst.files).load (kernelRequest ModulesFirst.configuration plan) =
        .ok loaded →
      plan.write ModulesFirst.files (Bytes.zeros plan.totalSize) = .ok (plan.totalSize, region) →
      HoldsCore ModulesFirst.files ⟨.identity, .identity⟩ ModulesFirst.configuration
        ModulesFirst.image core →
      core.length = loaded.layout.kernelSize + plan.totalSize →
      ¬ Informed ModulesFirst.target 0 loaded.blob region core := by
  refine ⟨toOption_eq_some_iff.1 (by decide +kernel), ?_⟩
  intro plan loaded region core hplan hloaded hwrite hcore hlen hinformed
  obtain ⟨hplannable, rfl⟩ := regionPlan_eq_ok_iff.1 hplan
  obtain ⟨content, hcontent, -, rfl⟩ := Kernel.Loader.flat_eq_ok_iff.1 hloaded
  cases hcontent
  have hregion := hplannable.write (Bytes.length_zeros _)
  rw [hwrite] at hregion
  cases hregion
  -- The core image is the whole image, so the number would have to stand behind the region.
  obtain ⟨finished, rest, hrest, rfl⟩ := hcore
  have hwhole : ModulesFirst.image = finished := by
    have hrestLen := congrArg List.length hrest
    rw [List.length_append, hlen] at hrestLen
    obtain rfl : rest = [] := List.length_eq_zero_iff.1 (Nat.add_left_cancel hrestLen.symm)
    rw [List.append_nil] at hrest
    exact hrest
  have htold := hinformed.told
  rw [← hwhole] at htold
  exact absurd htold (by decide +kernel)

end Build

end BootImage
