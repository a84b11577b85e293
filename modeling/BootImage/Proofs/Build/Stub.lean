import BootImage.Proofs.Build.Contents
import BootImage.Proofs.Codec.Lzma
import BootImage.Proofs.Codec.Xz

/-!
# What a stub is told

A decompressor stub finds in itself how long the compressed core image behind it is, how long the core
image will be, and where to unpack it. The three numbers are measured at different stages of a build:
after compression, before it, and when the modules are planned. They agree with what lies behind the
stub, and unpacked at the address that the stub is told, the kernel lies where it was linked.

- `Target.patchAll`: values patched in one after the other; `getElem?_of_patchAll`: everything else is
  left alone; `get?_of_patchAll`: the values are read back.
- `StubFields.StatedIn`: a stub that was told the values.
- `CoreImage.unpack?_of_compress`: compression is undone by lossless codecs; `Codecs.streams`: such codecs.
- `Build.image_behind_stub`: the image of a target with a stub.
-/

namespace BootImage

/-! ## §1 Values patched in one after the other -/

/-- The values that a stub is told, in the order in which they are patched in. -/
def PatchField.ofStub : List PatchField := [.compressedSize, .uncompressedSize, .uncompressedAddress]

namespace Target

/-- The buffer with values patched in one after the other. -/
def patchAll (t : Target) (buf : Bytes) (values : List (PatchField × Nat)) : Result Bytes :=
  values.foldlM (fun buf value => t.patch value.1 buf value.2) buf

/-- Whether an offset lies outside the places at which a target carries some values. -/
def Clear (t : Target) (fields : List PatchField) (offset : Nat) : Prop :=
  ∀ field ∈ fields, ∀ place ∈ t.patches.offset? field, offset < place ∨ place + 4 ≤ offset

/-- Whether the places at which a target carries some values do not overlap. -/
def Apart (t : Target) (fields : List PatchField) : Prop :=
  fields.Pairwise fun field other => ∀ place ∈ t.patches.offset? field,
    ∀ otherPlace ∈ t.patches.offset? other, place + 4 ≤ otherPlace ∨ otherPlace + 4 ≤ place

variable {t : Target} {buf out : Bytes} {values : List (PatchField × Nat)}

theorem patchAll_cons {field : PatchField} {value : Nat} :
    t.patchAll buf ((field, value) :: values) =
      t.patch field buf value >>= fun next => t.patchAll next values :=
  List.foldlM_cons ..

/-- One value leaves every byte alone that is not at its place. -/
theorem getElem?_of_patch {field : PatchField} {value : Nat} (h : t.patch field buf value = .ok out)
    {i : Nat} (hclear : ∀ place ∈ t.patches.offset? field, i < place ∨ place + 4 ≤ i) :
    out[i]? = buf[i]? := by
  unfold patch at h
  -- A value that is not carried changes nothing.
  split at h
  · cases h
    rfl
  · rename_i place hplace
    obtain ⟨hfit, rfl⟩ := ByteOrder.put_eq_ok_iff.1 h
    have houtside := hclear place hplace
    rw [Bytes.getElem?_overlay (by rwa [ByteOrder.length_encode]), ByteOrder.length_encode,
      if_neg (by omega)]

/-- A number apart from the place of a value is read as before. -/
theorem get?_of_patch_of_apart {field : PatchField} {value : Nat}
    (h : t.patch field buf value = .ok out) {start : Nat}
    (hapart : ∀ place ∈ t.patches.offset? field, start + 4 ≤ place ∨ place + 4 ≤ start) :
    t.format.order.get? out start 4 = t.format.order.get? buf start 4 := by
  unfold patch at h
  split at h
  · cases h
    rfl
  · rename_i place hplace
    exact ByteOrder.get?_of_put_of_disjoint h (hapart place hplace)

theorem get?_of_patch {field : PatchField} {value : Nat} (hvalue : value < Size.bound32)
    (h : t.patch field buf value = .ok out) :
    ∀ place ∈ t.patches.offset? field, t.format.order.get? out place 4 = some value := by
  intro place hplace
  rw [patch, hplace] at h
  exact ByteOrder.get?_of_put hvalue h

theorem length_of_patchAll (h : t.patchAll buf values = .ok out) : out.length = buf.length := by
  -- By induction on the values; none of them changes the length.
  induction values generalizing buf with
  | nil =>
    cases h
    rfl
  | cons value values ih =>
    rw [patchAll_cons, bind_eq_ok_iff] at h
    obtain ⟨next, hnext, h⟩ := h
    rw [ih h, length_of_patch hnext]

/-- **Everything else is left alone**: values change nothing but the bytes at their places. -/
theorem getElem?_of_patchAll (h : t.patchAll buf values = .ok out) {i : Nat}
    (hclear : t.Clear (values.map (·.1)) i) : out[i]? = buf[i]? := by
  -- By induction on the values; none of their places holds the offset.
  induction values generalizing buf with
  | nil =>
    cases h
    rfl
  | cons value values ih =>
    rw [patchAll_cons, bind_eq_ok_iff] at h
    obtain ⟨next, hnext, h⟩ := h
    rw [List.map_cons, Clear, List.forall_mem_cons] at hclear
    rw [ih h hclear.2, getElem?_of_patch hnext hclear.1]

/-- A number apart from all places is read as before. -/
theorem get?_of_patchAll_of_apart (h : t.patchAll buf values = .ok out) {start : Nat}
    (hapart : ∀ field ∈ values.map (·.1), ∀ place ∈ t.patches.offset? field,
      start + 4 ≤ place ∨ place + 4 ≤ start) :
    t.format.order.get? out start 4 = t.format.order.get? buf start 4 := by
  -- By induction on the values, each of which leaves the number alone.
  induction values generalizing buf with
  | nil =>
    cases h
    rfl
  | cons value values ih =>
    rw [patchAll_cons, bind_eq_ok_iff] at h
    obtain ⟨next, hnext, h⟩ := h
    rw [List.map_cons, List.forall_mem_cons] at hapart
    rw [ih h hapart.2, get?_of_patch_of_apart hnext hapart.1]

/-- **The values are read back**, if their places do not overlap. -/
theorem get?_of_patchAll (h : t.patchAll buf values = .ok out) (hapart : t.Apart (values.map (·.1)))
    (hsmall : ∀ value ∈ values, value.2 < Size.bound32) :
    ∀ value ∈ values, ∀ place ∈ t.patches.offset? value.1,
      t.format.order.get? out place 4 = some value.2 := by
  -- By induction on the values: the first is read back, or one of the later ones.
  induction values generalizing buf with
  | nil => exact fun value hvalue => absurd hvalue List.not_mem_nil
  | cons first values ih =>
    rw [patchAll_cons, bind_eq_ok_iff] at h
    obtain ⟨next, hnext, h⟩ := h
    rw [List.map_cons, Apart, List.pairwise_cons] at hapart
    rw [List.forall_mem_cons] at hsmall
    intro value hvalue place hplace
    rcases List.mem_cons.1 hvalue with rfl | hlater
    · -- Nothing that is patched in later reaches the place of the first value.
      have hkept : t.format.order.get? out place 4 = t.format.order.get? next place 4 := by
        apply get?_of_patchAll_of_apart h
        intro field hfield other hother
        exact hapart.1 field hfield place hplace other hother
      rw [hkept]
      exact get?_of_patch hsmall.1 hnext place hplace
    · exact ih h hapart.2 hsmall.2 value hlater place hplace

end Target

/-! ## §2 Stubs -/

namespace StubFields

/-- What a stub is told, in the order in which it is patched in. -/
def values (fields : StubFields) : List (PatchField × Nat) := [
  (.compressedSize, fields.compressedSize),
  (.uncompressedSize, fields.uncompressedSize),
  (.uncompressedAddress, fields.uncompressedAddress)]

/-- A patched stub: as long as the stub and equal to it but for the values it is told, each of which
is read from the place at which the target carries it. -/
structure StatedIn (fields : StubFields) (t : Target) (stub patched : Bytes) : Prop where
  length : patched.length = stub.length
  frame : ∀ i, t.Clear PatchField.ofStub i → patched[i]? = stub[i]?
  stated : ∀ value ∈ fields.values, ∀ place ∈ t.patches.offset? value.1,
    t.format.order.get? patched place 4 = some value.2

/-- One value is narrowed to 32 bits, and then patched in where the target carries it. -/
theorem Told.on_patching_eq_ok_iff {told : Told} {t : Target} {u : Unit} {stub out : Bytes} :
    (told.patching t).on stub = (.ok u, out) ↔
      told.value < Size.bound32 ∧ t.patch told.field stub told.value = .ok out := by
  simp only [patching, InPlace.on_bind_eq_ok_iff, InPlace.on_check_eq_ok_iff, InPlace.on_edit_eq_ok_iff,
    Size.to32_eq_ok_iff]
  refine ⟨?_, ?_⟩
  · intro h
    rcases h with ⟨_, _, ⟨⟨hlt, rfl⟩, rfl⟩, h⟩
    exact ⟨hlt, h⟩
  · intro h
    rcases h with ⟨hlt, h⟩
    exact ⟨_, _, ⟨⟨hlt, rfl⟩, rfl⟩, h⟩

/-- Values are patched in one after the other, as long as each of them fits 32 bits. -/
theorem Told.on_patchingAll_eq_ok_iff {list : List Told} {t : Target} {u : Unit} {stub out : Bytes} :
    (patchingAll t list).on stub = (.ok u, out) ↔
      (∀ told ∈ list, told.value < Size.bound32) ∧
        t.patchAll stub (list.map fun told => (told.field, told.value)) = .ok out := by
  -- By induction on the values, for every stub that the first of them is patched into.
  induction list generalizing stub with
  | nil =>
    rw [patchingAll, InPlace.on_pure, Prod.mk.injEq]
    refine ⟨?_, ?_⟩
    · intro h
      rcases h with ⟨-, rfl⟩
      exact ⟨fun told htold => absurd htold List.not_mem_nil, rfl⟩
    · intro h
      rcases h with ⟨-, h⟩
      cases h
      exact ⟨rfl, rfl⟩
  | cons told list ih =>
    -- The first value is patched into the stub, the others into what it leaves.
    rw [patchingAll, InPlace.on_bind_eq_ok_iff, List.forall_mem_cons, List.map_cons,
      Target.patchAll_cons, bind_eq_ok_iff]
    simp only [on_patching_eq_ok_iff, ih]
    refine ⟨?_, ?_⟩
    · intro h
      rcases h with ⟨_, next, ⟨hlt, hnext⟩, hsmall, h⟩
      exact ⟨⟨hlt, hsmall⟩, next, hnext, h⟩
    · intro h
      rcases h with ⟨⟨hlt, hsmall⟩, next, hnext, h⟩
      exact ⟨(), next, ⟨hlt, hnext⟩, hsmall, h⟩

theorem patch_eq_ok_iff_patching {fields : StubFields} {t : Target} {stub out : Bytes} :
    fields.patch t stub = .ok out ↔ (fields.patching t).on stub = (.ok (), out) := by
  rw [patch, bind_eq_ok_iff, ← InPlace.outcome_eq_ok_iff]
  refine ⟨?_, ?_⟩
  · intro h
    -- A run that succeeds gives the stub that it leaves behind.
    rcases h with ⟨⟨_, patched⟩, hpatched, h⟩
    cases h
    exact hpatched
  · intro h
    exact ⟨_, h, rfl⟩

/-- A stub is patched by its values, all of which have to fit 32 bits. -/
theorem patch_eq_ok_iff {fields : StubFields} {t : Target} {stub out : Bytes} :
    fields.patch t stub = .ok out ↔
      (∀ value ∈ fields.values, value.2 < Size.bound32) ∧ t.patchAll stub fields.values = .ok out := by
  have hvalues : fields.values = fields.told.map fun told => (told.field, told.value) := rfl
  rw [patch_eq_ok_iff_patching, patching, Told.on_patchingAll_eq_ok_iff, hvalues, List.forall_mem_map]

/-- A stub that was patched is told its values. -/
theorem statedIn_of_patch {fields : StubFields} {t : Target} {stub patched : Bytes}
    (hapart : t.Apart PatchField.ofStub) (h : fields.patch t stub = .ok patched) :
    fields.StatedIn t stub patched := by
  obtain ⟨hsmall, hrun⟩ := patch_eq_ok_iff.1 h
  -- The three values go to places that do not overlap, so none of them is lost.
  refine ⟨Target.length_of_patchAll hrun, ?_, ?_⟩
  · intro i hclear
    exact Target.getElem?_of_patchAll hrun hclear
  · exact Target.get?_of_patchAll hrun hapart hsmall

/-- **The values for a stub**: the address is chosen so that what lies behind the modules, or at the
start, lies at the link address. -/
theorem make_eq_ok {t : Target} {compressedSize kernelSize modulesSize : Nat} {fields : StubFields}
    (h : make t compressedSize kernelSize modulesSize = .ok fields) :
    fields.compressedSize = compressedSize ∧ fields.uncompressedSize = kernelSize + modulesSize ∧
      fields.uncompressedAddress + (if t.modulesFirst then modulesSize else 0) = t.linkAddress := by
  rw [make, guard_eq_ok_iff] at h
  obtain ⟨hroom, h⟩ := h
  obtain ⟨uncompressed, hsum, h⟩ := bind_eq_ok_iff.1 h
  obtain ⟨-, rfl⟩ := Size.add_eq_ok_iff.1 hsum
  cases h
  refine ⟨rfl, rfl, ?_⟩
  -- With the kernel in front, the address is the link address itself.
  cases hfirst : t.modulesFirst with
  | false => rfl
  | true =>
    -- With the modules in front, their size is taken off the link address, which was found large
    -- enough.
    rw [hfirst] at hroom
    simp only [Bool.true_and, decide_eq_true_eq] at hroom
    simp only [if_true]
    omega

end StubFields

/-! ## §3 Compressed core images -/

/-- What unpacks a core image that was compressed by a scheme. -/
def Compression.unpack? (codecs : Codecs) (scheme : Compression) (packed : Bytes) : Option Bytes :=
  match scheme with
  | .plain => some packed
  | .xz => codecs.xz.decode? packed
  | .lzma => codecs.lzma.decode? packed
  | .auto => none

theorem Codec.decode?_of_pack {codec : Codec} (hlossless : codec.Lossless) {content packed : Bytes}
    (h : codec.pack content = .ok packed) : codec.decode? packed = some content := by
  unfold pack at h
  -- A stream that the codec does not give is refused.
  split at h
  · rename_i out hencode
    cases h
    exact hlossless content packed hencode
  · cases h

/-- **Compression is undone** by unpacking, whatever the scheme. -/
theorem CoreImage.unpack?_of_compress {codecs : Codecs} (hxz : codecs.xz.Lossless)
    (hlzma : codecs.lzma.Lossless) {t : Target} (hstub : t.hasStub = true) {scheme : Compression}
    {content packed : Bytes} (h : compress codecs t content scheme = .ok packed) :
    scheme.unpack? codecs packed = some content := by
  rw [compress.eq_def, if_pos hstub] at h
  -- One codec for each scheme; an open choice has been settled or is refused.
  cases scheme with
  | plain =>
    cases h
    rfl
  | xz => exact Codec.decode?_of_pack hxz h
  | lzma => exact Codec.decode?_of_pack hlzma h
  | auto => cases h

/-- Streams with stored chunks, and raw streams of literals. -/
def Codecs.streams : Codecs := ⟨Codec.Xz.codec, Codec.Lzma.codec⟩

theorem Codecs.lossless_streams : streams.xz.Lossless ∧ streams.lzma.Lossless :=
  ⟨Codec.Xz.lossless_codec, Codec.Lzma.lossless_codec⟩

/-- **Every core image can be packed** as such streams and unpacked again, once the scheme is settled. -/
theorem CoreImage.exists_compress_streams {t : Target} (hstub : t.hasStub = true) {scheme : Compression}
    (hsettled : scheme ≠ .auto) (content : Bytes) :
    ∃ packed, compress .streams t content scheme = .ok packed ∧
      scheme.unpack? .streams packed = some content := by
  obtain ⟨packed, hpacked⟩ : ∃ packed, compress .streams t content scheme = .ok packed := by
    -- Both encoders are total, so neither scheme is refused.
    rw [compress.eq_def, if_pos hstub]
    cases scheme with
    | plain => exact ⟨content, rfl⟩
    | xz => exact ⟨Codec.Xz.encode content, rfl⟩
    | lzma => exact ⟨Codec.Lzma.encode content, rfl⟩
    | auto => exact absurd rfl hsettled
  obtain ⟨hxz, hlzma⟩ := Codecs.lossless_streams
  exact ⟨packed, hpacked, unpack?_of_compress hxz hlzma hstub hpacked⟩

namespace Build

/-- The offset of the kernel in a core image with `modulesSize` bytes of modules. -/
def kernelOffset (t : Target) (modulesSize : Nat) : Nat := if t.modulesFirst then modulesSize else 0

/-- The kernel of a core image that was put together is found in it. -/
theorem slice_assemble (t : Target) (kernel region : Bytes) :
    (ModuleRegion.assemble t kernel region).slice (kernelOffset t region.length) kernel.length =
      kernel := by
  rw [ModuleRegion.assemble, kernelOffset]
  -- Behind the region, or in front of it.
  split
  · rw [Bytes.slice_append_right (Nat.le_refl _), Nat.sub_self, Bytes.slice_zero, List.take_length]
  · rw [Bytes.slice_zero, List.take_left]

/-- With a stub, the core image is put together around a kernel that knows the size of the region. -/
theorem unpackedCore_stub {files : FileSystem} {configuration : Configuration} {loaded : Kernel.Loaded}
    {unpacked : Bytes} (hstub : configuration.target.hasStub = true)
    (hplannable : Plannable files configuration)
    (husable : loaded.Usable (exactPlan files configuration).totalSize)
    (h : unpackedCore files configuration.target (exactPlan files configuration)
      (loaded.fitted (exactPlan files configuration).totalSize) = .ok unpacked) :
    ∃ kernel, configuration.target.patch .totalModuleSize
        (loaded.fitted (exactPlan files configuration).totalSize).image
        (exactPlan files configuration).totalSize = .ok kernel ∧
      ModuleRegion.Plan.place (exactPlan files configuration) files configuration.target kernel
        loaded.layout.kernelSize = .ok unpacked ∧
      unpacked.length = loaded.layout.kernelSize + (exactPlan files configuration).totalSize ∧
      unpacked.slice (kernelOffset configuration.target (exactPlan files configuration).totalSize)
        loaded.layout.kernelSize = kernel.take loaded.layout.kernelSize := by
  have hbound : Size.bufferBound ≤ Size.bound := by decide
  have hallocatable := husable.allocatable
  rw [unpackedCore, if_pos hstub] at h
  obtain ⟨kernel, hkernel, hplace⟩ := bind_eq_ok_iff.1 h
  -- Patching keeps the length, so there is still exactly the room for the region.
  have hlen : kernel.length = loaded.layout.kernelSize + (exactPlan files configuration).totalSize := by
    rw [Target.length_of_patch hkernel, husable.length_fitted]
  have hblob : (kernel.take loaded.layout.kernelSize).length = loaded.layout.kernelSize := by
    rw [List.length_take]
    omega
  have hregion := hplannable.length_regionOver
    (ModuleRegion.Plan.length_ground configuration.target (Nat.le_of_eq hlen.symm))
  have hplaced := hplannable.place (t := configuration.target) (by omega) hlen
  obtain rfl := Except.ok.inj (hplace.symm.trans hplaced)
  -- What was placed is a kernel and a region side by side.
  refine ⟨kernel, hkernel, hplace, ?_, ?_⟩
  · rw [ModuleRegion.length_assemble, hblob, hregion]
  · have hslice := slice_assemble configuration.target (kernel.take loaded.layout.kernelSize)
      (ModuleRegion.Plan.regionOver (exactPlan files configuration) files
        (ModuleRegion.Plan.ground (exactPlan files configuration) configuration.target kernel
          loaded.layout.kernelSize))
    rw [hregion, hblob] at hslice
    exact hslice

/-- Behind a stub lies the compressed core image; the stub is patched by the sizes of both and an
address from which on the kernel lies where it was linked. -/
theorem finishedCore_patched {files : FileSystem} {codecs : Codecs} {configuration : Configuration}
    {plan : ModuleRegion.Plan} {kernelSize : Nat} {unpacked finished : Bytes}
    (hstub : configuration.target.hasStub = true)
    (hxz : codecs.xz.Lossless) (hlzma : codecs.lzma.Lossless)
    (h : finishedCore files codecs configuration plan kernelSize unpacked = .ok finished) :
    ∃ packed name stub patched address,
      (configuration.compression.resolve configuration.target.defaultCompression).unpack? codecs
          packed = some unpacked ∧
        (configuration.compression.resolve configuration.target.defaultCompression).stubFile =
          .ok name ∧
        files.content? (configuration.directory.join name) = some stub ∧
        finished = patched ++ packed ∧
        StubFields.patch ⟨packed.length, kernelSize + plan.totalSize, address⟩ configuration.target
          stub = .ok patched ∧
        address + kernelOffset configuration.target plan.totalSize =
          configuration.target.linkAddress := by
  rw [finishedCore] at h
  obtain ⟨packed, hpacked, h⟩ := bind_eq_ok_iff.1 h
  rw [if_pos hstub] at h
  obtain ⟨⟨compressedSize, uncompressedSize, address⟩, hfields, h⟩ := bind_eq_ok_iff.1 h
  -- The three numbers are those of the stages they were measured at.
  obtain ⟨hcompressed, huncompressed, haddress⟩ := StubFields.make_eq_ok hfields
  cases hcompressed
  cases huncompressed
  obtain ⟨name, hname, h⟩ := bind_eq_ok_iff.1 h
  obtain ⟨stub, hread, h⟩ := bind_eq_ok_iff.1 h
  obtain ⟨patched, hpatched, h⟩ := bind_eq_ok_iff.1 h
  obtain ⟨_, -, h⟩ := bind_eq_ok_iff.1 h
  cases h
  exact ⟨packed, name, stub, patched, address, CoreImage.unpack?_of_compress hxz hlzma hstub hpacked,
    hname, FileSystem.read_eq_ok_iff_content?.1 hread, rfl, hpatched, haddress⟩

/-- What a stub hands over to: a patched stub, and the compressed core image behind it. -/
theorem finishedCore_stub {files : FileSystem} {codecs : Codecs} {configuration : Configuration}
    {plan : ModuleRegion.Plan} {kernelSize : Nat} {unpacked finished : Bytes}
    (hstub : configuration.target.hasStub = true)
    (hapart : configuration.target.Apart PatchField.ofStub)
    (hxz : codecs.xz.Lossless) (hlzma : codecs.lzma.Lossless)
    (h : finishedCore files codecs configuration plan kernelSize unpacked = .ok finished) :
    ∃ packed name stub patched address,
      (configuration.compression.resolve configuration.target.defaultCompression).unpack? codecs
          packed = some unpacked ∧
        (configuration.compression.resolve configuration.target.defaultCompression).stubFile =
          .ok name ∧
        files.content? (configuration.directory.join name) = some stub ∧
        finished = patched ++ packed ∧
        StubFields.StatedIn ⟨packed.length, kernelSize + plan.totalSize, address⟩
          configuration.target stub patched ∧
        address + kernelOffset configuration.target plan.totalSize =
          configuration.target.linkAddress := by
  obtain ⟨packed, name, stub, patched, address, hunpack, hname, hread, hfinished, hpatched, haddress⟩ :=
    finishedCore_patched hstub hxz hlzma h
  exact ⟨packed, name, stub, patched, address, hunpack, hname, hread, hfinished,
    StubFields.statedIn_of_patch hapart hpatched, haddress⟩

/-- **The image of a target with a stub**, if its container adds nothing and the places in the stub do
not overlap: a stub that is told the numbers it needs, and a packed core image. What is packed is
the buffer that the region was placed in, around a kernel that knows the size of the region. The
stub is told how long both are, and an address from which on the kernel lies where it was linked. -/
theorem image_behind_stub {files : FileSystem} {codecs : Codecs} {loader : Kernel.Loader}
    {configuration : Configuration} {out : Bytes}
    (hraw : configuration.target.container = .raw)
    (hstub : configuration.target.hasStub = true)
    (hapart : configuration.target.Apart PatchField.ofStub)
    (hxz : codecs.xz.Lossless) (hlzma : codecs.lzma.Lossless)
    (h : image files codecs loader configuration = .ok out) :
    ∃ plan loaded fitted kernel unpacked packed name stub patched address,
      regionPlan files configuration = .ok plan ∧
      loader.load ⟨configuration.kernelFile, plan.totalSize, configuration.target⟩ = .ok loaded ∧
      loaded.fitTo plan.totalSize = .ok fitted ∧
      configuration.target.patch .totalModuleSize fitted.image plan.totalSize = .ok kernel ∧
      plan.place files configuration.target kernel loaded.layout.kernelSize = .ok unpacked ∧
      unpacked.length = loaded.layout.kernelSize + plan.totalSize ∧
      unpacked.slice (kernelOffset configuration.target plan.totalSize) loaded.layout.kernelSize =
        kernel.take loaded.layout.kernelSize ∧
      (configuration.compression.resolve configuration.target.defaultCompression).unpack? codecs
        packed = some unpacked ∧
      (configuration.compression.resolve configuration.target.defaultCompression).stubFile = .ok name ∧
      files.content? (configuration.directory.join name) = some stub ∧
      out = patched ++ packed ∧
      StubFields.StatedIn ⟨packed.length, unpacked.length, address⟩ configuration.target stub patched ∧
      address + kernelOffset configuration.target plan.totalSize = configuration.target.linkAddress := by
  obtain ⟨hplannable, loaded, hloaded, husable, unpacked, hunpacked, finished, hfinished, hwrap⟩ :=
    image_eq_ok_iff.1 h
  obtain ⟨kernel, hkernel, hplace, hlen, hslice⟩ := unpackedCore_stub hstub hplannable husable hunpacked
  obtain ⟨packed, name, stub, patched, address, hunpack, hname, hread, rfl, hstated, haddress⟩ :=
    finishedCore_stub hstub hapart hxz hlzma hfinished
  -- The size that was stated is that of the core image before it was packed.
  rw [← hlen] at hstated
  -- A raw container adds nothing.
  obtain ⟨-, -, himage⟩ := (wrap_raw_eq_ok_iff hraw).1 hwrap
  have hplan := regionPlan_eq_ok_iff.2 ⟨hplannable, rfl⟩
  have hfitted := Kernel.Loaded.fitTo_eq_ok_iff.2 ⟨husable, rfl⟩
  exact ⟨exactPlan files configuration, loaded, _, kernel, unpacked, packed, name, stub, patched, address,
    hplan, hloaded, hfitted, hkernel, hplace, hlen, hslice, hunpack, hname, hread,
    himage, hstated, haddress⟩

/-! ### A small board -/

namespace Board

/-- A target whose stub is told all three numbers, with the modules in front of the kernel. -/
def target : Target where
  names := ["board"]
  directory := ⟨"board"⟩
  architecture := .arm
  format := ⟨.w32, .big⟩
  container := .raw
  hasStub := true
  modulesFirst := true
  patches := {
    totalModuleSize := some 0
    compressedSize := some 0
    uncompressedSize := some 4
    uncompressedAddress := some 9 }
  defaultCompression := .xz
  linkAddress := 0x8200
  sectionAlign := 1
  fileAlign := 4

/-- A configuration that leaves the compression to the target. -/
def configuration : Configuration where
  target := target
  directory := ⟨"board"⟩

/-- A file system in which kernel and stub are the same sixteen bytes. -/
def files : FileSystem := ⟨fun _ => .ok (.regular (List.replicate 16 7))⟩

/-- The core image of the board: the region, and the kernel with one number in it. -/
def core : Bytes := [
  0x67, 0x6d, 0x69, 0x6d, 0, 0, 0, 12, 0, 0, 0, 12,
  0, 0, 0, 12, 7, 7, 7, 7, 7, 7, 7, 7, 7, 7, 7, 7]

/-- Its `.xz` stream, with one compressed chunk in a block. -/
def stream : Bytes := [
  0xfd, 0x37, 0x7a, 0x58, 0x5a, 0x00, 0x00, 0x01, 0x69, 0x22, 0xde, 0x36,
  0x02, 0x00, 0x21, 0x01, 0x08, 0x00, 0x00, 0x00, 0xd8, 0x0f, 0x23, 0x13,
  0xe0, 0x00, 0x1b, 0x00, 0x0f, 0x5d, 0x00, 0x33, 0x9b, 0x49, 0x61, 0xa5,
  0xb2, 0x57, 0xe6, 0xc1, 0xd9, 0x84, 0x7f, 0x85, 0xe0, 0x00, 0x00, 0x00,
  0x09, 0x5b, 0xf4, 0x46, 0x00, 0x01, 0x27, 0x1c, 0x01, 0x5b, 0x42, 0xee,
  0x90, 0x42, 0x99, 0x0d, 0x01, 0x00, 0x00, 0x00, 0x00, 0x01, 0x59, 0x5a]

/-- A codec that packs this core image. -/
def codecs : Codecs := ⟨.single core stream, Codec.Lzma.codec⟩

theorem lossless_codecs : codecs.xz.Lossless ∧ codecs.lzma.Lossless :=
  ⟨Codec.lossless_single core stream, Codec.Lzma.lossless_codec⟩

/-- The image of the board: the stub with three numbers in it, and the stream of the core image. -/
def image : Bytes := [0, 0, 0, 72, 0, 0, 0, 28, 7, 0, 0, 0x81, 0xf4, 7, 7, 7] ++ stream

theorem image_eq : Build.image files codecs (.flat files) configuration = .ok image :=
  toOption_eq_some_iff.1 (by decide +kernel)

end Board

theorem image_behind_stub_board :
    image Board.files Board.codecs (.flat Board.files) Board.configuration = .ok Board.image ∧
    ∃ plan loaded fitted kernel unpacked packed name stub patched address,
      regionPlan Board.files Board.configuration = .ok plan ∧
      (Kernel.Loader.flat Board.files).load ⟨Board.configuration.kernelFile, plan.totalSize,
        Board.target⟩ = .ok loaded ∧
      loaded.fitTo plan.totalSize = .ok fitted ∧
      Board.target.patch .totalModuleSize fitted.image plan.totalSize = .ok kernel ∧
      plan.place Board.files Board.target kernel loaded.layout.kernelSize = .ok unpacked ∧
      unpacked.length = loaded.layout.kernelSize + plan.totalSize ∧
      unpacked.slice (kernelOffset Board.target plan.totalSize) loaded.layout.kernelSize =
        kernel.take loaded.layout.kernelSize ∧
      Compression.unpack? Board.codecs .xz packed = some unpacked ∧
      Compression.stubFile .xz = .ok name ∧
      Board.files.content? (Board.configuration.directory.join name) = some stub ∧
      Board.image = patched ++ packed ∧
      StubFields.StatedIn ⟨packed.length, unpacked.length, address⟩ Board.target stub patched ∧
      address + kernelOffset Board.target plan.totalSize = Board.target.linkAddress := by
  have hapart : Board.target.Apart PatchField.ofStub := by
    unfold Target.Apart
    decide
  obtain ⟨hxz, hlzma⟩ := Board.lossless_codecs
  exact ⟨Board.image_eq, image_behind_stub rfl rfl hapart hxz hlzma Board.image_eq⟩

end Build

end BootImage
