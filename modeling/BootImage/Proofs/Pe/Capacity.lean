import BootImage.Proofs.Pe.Image
import BootImage.Proofs.Pe.Limits

/-!
# What a PE image has room for

Whether a core image can be wrapped depends on where its sections end. All other numbers of the
headers are smaller than one of these ends, so nothing that comes after planning refuses a layout.

- `Section.EndsWithin`, `Cursor.fits_iff_ends`: the ends of the sections as the only condition.
- `Plan.feasible_iff_ends`: a kernel that is executable as a whole.
- `Plan.Counted`: a plan whose numbers have 32 bits, as those of every feasible layout do.
- `Plan.make_of_not_overflows`: what planning answers where no sum leaves the sizes.
- `exists_wrap_pe_iff`, `faultFree_wrap_pe`: when wrapping succeeds, and that it never faults.
-/

namespace BootImage.Pe

/-! ## §1 The ends of the sections -/

/-- Whether 32 bits suffice for the end of a section, rounded up in memory and in the file. -/
def Section.EndsWithin (s : Section) (sectionAlign : Nat) : Prop :=
  Alignment.roundUp sectionAlign (s.virtualAddress + s.virtualSize) < Size.bound32 ∧
    Alignment.roundUp Target.peFileAlign (s.rawOffset + s.rawSize) < Size.bound32

namespace Cursor

variable {sectionAlign : Nat} {cursor : Cursor} {parts : List Part}

theorem fits_iff_ends (hpos : 0 < sectionAlign) (hdvd : sectionAlign ∣ Size.bound32) :
    cursor.Fits sectionAlign parts ↔
      ∀ s ∈ cursor.lay sectionAlign parts, s.EndsWithin sectionAlign := by
  -- By induction on the parts, with the cursor moving along.
  induction parts generalizing cursor with
  | nil => exact ⟨fun _ s hs => absurd hs List.not_mem_nil, fun _ => trivial⟩
  | cons part parts ih =>
    -- Rounding stays below a multiple of the alignment exactly when the sum it starts from does.
    have hends : cursor.Takes sectionAlign part.size ↔ Section.EndsWithin
        ⟨part.role, part.size, cursor.address, part.size, cursor.offset⟩ sectionAlign := by
      rw [Takes, Section.EndsWithin, Alignment.roundUp_lt_iff hpos hdvd,
        Alignment.roundUp_lt_iff (by decide) (by decide)]
    rw [Fits, lay, List.forall_mem_cons, hends, ih]

/-- Sections that end within 32 bits have numbers of 32 bits. -/
theorem counted_of_fits (h : cursor.Fits sectionAlign parts) :
    ∀ s ∈ cursor.lay sectionAlign parts, s.Counted := by
  induction parts generalizing cursor with
  | nil => exact fun s hs => absurd hs List.not_mem_nil
  | cons part parts ih =>
    obtain ⟨⟨haddress, hoffset⟩, hrest⟩ := h
    rw [lay, List.forall_mem_cons]
    refine ⟨⟨?_, ?_, ?_, ?_⟩, ih hrest⟩
    · show part.size < Size.bound32
      omega
    · show cursor.address < Size.bound32
      omega
    · show part.size < Size.bound32
      omega
    · show cursor.offset < Size.bound32
      omega

end Cursor

/-- **A kernel that is executable as a whole**: its layout is feasible exactly when all sections end
within 32 bits. The size of the data and the start of the modules follow from the ends. -/
theorem Plan.feasible_iff_ends {t : Target} {layout : Kernel.Layout} {modulesSize : Nat}
    {metadata : Option Nat} (hpow : t.sectionAlign.isPowerOfTwo) (hdvd : t.sectionAlign ∣ Size.bound32)
    (hwhole : layout.executableSize = layout.kernelSize) :
    Plan.Feasible t (layout.kernelSize + modulesSize) layout modulesSize metadata ↔
      ∀ s ∈ (Plan.exact t (layout.kernelSize + modulesSize) layout modulesSize metadata).sections,
        s.EndsWithin t.sectionAlign := by
  have hpos : 0 < Target.peFileAlign := by decide
  have hends := @Cursor.fits_iff_ends t.sectionAlign (Cursor.start t.format.word)
    (parts t.format.word (layout.kernelSize + modulesSize) layout metadata ++
      [⟨.relocations, layout.relocationSize⟩]) (Nat.pos_of_isPowerOfTwo hpow) hdvd
  -- Nothing of the kernel is left for the data.
  have hdata : dataRoom layout = 0 := by
    rw [dataRoom, hwhole, Nat.sub_self, Alignment.roundUp_zero]
  -- The core image holds the kernel and more, so the modules do not start too late.
  have hmodules : modulesStart t.format.word layout ≤
      modulesEnd t.format.word (layout.kernelSize + modulesSize) := by
    rw [modulesStart, hdata, hwhole, Nat.add_zero, ← Alignment.roundUp_add hpos (dvd_headerSize _)]
    exact Alignment.roundUp_mono hpos (by omega)
  refine ⟨fun h => hends.1 h.fits, fun h => ?_⟩
  have hfits := hends.2 h
  obtain ⟨-, -, hfinish⟩ := bounds_of_fits hmodules hfits
  refine ⟨hpow, Nat.le_of_eq hwhole, hmodules, ?_, hfits⟩
  -- The region is a part of the core image, whose end was checked.
  have hregion : Alignment.roundUp Target.peFileAlign modulesSize ≤
      modulesEnd t.format.word (layout.kernelSize + modulesSize) :=
    Alignment.roundUp_mono hpos (by omega)
  rw [exactDataSize, hdata]
  omega

/-! ## §2 The numbers of the headers -/

/-- The section alignment of a feasible layout is itself a number of 32 bits. -/
theorem Plan.Feasible.sectionAlign_lt {t : Target} {coreSize modulesSize : Nat}
    {layout : Kernel.Layout} {metadata : Option Nat}
    (h : Plan.Feasible t coreSize layout modulesSize metadata) : t.sectionAlign < Size.bound32 := by
  have hheaders : 0 < Pe.headerSize t.format.word := by cases t.format.word <;> decide
  have hstart : (Cursor.start t.format.word).address = Pe.headerSize t.format.word := rfl
  obtain ⟨hcore, -⟩ := Cursor.fits_append.1 h.fits
  rw [parts, Cursor.fits_append, fits_coreParts] at hcore
  -- The end of the code was rounded up by it, and there are headers in front of the code.
  have htext := hcore.1.1.1
  omega

/-- A plan whose numbers have 32 bits, the address of the first instruction apart, which planning only
passes on. -/
structure Plan.Counted (plan : Plan) : Prop where
  headerSize : plan.headerSize < Size.bound32
  imageSize : plan.imageSize < Size.bound32
  sectionAlign : plan.sectionAlign < Size.bound32
  codeBase : plan.codeBase < Size.bound32
  codeSize : plan.codeSize < Size.bound32
  dataSize : plan.dataSize < Size.bound32
  metadataSize : ∀ room ∈ plan.metadataSize, room < Size.bound32
  relocationAddress : plan.relocationAddress < Size.bound32
  sections : ∀ s ∈ plan.sections, s.Counted

/-- The numbers of a feasible layout have 32 bits. -/
theorem Plan.Feasible.counted_exact {t : Target} {coreSize modulesSize : Nat}
    {layout : Kernel.Layout} {metadata : Option Nat}
    (h : Plan.Feasible t coreSize layout modulesSize metadata) :
    (Plan.exact t coreSize layout modulesSize metadata).Counted := by
  obtain ⟨hcode, -, hfinish⟩ := bounds_of_fits h.holdsKernel h.fits
  obtain ⟨-, hrelocations, -⟩ := Cursor.fits_append.1 h.fits
  have haddress := hrelocations.1
  -- The image ends where its last section does.
  have himage : (Plan.exact t coreSize layout modulesSize metadata).imageSize < Size.bound32 := by
    rw [Plan.imageSize_exact h.holdsKernel, Alignment.roundUp_lt_iff (by decide) (by decide),
      offset_after_parts h.holdsKernel]
    exact hfinish
  have hheaders : Pe.headerSize t.format.word < Size.bound32 := by omega
  refine ⟨hheaders, himage, h.sectionAlign_lt, hheaders, ?_, h.counted, ?_, ?_,
    Cursor.counted_of_fits h.fits⟩
  · show layout.executableSize < Size.bound32
    omega
  · -- The room for metadata is a part of the image.
    intro room hroom
    have hspace : (metadata.map (metadataSpace t.format.word)).getD 0 = room := by
      rw [show metadata.map (metadataSpace t.format.word) = some room from hroom, Option.getD_some]
    omega
  · show ((Cursor.start t.format.word).after t.sectionAlign
      (parts t.format.word coreSize layout metadata)).address < Size.bound32
    omega

theorem Plan.Feasible.dataBase_lt {t : Target} {coreSize modulesSize : Nat}
    {layout : Kernel.Layout} {metadata : Option Nat}
    (h : Plan.Feasible t coreSize layout modulesSize metadata) :
    (Plan.exact t coreSize layout modulesSize metadata).headerSize + layout.executableSize <
      Size.bound32 := by
  obtain ⟨hcode, -, hfinish⟩ := bounds_of_fits h.holdsKernel h.fits
  show Pe.headerSize t.format.word + layout.executableSize < Size.bound32
  omega

/-- The numbers of the optional header of a feasible layout have 32 bits, the address of the first
instruction apart. -/
theorem Plan.Feasible.optionalValue_lt {t : Target} {coreSize modulesSize : Nat}
    {layout : Kernel.Layout} {metadata : Option Nat}
    (h : Plan.Feasible t coreSize layout modulesSize metadata) {field : OptionalField}
    (hfield : field ≠ .entryAddress) :
    (Plan.exact t coreSize layout modulesSize metadata).optionalValue layout
      ((Plan.exact t coreSize layout modulesSize metadata).headerSize + layout.executableSize) field <
        Size.bound32 := by
  obtain ⟨-, -, hfinish⟩ := bounds_of_fits h.holdsKernel h.fits
  have hcounted := h.counted_exact
  -- The fields that are not fixed, in the order of the header.
  cases field with
  | magic =>
    show optionalMagic t.format.word < Size.bound32
    cases t.format.word <;> decide
  | codeSize => exact hcounted.codeSize
  | dataSize => exact hcounted.dataSize
  | entryAddress => exact absurd rfl hfield
  | codeBase => exact hcounted.codeBase
  | dataBase => exact h.dataBase_lt
  | sectionAlign => exact hcounted.sectionAlign
  | imageSize => exact hcounted.imageSize
  | headerSize => exact hcounted.headerSize
  | relocationAddress => exact hcounted.relocationAddress
  | relocationSize =>
    show layout.relocationSize < Size.bound32
    omega
  | _ =>
    rw [Plan.optionalValue]
    decide

/-- The headers of a feasible layout can be written. -/
theorem Plan.Feasible.exists_headers {t : Target} {coreSize modulesSize : Nat}
    {layout : Kernel.Layout} {metadata : Option Nat} {machine : Machine}
    (h : Plan.Feasible t coreSize layout modulesSize metadata)
    (hentry : layout.startAddress < Size.bound32) :
    ∃ headers, (Plan.exact t coreSize layout modulesSize metadata).headers machine layout =
      .ok headers := by
  have hbound : Size.bound32 ≤ Size.bound := by decide
  have hcounted := h.counted_exact
  refine Plan.exists_headers roomy_exact (Nat.lt_of_lt_of_le hcounted.headerSize hbound)
    (Nat.lt_of_lt_of_le h.dataBase_lt hbound)
    (Nat.lt_of_le_of_lt length_sections_exact (by decide)) (fun field => ?_) hcounted.sections
  by_cases hfield : field = .entryAddress
  · rw [hfield]
    exact hentry
  · exact h.optionalValue_lt hfield

/-- **Planning at the limits**, where no sum leaves the sizes: a feasible layout gets its exact plan, all
numbers of which have 32 bits. Any other layout is refused, for its capacity unless sizes of the kernel
contradict each other. -/
theorem Plan.make_of_not_overflows {t : Target} {coreSize modulesSize : Nat} {layout : Kernel.Layout}
    {metadata : Option Nat} (hpow : t.sectionAlign.isPowerOfTwo)
    (h : ¬ Plan.Overflows t coreSize layout modulesSize metadata) :
    (Plan.Feasible t coreSize layout modulesSize metadata →
      Plan.make t coreSize layout modulesSize metadata =
          .ok (Plan.exact t coreSize layout modulesSize metadata) ∧
        (Plan.exact t coreSize layout modulesSize metadata).Counted) ∧
    (¬ Plan.Feasible t coreSize layout modulesSize metadata →
      ∃ cause, Plan.make t coreSize layout modulesSize metadata = refuse cause ∧
        (cause.kind = .capacity ∨ Plan.Mismatch t coreSize layout cause)) := by
  constructor
  · intro hfeasible
    exact ⟨Plan.make_of_feasible hfeasible, hfeasible.counted_exact⟩
  · intro hinfeasible
    refine (Plan.failsFor_make hpow h).exists_refused fun plan hplan => ?_
    exact hinfeasible (Plan.feasible_of_make hplan).1

theorem Plan.make_of_not_overflows_oneBlock :
    (Plan.make Target.efiAmd64 0x200 (OneBlock.layout 0x200) 0 none =
        .ok (Plan.exact Target.efiAmd64 0x200 (OneBlock.layout 0x200) 0 none) ∧
      (Plan.exact Target.efiAmd64 0x200 (OneBlock.layout 0x200) 0 none).Counted) ∧
    ∃ cause, Plan.make Target.efiAmd64 Size.bound32 (OneBlock.layout 0x200) 0 none = refuse cause ∧
      (cause.kind = .capacity ∨
        Plan.Mismatch Target.efiAmd64 Size.bound32 (OneBlock.layout 0x200) cause) := by
  have hpow : Target.efiAmd64.sectionAlign.isPowerOfTwo := by decide
  have hsmall : Plan.make Target.efiAmd64 0x200 (OneBlock.layout 0x200) 0 none =
      .ok (Plan.exact Target.efiAmd64 0x200 (OneBlock.layout 0x200) 0 none) :=
    toOption_eq_some_iff.1 (by decide +kernel)
  refine ⟨?_, ?_⟩
  · refine (Plan.make_of_not_overflows hpow ?_).1 (Plan.feasible_of_make hsmall).1
    exact Plan.not_overflows (by decide) (by decide) (by decide)
  · refine (Plan.make_of_not_overflows hpow ?_).2 fun hfeasible => ?_
    · exact Plan.not_overflows (by decide) (by decide) (by decide)
    · -- The end of the core image alone has 33 bits.
      exact absurd hfeasible.counted_exact.imageSize (by decide)

/-- A core image whose end has 33 bits is refused for its format, if more of the kernel is executable than
there is. -/
theorem Plan.make_of_excess :
    Size.bound32 ≤ (Plan.exact Target.efiAmd64 Size.bound32 (OneBlock.layout 0x400) 0 none).imageSize ∧
    Plan.make Target.efiAmd64 Size.bound32 (OneBlock.layout 0x400) 0 none =
      refuse (.executableExceedsKernel 0x400 0x200) ∧
    (Error.executableExceedsKernel 0x400 0x200).kind = .format := by
  refine ⟨by decide, ?_, rfl⟩
  exact failure?_eq_some_iff.1 (by decide +kernel)

/-! ## §3 Wrapping -/

section Wrapping

variable {files : FileSystem} {t : Target} {machine : Machine} {core : Bytes} {layout : Kernel.Layout}
  {modulesSize : Nat} {path : Option Path}

/-- **Wrapping succeeds** exactly when the metadata is a file and the layout is feasible. -/
theorem exists_wrap_pe_iff (ht : t.container = .pe machine) (hentry : layout.startAddress < Size.bound32) :
    (∃ image, Container.wrap files t core layout modulesSize path = .ok image) ↔
      (∀ p ∈ path, ∃ content, files.content? p = some content) ∧
        Plan.Feasible t core.length layout modulesSize
          (path.map fun p => (files.contentAt p).length) := by
  refine ⟨?_, ?_⟩
  · intro h
    rcases h with ⟨image, h⟩
    obtain ⟨hfiles, hfeasible, -⟩ := (wrap_pe_eq_ok_iff ht).1 h
    exact ⟨hfiles, hfeasible⟩
  · intro h
    rcases h with ⟨hfiles, hfeasible⟩
    obtain ⟨headers, hheaders⟩ := hfeasible.exists_headers hentry
    exact ⟨_, (wrap_pe_eq_ok_iff ht).2 ⟨hfiles, hfeasible, headers, hheaders, rfl⟩⟩

/-- The room for secure-boot metadata is not much larger than the metadata. -/
theorem space_le (word : WordWidth) (metadata : Option Nat) :
    (metadata.map (metadataSpace word)).getD 0 ≤ metadata.getD 0 + 8 + Target.peFileAlign := by
  cases metadata with
  | none => exact Nat.zero_le _
  | some size =>
    have hword : Alignment.roundUp word.bytes size < size + word.bytes :=
      Alignment.roundUp_lt word.bytes_pos size
    have hfile : metadataSpace word size < Alignment.roundUp word.bytes size + Target.peFileAlign :=
      Alignment.roundUp_lt (by decide) _
    have hbytes : word.bytes ≤ 8 := by cases word <;> decide
    rw [Option.map_some, Option.getD_some, Option.getD_some]
    omega

/-- **Wrapping never faults** where the core image, the relocation table and the metadata are together
a size, with some room for rounding: it refuses a core image while planning, or gives an image. -/
theorem faultFree_wrap_pe (ht : t.container = .pe machine) (hentry : layout.startAddress < Size.bound32)
    (hpow : t.sectionAlign.isPowerOfTwo) (hcore : layout.kernelSize + modulesSize ≤ core.length)
    (hsum : core.length + layout.relocationSize +
      (path.map fun p => (files.contentAt p).length).getD 0 + 0x1000 < Size.bound) :
    FaultFree (Container.wrap files t core layout modulesSize path) := by
  have hpos : 0 < Target.peFileAlign := by decide
  -- The headers and four times the file alignment are what rounding can add.
  have hslack : headerSize t.format.word + 4 * Target.peFileAlign + 8 ≤ 0x1000 := by
    cases t.format.word <;> decide
  have hspace := space_le t.format.word (path.map fun p => (files.contentAt p).length)
  have hfinish := Alignment.roundUp_lt hpos (headerSize t.format.word + core.length)
  have htable := Alignment.roundUp_lt hpos layout.relocationSize
  have hkernel := Alignment.roundUp_lt hpos (layout.kernelSize - layout.executableSize)
  have hmodules := Alignment.roundUp_lt hpos modulesSize
  have himage : (Plan.exact t core.length layout modulesSize
      (path.map fun p => (files.contentAt p).length)).imageSize < Size.bound := by
    show modulesEnd t.format.word core.length +
      Alignment.roundUp Target.peFileAlign layout.relocationSize + _ < _
    rw [modulesEnd]
    omega
  have hdata : Plan.exactDataSize t.format.word layout modulesSize
      (path.map fun p => (files.contentAt p).length) < Size.bound := by
    rw [Plan.exactDataSize, dataRoom]
    omega
  rw [Container.wrap, checkMetadata_of_pe ht, ok_bind, ht]
  refine (files.faultFree_mapM_size path).bind fun size hsize => ?_
  obtain ⟨hfiles, rfl⟩ := FileSystem.mapM_size_eq_ok_iff.1 hsize
  refine (Plan.faultFree_make hpow (by omega) himage hdata).bind fun plan hplan => ?_
  obtain ⟨hfeasible, rfl⟩ := Plan.make_eq_ok_iff.1 hplan
  -- What was planned is written.
  obtain ⟨headers, hheaders⟩ := hfeasible.exists_headers hentry
  have hwrite := (Plan.write_exact_eq_ok_iff hfeasible.holdsKernel).2
    ⟨headers, _, hheaders, (supplied_iff hfiles).2 rfl, rfl⟩
  exact faultFree_of_eq_ok hwrite

end Wrapping

end BootImage.Pe
