import BootImage.Proofs.Build.Flat

/-!
# Which bytes of a core image the sections of a PE image hold

The core image lies in the file without a gap, but its sections are laid out one behind the other,
each from a multiple of the file alignment on. The two agree only where the executable part and the
kernel end at such multiples; elsewhere the section table passes over some bytes of the core image.

- `SectionEntry.Covers`: whether the file range of a section holds an offset.
- `covers_kernel_iff`, `covers_modules_iff`, `covers_core_iff`: the ranges as numbers.
- `sections_cover_iff`: the section table of an image.
-/

namespace BootImage.Pe

/-! ## §1 Ranges of the file -/

/-- Whether the part of the file that a section names holds an offset. -/
def SectionEntry.Covers (entry : SectionEntry) (offset : Nat) : Prop :=
  entry.rawOffset ≤ offset ∧ offset < entry.rawOffset + entry.rawSize

/-- Whether a range that starts at an offset holds all of it. -/
def CoveredBy (covers : Nat → Prop) (start size : Nat) : Prop :=
  ∀ offset, start ≤ offset → offset < start + size → covers offset

section Ranges

variable {align start code kernel modules : Nat}

/-- Two sections that start at multiples of the alignment hold the kernel exactly when the first one
ends at such a multiple, or holds all of it. -/
theorem covers_kernel_iff (hpos : 0 < align) (hcode : code ≤ kernel) :
    CoveredBy (fun offset => (start ≤ offset ∧ offset < start + code) ∨
        (start + Alignment.roundUp align code ≤ offset ∧ offset < start +
          Alignment.roundUp align code + Alignment.roundUp align (kernel - code))) start kernel ↔
      align ∣ code ∨ code = kernel := by
  have hround := Alignment.le_roundUp hpos code
  have hrest := Alignment.le_roundUp hpos (kernel - code)
  refine ⟨?_, ?_⟩
  · intro hcovered
    rcases Nat.eq_or_lt_of_le hcode with heq | hlt
    · exact .inr heq
    · -- The byte behind the code is in the second section only if nothing was rounded.
      rcases hcovered (start + code) (by omega) (by omega) with hfirst | hsecond
      · omega
      · exact .inl ((Alignment.roundUp_eq_self_iff hpos).1 (by omega))
  -- Without a gap the two sections meet; without data there is nothing behind the first.
  · rintro (hdvd | heq)
    · have hself := Alignment.roundUp_eq_self hpos hdvd
      intro offset hlow hhigh
      omega
    · intro offset hlow hhigh
      exact .inl ⟨hlow, by omega⟩

/-- The section behind those of the kernel holds all modules exactly when both of them end at
multiples of the alignment. -/
theorem covers_modules_iff (hpos : 0 < align) (hcode : code ≤ kernel) (hmodules : 0 < modules)
    {finish : Nat} (hfinish : start + (kernel + modules) ≤ finish) :
    CoveredBy (fun offset => start + Alignment.roundUp align code +
        Alignment.roundUp align (kernel - code) ≤ offset ∧ offset < start +
          Alignment.roundUp align code + Alignment.roundUp align (kernel - code) +
            (finish - (start + Alignment.roundUp align code +
              Alignment.roundUp align (kernel - code)))) (start + kernel) modules ↔
      align ∣ code ∧ align ∣ kernel := by
  have hround := Alignment.le_roundUp hpos code
  have hrest := Alignment.le_roundUp hpos (kernel - code)
  refine ⟨?_, ?_⟩
  · intro hcovered
    -- The first byte of the modules already needs both sections in front to end without rounding.
    obtain ⟨hlow, -⟩ := hcovered (start + kernel) (by omega) (by omega)
    have hfirst := (Alignment.roundUp_eq_self_iff hpos).1
      (show Alignment.roundUp align code = code by omega)
    have hsecond := (Alignment.roundUp_eq_self_iff hpos).1
      (show Alignment.roundUp align (kernel - code) = kernel - code by omega)
    refine ⟨hfirst, ?_⟩
    have hsum := Nat.dvd_add hfirst hsecond
    rwa [Nat.add_sub_cancel' hcode] at hsum
  · intro h
    rcases h with ⟨hfirst, hsecond⟩
    have hself := Alignment.roundUp_eq_self hpos hfirst
    have hself' := Alignment.roundUp_eq_self hpos (Nat.dvd_sub hsecond hfirst)
    intro offset hlow hhigh
    omega

/-- The three sections together hold the core image exactly when the first one ends at a multiple of
the alignment. -/
theorem covers_core_iff (hpos : 0 < align) (hcode : code ≤ kernel) (hmodules : 0 < modules)
    {finish : Nat} (hfinish : start + (kernel + modules) ≤ finish) {later : Nat → Prop}
    (hlater : ∀ offset, later offset → finish ≤ offset) :
    CoveredBy (fun offset => (start ≤ offset ∧ offset < start + code) ∨
        (start + Alignment.roundUp align code ≤ offset ∧ offset < start +
          Alignment.roundUp align code + Alignment.roundUp align (kernel - code)) ∨
        (start + Alignment.roundUp align code + Alignment.roundUp align (kernel - code) ≤ offset ∧
          offset < start + Alignment.roundUp align code + Alignment.roundUp align (kernel - code) +
            (finish - (start + Alignment.roundUp align code +
              Alignment.roundUp align (kernel - code)))) ∨ later offset)
        start (kernel + modules) ↔ align ∣ code := by
  have hround := Alignment.le_roundUp hpos code
  refine ⟨?_, ?_⟩
  · intro hcovered
    -- The byte behind the code again; there is one, since there are modules.
    have hgap := hcovered (start + code) (by omega) (by omega)
    apply (Alignment.roundUp_eq_self_iff hpos).1
    rcases hgap with hfirst | hsecond | hthird | hother
    · omega
    · omega
    · omega
    · have := hlater _ hother
      omega
  · intro hdvd
    have hself := Alignment.roundUp_eq_self hpos hdvd
    intro offset hlow hhigh
    omega

end Ranges

/-! ## §2 The section table of an image -/

/-- The section of the data starts behind the code, rounded up. -/
theorem offset_after_code (sectionAlign : Nat) (word : WordWidth) (layout : Kernel.Layout) :
    ((Cursor.start word).behind sectionAlign layout.executableSize).offset =
      headerSize word + Alignment.roundUp Target.peFileAlign layout.executableSize :=
  Alignment.roundUp_add (by decide) (dvd_headerSize word) _

/-- The section table of an exact plan: the three sections of the core image, then sections that
start behind it. -/
theorem entries_exact {t : Target} {coreSize : Nat} (modulesSize : Nat) {layout : Kernel.Layout}
    {metadata : Option Nat}
    (h : modulesStart t.format.word layout ≤ modulesEnd t.format.word coreSize) :
    ∃ text data modules rest,
      (Plan.exact t coreSize layout modulesSize metadata).sections.map Section.entry =
        text :: data :: modules :: rest ∧
      [text, data, modules].map (·.name) =
        [SectionRole.text, .data, .modules].map (fun role => (Bytes.ofText role.name).resize 8) ∧
      (text.rawOffset = headerSize t.format.word ∧ text.rawSize = layout.executableSize) ∧
      (data.rawOffset = headerSize t.format.word +
          Alignment.roundUp Target.peFileAlign layout.executableSize ∧
        data.rawSize = dataRoom layout) ∧
      (modules.rawOffset = modulesStart t.format.word layout ∧
        modules.rawSize = modulesEnd t.format.word coreSize - modulesStart t.format.word layout) ∧
      ∀ entry ∈ rest, modulesEnd t.format.word coreSize ≤ entry.rawOffset := by
  have hcode := offset_after_code t.sectionAlign t.format.word layout
  have hkernel := offset_after_kernel t.sectionAlign t.format.word layout
  have hcore := offset_after_core t.sectionAlign h
  have hparts : ((Cursor.start t.format.word).after t.sectionAlign (parts t.format.word coreSize layout
      metadata)).offset = _ := offset_after_parts h
  rw [sections_exact, lay_coreParts]
  refine ⟨_, _, _, _, rfl, rfl, ⟨rfl, rfl⟩, ⟨hcode, rfl⟩, ⟨hkernel, rfl⟩, ?_⟩
  intro entry hentry
  obtain ⟨s, hs, rfl⟩ := List.mem_map.1 hentry
  rcases List.mem_append.1 hs with hs | hs
  · -- There is at most one section between the core image and the relocation table.
    cases metadata with
    | none => exact absurd hs List.not_mem_nil
    | some size =>
      cases List.mem_singleton.1 hs
      exact Nat.le_of_eq hcore.symm
  · cases List.mem_singleton.1 hs
    exact Nat.le_trans (Nat.le_add_right _ _) (Nat.le_of_eq hparts.symm)

/-- **What the sections hold.** The section table of an image without a stub names the sections of the
kernel and of the modules first. The first two hold the kernel exactly when the executable part ends
at a multiple of the file alignment or is all of the kernel; the third holds the modules exactly when
the executable part and the kernel both end at such multiples; and unless the executable part does,
some byte of the core image lies in no section at all. -/
theorem sections_cover_iff {files : FileSystem} {codecs : Codecs} {loader : Kernel.Loader}
    {configuration : Configuration} {machine : Machine} {out : Bytes}
    (ht : configuration.target.container = .pe machine)
    (hstub : configuration.target.hasStub = false)
    (h : Build.image files codecs loader configuration = .ok out) :
    ∃ plan loaded headers text data modules rest,
      Build.regionPlan files configuration = .ok plan ∧
      loader.load (Build.kernelRequest configuration plan) = .ok loaded ∧
      Headers.read? configuration.target.format.order out = some headers ∧
      headers.sections = text :: data :: modules :: rest ∧
      [text, data, modules].map (·.name) =
        [SectionRole.text, .data, .modules].map (fun role => (Bytes.ofText role.name).resize 8) ∧
      (CoveredBy (fun offset => text.Covers offset ∨ data.Covers offset)
          (headerSize configuration.target.format.word) loaded.layout.kernelSize ↔
        Target.peFileAlign ∣ loaded.layout.executableSize ∨
          loaded.layout.executableSize = loaded.layout.kernelSize) ∧
      (CoveredBy modules.Covers
          (headerSize configuration.target.format.word + loaded.layout.kernelSize) plan.totalSize ↔
        Target.peFileAlign ∣ loaded.layout.executableSize ∧
          Target.peFileAlign ∣ loaded.layout.kernelSize) ∧
      (CoveredBy (fun offset => ∃ entry ∈ headers.sections, entry.Covers offset)
          (headerSize configuration.target.format.word) (loaded.layout.kernelSize + plan.totalSize) ↔
        Target.peFileAlign ∣ loaded.layout.executableSize) := by
  have hpos : 0 < Target.peFileAlign := by decide
  obtain ⟨plan, loaded, finished, hplan, hloaded, hlen, hwrap⟩ := Build.wrapped_noStub hstub h
  obtain ⟨-, hfeasible, headers, hheaders, rfl⟩ := (wrap_pe_eq_ok_iff ht).1 hwrap
  -- A reader finds the planned sections in the headers.
  have hread := Plan.read?_of_headers roomy_exact hheaders
    (finished ++ behindCore configuration.target.format.word finished.length loaded.layout
      (configuration.metadata.map fun p => (files.contentAt p).length)
      (configuration.metadata.map files.contentAt))
  obtain ⟨text, data, modules, rest, hsections, hnames, ⟨htext, htextSize⟩, ⟨hdata, hdataSize⟩,
    ⟨hmodules, hmodulesSize⟩, hrest⟩ := entries_exact _ hfeasible.holdsKernel
  have hend := le_modulesEnd configuration.target.format.word finished.length
  have hcode := hfeasible.executable
  have htotal := Build.totalSize_pos hplan
  rw [hlen] at hend hmodulesSize hrest
  refine ⟨plan, loaded, _, text, data, modules, rest, hplan, hloaded, hread, hsections, hnames,
    ?_, ?_, ?_⟩
  · simp only [SectionEntry.Covers, htext, htextSize, hdata, hdataSize]
    exact covers_kernel_iff hpos hcode
  · show CoveredBy (fun offset => modules.rawOffset ≤ offset ∧
      offset < modules.rawOffset + modules.rawSize) _ _ ↔ _
    rw [hmodules, hmodulesSize]
    exact covers_modules_iff hpos hcode htotal hend
  · rw [Plan.stated, hsections]
    simp only [List.mem_cons, exists_eq_or_imp, SectionEntry.Covers, htext, htextSize, hdata, hdataSize,
      hmodules, hmodulesSize]
    apply covers_core_iff hpos hcode htotal hend
    rintro offset ⟨entry, hentry, hlow, -⟩
    exact Nat.le_trans (hrest entry hentry) hlow

/-! ### A kernel of one block, and a kernel of one word -/

namespace Aligned

/-- A file system in which every file fills one block. -/
def files : FileSystem := ⟨fun _ => .ok (.regular (List.replicate 512 0x90))⟩

/-- A configuration with nothing but a kernel. -/
def configuration : Configuration where
  target := Target.efiAmd64
  directory := ⟨"p"⟩

theorem exists_image : ∃ out, Build.image files ⟨.identity, .identity⟩ (.flat files) configuration =
    .ok out := by
  have ht : configuration.target ∈ Target.registry := by decide
  have hfiles : files.Bounded := by
    intro path content hcontent
    cases hcontent
    decide +kernel
  refine (Build.exists_image_iff (Target.regular_of_mem_registry ht) hfiles).2 ⟨⟨.inl rfl, ?_, ?_⟩, ?_,
    ⟨_, rfl⟩, ?_⟩
  · intro input hinput
    cases hinput
  · decide +kernel
  · intro path hpath
    cases hpath
  · rw [Build.contained_pe rfl]
    unfold Section.EndsWithin
    decide +kernel

end Aligned

theorem sections_cover_iff_aligned :
    ∃ out, Build.image Aligned.files ⟨.identity, .identity⟩ (.flat Aligned.files)
        Aligned.configuration = .ok out ∧
      ∃ plan loaded headers text data modules rest,
        Build.regionPlan Aligned.files Aligned.configuration = .ok plan ∧
        (Kernel.Loader.flat Aligned.files).load (Build.kernelRequest Aligned.configuration plan) =
          .ok loaded ∧
        Headers.read? .little out = some headers ∧
        headers.sections = text :: data :: modules :: rest ∧
        [text, data, modules].map (·.name) =
          [SectionRole.text, .data, .modules].map (fun role => (Bytes.ofText role.name).resize 8) ∧
        (CoveredBy (fun offset => text.Covers offset ∨ data.Covers offset) (headerSize .w64)
            loaded.layout.kernelSize ↔
          Target.peFileAlign ∣ loaded.layout.executableSize ∨
            loaded.layout.executableSize = loaded.layout.kernelSize) ∧
        (CoveredBy modules.Covers (headerSize .w64 + loaded.layout.kernelSize) plan.totalSize ↔
          Target.peFileAlign ∣ loaded.layout.executableSize ∧
            Target.peFileAlign ∣ loaded.layout.kernelSize) ∧
        (CoveredBy (fun offset => ∃ entry ∈ headers.sections, entry.Covers offset) (headerSize .w64)
            (loaded.layout.kernelSize + plan.totalSize) ↔
          Target.peFileAlign ∣ loaded.layout.executableSize) := by
  obtain ⟨out, hbuild⟩ := Aligned.exists_image
  exact ⟨out, hbuild, sections_cover_iff rfl rfl hbuild⟩

namespace Unaligned

/-- A file system in which every file holds one byte. -/
def files : FileSystem := ⟨fun _ => .ok (.regular [0x90])⟩

/-- A configuration with nothing but a kernel. -/
def configuration : Configuration where
  target := Target.efiI386
  directory := ⟨"p"⟩

end Unaligned

set_option maxRecDepth 100000 in
/-- The section of the code ends behind the kernel of four bytes, and that of the modules starts at the
next multiple of the file alignment; the module region in between is in no section. -/
theorem sections_miss_modules :
    ∃ out headers, Build.image Unaligned.files ⟨.identity, .identity⟩ (.flat Unaligned.files)
        Unaligned.configuration = .ok out ∧
      Headers.read? .little out = some headers ∧
      ¬ CoveredBy (fun offset => ∃ entry ∈ headers.sections, entry.Covers offset)
        (headerSize .w32 + 4) 12 := by
  have hread : (Build.image Unaligned.files ⟨.identity, .identity⟩ (.flat Unaligned.files)
      Unaligned.configuration).toOption.bind (fun out => (Headers.read? .little out).map fun headers =>
        headers.sections.map fun entry => (entry.rawOffset, entry.rawSize)) =
      some [(0x400, 4), (0x600, 0), (0x600, 0), (0x600, 0)] := by decide +kernel
  obtain ⟨out, hbuild, hread⟩ := Option.bind_eq_some_iff.1 hread
  obtain ⟨headers, hheaders, hsections⟩ := Option.map_eq_some_iff.1 hread
  refine ⟨out, headers, toOption_eq_some_iff.1 hbuild, hheaders, fun hcovered => ?_⟩
  obtain ⟨entry, hentry, hlow, hhigh⟩ := hcovered 0x404 (by decide) (by decide)
  have hmem := List.mem_map_of_mem (f := fun entry : SectionEntry => (entry.rawOffset, entry.rawSize))
    hentry
  simp only [hsections, List.mem_cons, Prod.mk.injEq, List.not_mem_nil, or_false] at hmem
  omega

end BootImage.Pe
