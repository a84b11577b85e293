import BootImage.Proofs.Build.Stub
import BootImage.Proofs.Pe.Coverage

/-!
# Where a PE image is entered

The entry address of an image is the address that the loader of its kernel reports, relative to the
image. The headers come first in memory as they do in the file, and the code behind them at the same
distance; so an address that counts from the start of the kernel is one in the headers, which no
section holds.

- `Headers.fileOffset?_head`, `Headers.fileOffset?_eq_none`: addresses in the first section, and in
  none.
- `Cursor.le_virtualAddress_of_mem_lay`: no section lies in front of the first.
- `entry_denotes_kernel_iff`: where the entry address of an image leads to.
-/

namespace BootImage.Pe

/-! ## §1 Addresses and sections -/

section Addresses

variable {headers : Headers} {text : SectionEntry} {rest : List SectionEntry} {address : Nat}

theorem SectionEntry.holds_iff {entry : SectionEntry} :
    entry.holds address = true ↔ entry.virtualAddress ≤ address ∧
      address < entry.virtualAddress + min entry.virtualSize entry.rawSize := by
  simp [holds]

/-- An address in the first section is found there. -/
theorem Headers.fileOffset?_head (hsections : headers.sections = text :: rest)
    (h : text.holds address = true) :
    headers.fileOffset? address = some (text.rawOffset + (address - text.virtualAddress)) := by
  simp [fileOffset?, hsections, h]

/-- An address in front of all sections is in no file. -/
theorem Headers.fileOffset?_eq_none
    (h : ∀ entry ∈ headers.sections, address < entry.virtualAddress) :
    headers.fileOffset? address = none := by
  simp only [fileOffset?, Option.map_eq_none_iff, List.find?_eq_none, SectionEntry.holds_iff]
  intro entry hentry hholds
  exact absurd hholds.1 (Nat.not_le.2 (h entry hentry))

/-- No section lies in front of the cursor that it was laid out from. -/
theorem Cursor.le_virtualAddress_of_mem_lay {sectionAlign : Nat} (hpos : 0 < sectionAlign)
    {cursor : Cursor} {parts : List Part} :
    ∀ s ∈ cursor.lay sectionAlign parts, cursor.address ≤ s.virtualAddress := by
  induction parts generalizing cursor with
  | nil => simp [lay]
  | cons part parts ih =>
    rw [lay, List.forall_mem_cons]
    refine ⟨Nat.le_refl _, fun s hs => ?_⟩
    -- The cursor behind a section is behind its start.
    have hbehind : cursor.address ≤ (cursor.behind sectionAlign part.size).address :=
      Nat.le_trans (Nat.le_add_right _ _) (Alignment.le_roundUp hpos _)
    exact Nat.le_trans hbehind (ih s hs)

end Addresses

/-! ## §2 Entry addresses -/

section Image

variable {files : FileSystem} {codecs : Codecs} {loader : Kernel.Loader} {configuration : Configuration}
  {machine : Machine} {out : Bytes}

/-- What the headers of an image say about its start: the entry address is the one that was reported,
the first section is that of the code, at the end of the headers in the file and in memory, and no
section lies in front of it. -/
theorem start_of_image (ht : configuration.target.container = .pe machine)
    (h : Build.image files codecs loader configuration = .ok out) :
    ∃ plan loaded headers text rest,
      Build.regionPlan files configuration = .ok plan ∧
      loader.load (Build.kernelRequest configuration plan) = .ok loaded ∧
      Headers.read? configuration.target.format.order out = some headers ∧
      headers.optional.entryAddress = loaded.layout.startAddress ∧
      headers.sections = text :: rest ∧
      text = Section.entry ⟨.text, loaded.layout.executableSize,
        headerSize configuration.target.format.word, loaded.layout.executableSize,
        headerSize configuration.target.format.word⟩ ∧
      ∀ entry ∈ headers.sections,
        headerSize configuration.target.format.word ≤ entry.virtualAddress := by
  obtain ⟨hplannable, loaded, hloaded, husable, unpacked, hunpacked, finished, hfinished, hwrap⟩ :=
    Build.image_eq_ok_iff.1 h
  obtain ⟨-, hfeasible, headers, hheaders, rfl⟩ := (wrap_pe_eq_ok_iff ht).1 hwrap
  refine ⟨_, loaded, _, _, _, Build.regionPlan_eq_ok_iff.2 ⟨hplannable, rfl⟩, hloaded,
    Plan.read?_of_headers roomy_exact hheaders _, rfl, rfl, rfl, ?_⟩
  intro entry hentry
  obtain ⟨s, hs, rfl⟩ := List.mem_map.1 hentry
  exact Cursor.le_virtualAddress_of_mem_lay (Nat.pos_of_isPowerOfTwo hfeasible.aligned) s hs

/-- The kernel in an image of a target without a stub that does not carry the size of the region. -/
theorem slice_kernel_of_image (ht : configuration.target.container = .pe machine)
    (hstub : configuration.target.hasStub = false)
    (hpatch : configuration.target.carries .totalModuleSize = false)
    (h : Build.image files codecs loader configuration = .ok out) {plan : ModuleRegion.Plan}
    (hplan : Build.regionPlan files configuration = .ok plan) {loaded : Kernel.Loaded}
    (hloaded : loader.load (Build.kernelRequest configuration plan) = .ok loaded) :
    out.slice (headerSize configuration.target.format.word +
      Build.kernelOffset configuration.target plan.totalSize) loaded.layout.kernelSize = loaded.blob := by
  obtain ⟨hplannable, rfl⟩ := Build.regionPlan_eq_ok_iff.1 hplan
  obtain ⟨-, used, hused, husable, hwrap⟩ := (Build.image_noStub_eq_ok_iff hstub hpatch).1 h
  obtain rfl := Except.ok.inj (hloaded.symm.trans hused)
  obtain ⟨rest, hrest⟩ := Build.prefix_of_wrap hwrap
  have hlen := hplannable.length_core husable
  have hkernel := Build.slice_assemble configuration.target loaded.blob (Build.region files configuration)
  rw [hplannable.length_region, husable.length_blob] at hkernel
  rw [Build.coreOffset, ht] at hrest
  -- The kernel is a range of the core image, which is a range of the image.
  rw [← Bytes.slice_drop, hrest, Bytes.slice_append_left ?_]
  · exact hkernel
  · rw [hlen, Build.kernelOffset]
    split <;> omega

/-- **Where an image is entered.** The entry address is the one that the loader reports. It is in the
section of the code and leads to the first byte of the kernel exactly when the loader reports the
distance of that byte from the start of the image, and the code reaches so far. A flat kernel is
reported to start at zero, so an image with a flat kernel is entered in its headers, which are in no
section. -/
theorem entry_denotes_kernel_iff (ht : configuration.target.container = .pe machine)
    (h : Build.image files codecs loader configuration = .ok out) :
    ∃ plan loaded headers text rest,
      Build.regionPlan files configuration = .ok plan ∧
      loader.load (Build.kernelRequest configuration plan) = .ok loaded ∧
      Headers.read? configuration.target.format.order out = some headers ∧
      headers.sections = text :: rest ∧
      text.name = (Bytes.ofText SectionRole.text.name).resize 8 ∧
      (configuration.target.hasStub = false → configuration.target.carries .totalModuleSize = false →
        out.slice (headerSize configuration.target.format.word +
          Build.kernelOffset configuration.target plan.totalSize) loaded.layout.kernelSize =
            loaded.blob) ∧
      headers.optional.entryAddress = loaded.layout.startAddress ∧
      (text.holds headers.optional.entryAddress = true ∧
          headers.fileOffset? headers.optional.entryAddress =
            some (headerSize configuration.target.format.word +
              Build.kernelOffset configuration.target plan.totalSize) ↔
        loaded.layout.startAddress = headerSize configuration.target.format.word +
            Build.kernelOffset configuration.target plan.totalSize ∧
          Build.kernelOffset configuration.target plan.totalSize < loaded.layout.executableSize) ∧
      (loader = .flat files → headers.optional.entryAddress = 0 ∧
        headers.fileOffset? headers.optional.entryAddress = none) := by
  obtain ⟨plan, loaded, headers, text, rest, hplan, hloaded, hread, hentry, hsections, rfl, hbehind⟩ :=
    start_of_image ht h
  refine ⟨plan, loaded, headers, _, rest, hplan, hloaded, hread, hsections, rfl,
    fun hstub hpatch => slice_kernel_of_image ht hstub hpatch h hplan hloaded, hentry, ?_, ?_⟩
  · rw [hentry, SectionEntry.holds_iff]
    simp only [Section.entry, Nat.min_self]
    refine ⟨?_, ?_⟩
    · intro hdenotes
      rcases hdenotes with ⟨⟨hlow, hhigh⟩, hoffset⟩
      -- In the section of the code, addresses are offsets.
      rw [Headers.fileOffset?_head hsections (SectionEntry.holds_iff.2 (by
        simpa [Section.entry] using ⟨hlow, hhigh⟩)), Option.some.injEq] at hoffset
      simp only [Section.entry] at hoffset
      omega
    · intro hstart
      rcases hstart with ⟨hstart, hcode⟩
      refine ⟨by omega, ?_⟩
      rw [hstart, Headers.fileOffset?_head hsections (SectionEntry.holds_iff.2 (by
        simpa [Section.entry] using hcode)), Option.some.injEq]
      simp only [Section.entry]
      omega
  · rintro rfl
    obtain ⟨content, -, -, rfl⟩ := Kernel.Loader.flat_eq_ok_iff.1 hloaded
    have hheaders : 0 < headerSize configuration.target.format.word := by
      cases configuration.target.format.word <;> decide
    rw [hentry]
    refine ⟨rfl, Headers.fileOffset?_eq_none fun entry hmem => ?_⟩
    exact Nat.lt_of_lt_of_le hheaders (hbehind entry hmem)

end Image

theorem entry_denotes_kernel_iff_aligned :
    ∃ out, Build.image Aligned.files ⟨.identity, .identity⟩ (.flat Aligned.files)
        Aligned.configuration = .ok out ∧
      ∃ plan loaded headers text rest,
        Build.regionPlan Aligned.files Aligned.configuration = .ok plan ∧
        (Kernel.Loader.flat Aligned.files).load (Build.kernelRequest Aligned.configuration plan) =
          .ok loaded ∧
        Headers.read? .little out = some headers ∧
        headers.sections = text :: rest ∧
        text.name = (Bytes.ofText SectionRole.text.name).resize 8 ∧
        out.slice (headerSize .w64) loaded.layout.kernelSize = loaded.blob ∧
        headers.optional.entryAddress = 0 ∧
        headers.fileOffset? headers.optional.entryAddress = none := by
  obtain ⟨out, hbuild⟩ := Aligned.exists_image
  obtain ⟨plan, loaded, headers, text, rest, hplan, hloaded, hread, hsections, hname, hkernel, -, -,
    hflat⟩ := entry_denotes_kernel_iff rfl hbuild
  exact ⟨out, hbuild, plan, loaded, headers, text, rest, hplan, hloaded, hread, hsections, hname,
    hkernel rfl rfl, hflat rfl⟩

/-- The code of a flat kernel lies in the file and in memory at the end of the headers, but the image is
entered at its very start, which is in no section. -/
theorem entry_in_headers :
    ∃ out headers, Build.image Aligned.files ⟨.identity, .identity⟩ (.flat Aligned.files)
        Aligned.configuration = .ok out ∧
      Headers.read? .little out = some headers ∧
      out.slice 0x400 512 = List.replicate 512 0x90 ∧
      headers.fileOffset? 0x400 = some 0x400 ∧
      headers.optional.entryAddress = 0 ∧
      (∀ entry ∈ headers.sections, entry.holds headers.optional.entryAddress = false) ∧
      headers.fileOffset? headers.optional.entryAddress = none := by
  obtain ⟨out, hbuild⟩ := Aligned.exists_image
  obtain ⟨plan, loaded, headers, text, rest, hplan, hloaded, hread, hentry, hsections, rfl, hbehind⟩ :=
    start_of_image rfl hbuild
  have hkernel := slice_kernel_of_image rfl rfl rfl hbuild hplan hloaded
  obtain ⟨content, hcontent, -, rfl⟩ := Kernel.Loader.flat_eq_ok_iff.1 hloaded
  cases hcontent
  -- The file has whole words, so the blob is the file.
  have hwords : WordWidth.w64.bytes ∣ (List.replicate 512 (0x90 : UInt8)).length := by decide +kernel
  have hsize : Kernel.flatSize .w64 (List.replicate 512 0x90) = 512 :=
    (Kernel.flatSize_of_dvd hwords).trans List.length_replicate
  have hslice : out.slice 0x400 (Kernel.flatSize .w64 (List.replicate 512 0x90)) =
      (Kernel.Loaded.ofFlat .w64 (List.replicate 512 0x90) plan.totalSize).blob := hkernel
  rw [hsize, Kernel.blob_ofFlat_of_dvd hwords] at hslice
  have hfront : ∀ entry ∈ headers.sections, 0 < entry.virtualAddress := fun entry hmem =>
    Nat.lt_of_lt_of_le (by decide) (hbehind entry hmem)
  have hzero : headers.optional.entryAddress = 0 := hentry
  refine ⟨out, headers, hbuild, hread, hslice, ?_, hzero, ?_, ?_⟩
  · refine Headers.fileOffset?_head hsections (SectionEntry.holds_iff.2 ⟨Nat.le_refl _, ?_⟩)
    show 0x400 < 0x400 + min (Kernel.flatSize .w64 (List.replicate 512 0x90))
      (Kernel.flatSize .w64 (List.replicate 512 0x90))
    rw [hsize]
    decide
  · intro entry hmem
    rw [hzero, Bool.eq_false_iff, Ne, SectionEntry.holds_iff]
    exact fun hholds => absurd hholds.1 (Nat.not_le.2 (hfront entry hmem))
  · rw [hzero]
    exact Headers.fileOffset?_eq_none hfront

end BootImage.Pe
