import BootImage.Proofs.Pe.Layout

/-!
# Planning an image at the limits of sizes

How planning an image ends where it does not give a plan. A number that is too large for its field is
refused for its capacity, and sizes of the kernel that contradict each other for their format. The sums of
sizes are not checked. Where one of them leaves the sizes, planning stops.

- `Plan.Mismatch`: sizes of the kernel that contradict each other.
- `Plan.Overflows`: the layouts at which a sum leaves the sizes.
- `Plan.failsFor_make`: all other layouts are planned or refused; `Plan.make_of_overflows`: these stop it.
- `Plan.faultFree_make`: nothing stops it where the sums of whole images are sizes.
-/

namespace BootImage.Pe

/-! ## §1 Steps that are refused -/

/-- A number of more than 32 bits is refused for its capacity, under the name of its field. -/
theorem failsWith_headerValue (what : String) (size : Nat) : FailsWith .capacity (headerValue what size) :=
  Size.failsWith_to32

/-- Rounding metadata to words and then to blocks can only fail for its capacity. -/
theorem failsWith_metadataRoom (t : Target) (size : Nat) : FailsWith .capacity (metadataRoom t size) :=
  (t.failsWith_alignToWord size).bind fun aligned _ => failsWith_alignToFile aligned

/-- So can the step that looks whether there is any metadata. -/
theorem failsWith_metadataRooms (t : Target) (metadata : Option Nat) :
    FailsWith .capacity (metadata.mapM (metadataRoom t)) := by
  cases metadata with
  | none => exact failsWith_ok _ _
  | some size =>
    rw [Option.mapM_some]
    exact FailsFor.map (failsWith_metadataRoom t size)

/-- There is a section exactly if 32 bits suffice for it. -/
theorem Cursor.append_eq_ok_iff_takes {cursor : Cursor} {sectionAlign size : Nat} {role : SectionRole}
    (hpow : sectionAlign.isPowerOfTwo) {placed : Section × Cursor} :
    cursor.append sectionAlign role size = .ok placed ↔ cursor.Takes sectionAlign size ∧
      placed = (⟨role, size, cursor.address, size, cursor.offset⟩, cursor.behind sectionAlign size) := by
  rw [append_eq_ok_iff, and_iff_right hpow, Prod.mk.injEq]

/-! ## §2 Layouts that are not planned -/

/-- Sizes of the kernel that contradict each other, and what planning calls them. -/
inductive Plan.Mismatch (t : Target) (coreSize : Nat) (layout : Kernel.Layout) : Error → Prop
  /-- More of the kernel is executable than there is. -/
  | executable (h : layout.kernelSize < layout.executableSize) :
    Mismatch t coreSize layout (.executableExceedsKernel layout.executableSize layout.kernelSize)
  /-- The core image ends in front of the place at which its modules would start. -/
  | core (h : modulesEnd t.format.word coreSize < modulesStart t.format.word layout) :
    Mismatch t coreSize layout (.coreSmallerThanKernel coreSize)

/-- The layouts at which planning gets to a sum that is no size. -/
inductive Plan.Overflows (t : Target) (coreSize : Nat) (layout : Kernel.Layout) (modulesSize : Nat)
    (metadata : Option Nat) : Prop
  /-- The core image behind the headers. -/
  | core (hspace : (metadata.map (metadataSpace t.format.word)).getD 0 < Size.bound)
      (htable : Alignment.roundUp Target.peFileAlign layout.relocationSize < Size.bound)
      (hsum : Size.bound ≤ Pe.headerSize t.format.word + coreSize)
  /-- The image, with the relocation table and the metadata. -/
  | image (hspace : (metadata.map (metadataSpace t.format.word)).getD 0 < Size.bound)
      (htable : Alignment.roundUp Target.peFileAlign layout.relocationSize < Size.bound)
      (hend : modulesEnd t.format.word coreSize < Size.bound)
      (hsum : Size.bound ≤ (Plan.exact t coreSize layout modulesSize metadata).imageSize)
  /-- The data of an image whose code is in order: the rest of the kernel, the metadata, the modules. -/
  | data (himage : (Plan.exact t coreSize layout modulesSize metadata).imageSize < Size.bound)
      (htext : (Cursor.start t.format.word).Takes t.sectionAlign layout.executableSize)
      (hexecutable : layout.executableSize ≤ layout.kernelSize)
      (hroom : dataRoom layout < Size.bound)
      (hmodules : dataRoom layout + (metadata.map (metadataSpace t.format.word)).getD 0 < Size.bound →
        Alignment.roundUp Target.peFileAlign modulesSize < Size.bound)
      (hsum : Size.bound ≤ exactDataSize t.format.word layout modulesSize metadata)

section Making

variable {t : Target} {coreSize modulesSize : Nat} {layout : Kernel.Layout} {metadata : Option Nat}

/-- **Planning without overflow** gives a plan or refuses the layout, for its capacity or for a mismatch. -/
theorem Plan.failsFor_make (hpow : t.sectionAlign.isPowerOfTwo)
    (h : ¬ Plan.Overflows t coreSize layout modulesSize metadata) :
    FailsFor (fun cause => cause.kind = .capacity ∨ Plan.Mismatch t coreSize layout cause)
      (Plan.make t coreSize layout modulesSize metadata) := by
  have hcapacity {α : Type} {x : Result α} (hx : FailsWith .capacity x) :
      FailsFor (fun cause => cause.kind = .capacity ∨ Plan.Mismatch t coreSize layout cause) x :=
    hx.failsFor fun _ => .inl
  -- The steps in the order of planning. Each is refused for its capacity, or gives the number that is
  -- known for it, from which the next one starts.
  refine (hcapacity (failsWith_metadataRooms t metadata)).bind_of_iff metadataRooms_eq_ok_iff
    fun hspace => ?_
  refine (hcapacity (failsWith_alignToFile _)).bind_of_iff alignToFile_eq_ok_iff_lt fun htable => ?_
  -- The end of the core image, and the image.
  have hcore : Pe.headerSize t.format.word + coreSize < Size.bound :=
    Nat.lt_of_not_le fun hsum => h (.core hspace htable hsum)
  rw [Size.add_of_lt hcore, ok_bind]
  refine (hcapacity (failsWith_alignToFile _)).bind_of_iff alignToFile_eq_ok_iff_lt fun hend => ?_
  have himage : modulesEnd t.format.word coreSize +
      Alignment.roundUp Target.peFileAlign layout.relocationSize +
        (metadata.map (metadataSpace t.format.word)).getD 0 < Size.bound :=
    Nat.lt_of_not_le fun hsum => h (.image hspace htable hend hsum)
  rw [← modulesEnd, Size.add_of_lt (Nat.lt_of_le_of_lt (Nat.le_add_right ..) himage), ok_bind,
    Size.add_of_lt himage, ok_bind]
  -- The code.
  refine (hcapacity (failsWith_headerValue _ _)).bind_of_iff headerValue_eq_ok_iff fun _ => ?_
  refine (hcapacity (Cursor.failsWith_append hpow)).bind_of_iff (Cursor.append_eq_ok_iff_takes hpow)
    fun htext => ?_
  refine FailsFor.guard (fun hlt => .inr (.executable hlt)) fun hexecutable => ?_
  -- The data.
  refine (hcapacity (failsWith_alignToFile _)).bind_of_iff alignToFile_eq_ok_iff_lt fun hroom => ?_
  rw [← dataRoom] at hroom ⊢
  have hdata (hmodules : dataRoom layout + (metadata.map (metadataSpace t.format.word)).getD 0 < Size.bound →
      Alignment.roundUp Target.peFileAlign modulesSize < Size.bound) :
      exactDataSize t.format.word layout modulesSize metadata < Size.bound :=
    Nat.lt_of_not_le fun hsum =>
      h (.data himage htext (Nat.le_of_not_lt hexecutable) hroom hmodules hsum)
  -- Where this sum is none, neither is the one with the modules, and that was excluded.
  have hspared : dataRoom layout + (metadata.map (metadataSpace t.format.word)).getD 0 < Size.bound := by
    refine Nat.lt_of_not_le fun hsum => ?_
    have hlt := hdata fun hlt => absurd hlt (Nat.not_lt.2 hsum)
    exact absurd (Nat.lt_of_le_of_lt (Nat.le_add_right ..) hlt) (Nat.not_lt.2 hsum)
  rw [Size.add_of_lt hspared, ok_bind]
  refine (hcapacity (failsWith_alignToFile _)).bind_of_iff alignToFile_eq_ok_iff_lt fun hmodules => ?_
  rw [Size.add_of_lt (hdata fun _ => hmodules), ok_bind]
  refine (hcapacity (failsWith_headerValue _ _)).bind_of_iff headerValue_eq_ok_iff fun _ => ?_
  refine (hcapacity (failsWith_headerValue _ _)).bind_of_iff headerValue_eq_ok_iff fun _ => ?_
  refine (hcapacity (Cursor.failsWith_append hpow)).bind_of_iff (Cursor.append_eq_ok_iff_takes hpow)
    fun _ => ?_
  have hstart := offset_after_kernel t.sectionAlign t.format.word layout
  refine FailsFor.guard (fun hlt => .inr (.core (hstart ▸ hlt))) fun _ => ?_
  -- The rest only has to fit its fields.
  refine (hcapacity (failsWith_headerValue _ _)).bind fun _ _ => ?_
  refine (hcapacity (Cursor.failsWith_append hpow)).bind fun _ _ => ?_
  dsimp only
  split
  · refine (hcapacity (failsWith_headerValue _ _)).bind fun _ _ => ?_
    exact (hcapacity (Cursor.failsWith_append hpow)).bind fun _ _ => failsFor_ok _ _
  · refine (hcapacity (failsWith_headerValue _ _)).bind fun _ _ => ?_
    refine (hcapacity (Cursor.failsWith_append hpow)).bind fun _ _ => ?_
    refine (hcapacity (failsWith_headerValue _ _)).bind fun _ _ => ?_
    exact (hcapacity (Cursor.failsWith_append hpow)).bind fun _ _ => failsFor_ok _ _

/-- **Planning with overflow** stops. -/
theorem Plan.make_of_overflows (hpow : t.sectionAlign.isPowerOfTwo)
    (h : Plan.Overflows t coreSize layout modulesSize metadata) :
    Plan.make t coreSize layout modulesSize metadata = fault .overflow := by
  have hcoreEnd : Pe.headerSize t.format.word + coreSize ≤ modulesEnd t.format.word coreSize :=
    Alignment.le_roundUp (by decide) _
  -- Every case goes as far as the first sum that is no size.
  cases h with
  | core hspace htable hsum =>
    rw [Plan.make, metadataRooms_eq_ok_iff.2 ⟨hspace, rfl⟩, ok_bind,
      alignToFile_eq_ok_iff_lt.2 ⟨htable, rfl⟩, ok_bind, Size.add_of_le hsum]
    rfl
  | image hspace htable hend hsum =>
    rw [Plan.make, metadataRooms_eq_ok_iff.2 ⟨hspace, rfl⟩, ok_bind,
      alignToFile_eq_ok_iff_lt.2 ⟨htable, rfl⟩, ok_bind,
      Size.add_of_lt (Nat.lt_of_le_of_lt hcoreEnd hend), ok_bind,
      alignToFile_eq_ok_iff_lt.2 ⟨hend, rfl⟩, ok_bind]
    -- Two sums lead to the size of the image, and either can be the first that is no size.
    by_cases hfirst : modulesEnd t.format.word coreSize +
        Alignment.roundUp Target.peFileAlign layout.relocationSize < Size.bound
    · rw [← modulesEnd, Size.add_of_lt hfirst, ok_bind, Size.add_of_le hsum]
      rfl
    · rw [← modulesEnd, Size.add_of_le (Nat.le_of_not_lt hfirst)]
      rfl
  | data himage htext hexecutable hroom hmodules hsum =>
    have himage : modulesEnd t.format.word coreSize +
        Alignment.roundUp Target.peFileAlign layout.relocationSize +
          (metadata.map (metadataSpace t.format.word)).getD 0 < Size.bound := himage
    -- Where the image is a size and 32 bits suffice for the code, nothing in front of the data stops
    -- planning.
    have hcode : layout.executableSize < Size.bound32 :=
      Nat.lt_of_le_of_lt (Nat.le_add_left ..) (Nat.lt_of_le_of_lt (Nat.le_add_right ..) htext.1)
    have hstart : (⟨Pe.headerSize t.format.word, Pe.headerSize t.format.word⟩ : Cursor) =
        Cursor.start t.format.word := rfl
    rw [Plan.make, metadataRooms_eq_ok_iff.2 ⟨by omega, rfl⟩, ok_bind,
      alignToFile_eq_ok_iff_lt.2 ⟨by omega, rfl⟩, ok_bind, Size.add_of_lt (by omega), ok_bind,
      alignToFile_eq_ok_iff_lt.2 ⟨show modulesEnd t.format.word coreSize < Size.bound by omega, rfl⟩,
      ok_bind, ← modulesEnd, Size.add_of_lt (by omega), ok_bind, Size.add_of_lt himage, ok_bind,
      headerValue_of_lt hcode, ok_bind, hstart, Cursor.append_of_takes hpow htext, ok_bind]
    dsimp only
    rw [if_neg (Nat.not_lt.2 hexecutable), alignToFile_eq_ok_iff_lt.2 ⟨hroom, rfl⟩, ok_bind, ← dataRoom]
    by_cases hfirst : dataRoom layout + (metadata.map (metadataSpace t.format.word)).getD 0 < Size.bound
    · rw [Size.add_of_lt hfirst, ok_bind, alignToFile_eq_ok_iff_lt.2 ⟨hmodules hfirst, rfl⟩, ok_bind,
        Size.add_of_le hsum]
      rfl
    · rw [Size.add_of_le (Nat.le_of_not_lt hfirst)]
      rfl

/-- Planning stops on a fault exactly where it gets to a sum that is no size. -/
theorem Plan.make_eq_fault_iff (hpow : t.sectionAlign.isPowerOfTwo) {cause : Fault} :
    Plan.make t coreSize layout modulesSize metadata = fault cause ↔
      Plan.Overflows t coreSize layout modulesSize metadata ∧ cause = .overflow := by
  constructor
  · intro hfault
    have hoverflows : Plan.Overflows t coreSize layout modulesSize metadata :=
      Classical.byContradiction fun hnone => (Plan.failsFor_make hpow hnone).faultFree cause hfault
    rw [Plan.make_of_overflows hpow hoverflows] at hfault
    cases hfault
    exact ⟨hoverflows, rfl⟩
  · intro h
    rcases h with ⟨hoverflows, rfl⟩
    exact Plan.make_of_overflows hpow hoverflows

/-- Where the three sums are sizes, no sum on the way leaves them. -/
theorem Plan.not_overflows (hcore : Pe.headerSize t.format.word + coreSize < Size.bound)
    (himage : (Plan.exact t coreSize layout modulesSize metadata).imageSize < Size.bound)
    (hdata : exactDataSize t.format.word layout modulesSize metadata < Size.bound) :
    ¬ Plan.Overflows t coreSize layout modulesSize metadata := by
  intro h
  cases h with
  | core _ _ hsum => exact Nat.not_lt.2 hsum hcore
  | image _ _ _ hsum => exact Nat.not_lt.2 hsum himage
  | data _ _ _ _ _ hsum => exact Nat.not_lt.2 hsum hdata

/-- Planning never stops on a fault where the sums of whole images are sizes. -/
theorem Plan.faultFree_make (hpow : t.sectionAlign.isPowerOfTwo)
    (hcore : Pe.headerSize t.format.word + coreSize < Size.bound)
    (himage : (Plan.exact t coreSize layout modulesSize metadata).imageSize < Size.bound)
    (hdata : exactDataSize t.format.word layout modulesSize metadata < Size.bound) :
    FaultFree (Plan.make t coreSize layout modulesSize metadata) :=
  (Plan.failsFor_make hpow (Plan.not_overflows hcore himage hdata)).faultFree

end Making

/-! ### A kernel of one block -/

namespace OneBlock

/-- A kernel of one block, with a part at its start that is executable. -/
def layout (executableSize : Nat) : Kernel.Layout where
  kernelSize := 0x200
  executableSize := executableSize

end OneBlock

/-- Modules in the last block of the sizes come after a block of data, so that their sum is no size. That
stops planning; they are not refused for their capacity. -/
theorem Plan.make_of_last_block :
    Plan.make Target.efiAmd64 0x600 (OneBlock.layout 0) (Size.bound - 0x200) none = fault .overflow := by
  refine (Plan.make_eq_fault_iff (by decide)).2 ⟨?_, rfl⟩
  refine .data (by decide) ⟨by decide, by decide⟩ (by decide) (by decide) ?_ (by decide)
  intro _
  decide

end BootImage.Pe
