import BootImage.Proofs.Rounding

/-!
# The exact layout of a PE image

Where every section of an image starts, in memory and in the file, as numbers without a bound: each
section starts at the least multiple of the alignment that is not below the end of the one before.
Planning computes this layout or refuses it, and it refuses it only where a number of the layout
itself is too large for its field or the core image does not reach behind the kernel.

- `Cursor.behind`, `Cursor.lay`, `Cursor.after`: sections one behind the other.
- `Plan.exact`, `Plan.Feasible`: the layout of an image, and when it can be stated in its headers.
- `Plan.make_eq_ok_iff`: planning gives exactly the feasible layouts.
-/

namespace BootImage.Pe

/-! ## §1 One section -/

/-- The cursor behind a section of `size` bytes. -/
def Cursor.behind (cursor : Cursor) (sectionAlign size : Nat) : Cursor :=
  ⟨Alignment.roundUp sectionAlign (cursor.address + size),
    Alignment.roundUp Target.peFileAlign (cursor.offset + size)⟩

/-- Whether 32 bits suffice for the sums that lead to the cursor behind a section. -/
def Cursor.Takes (cursor : Cursor) (sectionAlign size : Nat) : Prop :=
  cursor.address + size + (sectionAlign - 1) < Size.bound32 ∧
    cursor.offset + size + (Target.peFileAlign - 1) < Size.bound32

/-- A cursor moves on if 32 bits suffice for the sum and for its rounding. -/
theorem advance_eq_ok_iff {position size align next : Nat} :
    advance position size align = .ok next ↔
      align.isPowerOfTwo ∧ position + size + (align - 1) < Size.bound32 ∧
        next = Alignment.roundUp align (position + size) := by
  rw [advance]
  -- A sum of more than 32 bits is refused before it is rounded.
  split
  · exact Alignment.alignUp?_bind_eq_ok_iff (fun _ => rfl) rfl
  · simp only [refuse_ne_ok, false_iff]
    intro h
    rcases h with ⟨-, hlt, -⟩
    omega

/-- A section is placed where the cursor is, in memory and in the file, with the same size in both. -/
theorem Cursor.append_eq_ok_iff {cursor next : Cursor} {sectionAlign size : Nat} {role : SectionRole}
    {s : Section} :
    cursor.append sectionAlign role size = .ok (s, next) ↔
      sectionAlign.isPowerOfTwo ∧ cursor.Takes sectionAlign size ∧
        s = ⟨role, size, cursor.address, size, cursor.offset⟩ ∧
        next = cursor.behind sectionAlign size := by
  rw [append, bind_eq_ok_iff]
  constructor
  · intro h
    rcases h with ⟨address, haddress, h⟩
    obtain ⟨offset, hoffset, h⟩ := bind_eq_ok_iff.1 h
    obtain ⟨hpow, hmemory, rfl⟩ := advance_eq_ok_iff.1 haddress
    obtain ⟨-, hfile, rfl⟩ := advance_eq_ok_iff.1 hoffset
    cases h
    exact ⟨hpow, ⟨hmemory, hfile⟩, rfl, rfl⟩
  · intro h
    rcases h with ⟨hpow, ⟨haddress, hoffset⟩, rfl, rfl⟩
    exact ⟨_, advance_eq_ok_iff.2 ⟨hpow, haddress, rfl⟩, bind_eq_ok_iff.2
      ⟨_, advance_eq_ok_iff.2 ⟨by decide, hoffset, rfl⟩, rfl⟩⟩

/-- A section that 32 bits suffice for, and the cursor behind it. -/
theorem Cursor.append_of_takes {cursor : Cursor} {sectionAlign size : Nat} {role : SectionRole}
    (hpow : sectionAlign.isPowerOfTwo) (h : cursor.Takes sectionAlign size) :
    cursor.append sectionAlign role size =
      .ok (⟨role, size, cursor.address, size, cursor.offset⟩, cursor.behind sectionAlign size) :=
  append_eq_ok_iff.2 ⟨hpow, h, rfl, rfl⟩

/-- A cursor that cannot move on is a matter of capacity. -/
theorem failsWith_advance {position size align : Nat} (h : align.isPowerOfTwo) :
    FailsWith .capacity (advance position size align) := by
  unfold advance
  split
  · exact Alignment.failsWith_alignUp?_bind h (fun _ => rfl) rfl rfl
  · exact failsWith_refuse _

/-- So is a section that cannot be placed. -/
theorem Cursor.failsWith_append {cursor : Cursor} {sectionAlign size : Nat} {role : SectionRole}
    (h : sectionAlign.isPowerOfTwo) : FailsWith .capacity (cursor.append sectionAlign role size) :=
  (failsWith_advance h).bind fun _ _ =>
    (failsWith_advance (by decide)).bind fun _ _ => failsWith_ok _ _

/-! ## §2 Sections one behind the other -/

/-- A section before it has a place. -/
structure Part where
  /-- What it holds. -/
  role : SectionRole
  /-- Its size, in memory and in the file. -/
  size : Nat
  deriving DecidableEq, Repr

namespace Cursor

/-- The sections of some parts, one behind the other. -/
def lay (sectionAlign : Nat) : Cursor → List Part → List Section
  | _, [] => []
  | cursor, part :: rest =>
    ⟨part.role, part.size, cursor.address, part.size, cursor.offset⟩ ::
      lay sectionAlign (cursor.behind sectionAlign part.size) rest

/-- The cursor behind some parts. -/
def after (sectionAlign : Nat) (cursor : Cursor) (parts : List Part) : Cursor :=
  parts.foldl (fun cursor part => cursor.behind sectionAlign part.size) cursor

/-- Whether 32 bits suffice for all cursors on the way. -/
def Fits (sectionAlign : Nat) : Cursor → List Part → Prop
  | _, [] => True
  | cursor, part :: rest =>
    cursor.Takes sectionAlign part.size ∧ Fits sectionAlign (cursor.behind sectionAlign part.size) rest

variable {sectionAlign : Nat} {cursor : Cursor} {front rest : List Part}

/-- Parts behind others are laid out from the cursor that the others leave. -/
theorem lay_append :
    cursor.lay sectionAlign (front ++ rest) =
      cursor.lay sectionAlign front ++ (cursor.after sectionAlign front).lay sectionAlign rest := by
  -- By induction on the front parts, with the cursor moving along.
  induction front generalizing cursor with
  | nil => rfl
  | cons part front ih => simp only [List.cons_append, lay, ih, after, List.foldl_cons]

/-- The cursor behind all parts is that behind the later ones. -/
theorem after_append :
    cursor.after sectionAlign (front ++ rest) =
      (cursor.after sectionAlign front).after sectionAlign rest :=
  List.foldl_append

/-- All cursors on the way fit if those of the earlier parts do, and then those of the later ones. -/
theorem fits_append :
    cursor.Fits sectionAlign (front ++ rest) ↔
      cursor.Fits sectionAlign front ∧ (cursor.after sectionAlign front).Fits sectionAlign rest := by
  induction front generalizing cursor with
  | nil => exact (and_iff_right trivial).symm
  | cons part front ih => simp only [List.cons_append, Fits, ih, after, List.foldl_cons, and_assoc]

end Cursor

/-! ## §3 The exact layout -/

/-- The room for the part of the kernel that is not executable. -/
def dataRoom (layout : Kernel.Layout) : Nat :=
  Alignment.roundUp Target.peFileAlign (layout.kernelSize - layout.executableSize)

/-- The room for secure-boot metadata of `size` bytes. -/
def metadataSpace (word : WordWidth) (size : Nat) : Nat :=
  Alignment.roundUp Target.peFileAlign (Alignment.roundUp word.bytes size)

/-- The offset in the file at which the section of the modules starts. -/
def modulesStart (word : WordWidth) (layout : Kernel.Layout) : Nat :=
  headerSize word + Alignment.roundUp Target.peFileAlign layout.executableSize + dataRoom layout

/-- The offset in the file at which the core image ends, rounded up. -/
def modulesEnd (word : WordWidth) (coreSize : Nat) : Nat :=
  Alignment.roundUp Target.peFileAlign (headerSize word + coreSize)

/-- The cursor behind the headers. -/
def Cursor.start (word : WordWidth) : Cursor := ⟨headerSize word, headerSize word⟩

/-- The sections of the core image, and their sizes. -/
def coreParts (word : WordWidth) (coreSize : Nat) (layout : Kernel.Layout) : List Part := [
  ⟨.text, layout.executableSize⟩,
  ⟨.data, dataRoom layout⟩,
  ⟨.modules, modulesEnd word coreSize - modulesStart word layout⟩]

/-- The section of secure-boot metadata, if there is room for it. -/
def metadataParts (room : Option Nat) : List Part := room.toList.map fun room => ⟨.metadata, room⟩

/-- All sections in front of the relocation table. -/
def parts (word : WordWidth) (coreSize : Nat) (layout : Kernel.Layout) (metadata : Option Nat) :
    List Part :=
  coreParts word coreSize layout ++ metadataParts (metadata.map (metadataSpace word))

namespace Plan

/-- The size of the initialized data. -/
def exactDataSize (word : WordWidth) (layout : Kernel.Layout) (modulesSize : Nat)
    (metadata : Option Nat) : Nat :=
  dataRoom layout + (metadata.map (metadataSpace word)).getD 0 +
    Alignment.roundUp Target.peFileAlign modulesSize

/-- The exact layout of an image. -/
def exact (t : Target) (coreSize : Nat) (layout : Kernel.Layout) (modulesSize : Nat)
    (metadata : Option Nat) : Plan where
  format := t.format
  headerSize := Pe.headerSize t.format.word
  imageSize := modulesEnd t.format.word coreSize +
    Alignment.roundUp Target.peFileAlign layout.relocationSize +
      (metadata.map (metadataSpace t.format.word)).getD 0
  sectionAlign := t.sectionAlign
  entryAddress := layout.startAddress
  codeBase := Pe.headerSize t.format.word
  codeSize := layout.executableSize
  dataSize := exactDataSize t.format.word layout modulesSize metadata
  metadataSize := metadata.map (metadataSpace t.format.word)
  sections := (Cursor.start t.format.word).lay t.sectionAlign
    (parts t.format.word coreSize layout metadata ++ [⟨.relocations, layout.relocationSize⟩])
  relocationAddress :=
    ((Cursor.start t.format.word).after t.sectionAlign
      (parts t.format.word coreSize layout metadata)).address

/-- A layout that can be stated in the headers of an image: the core image reaches behind the kernel,
and 32 bits suffice for the data size and for the ends of all sections. -/
structure Feasible (t : Target) (coreSize : Nat) (layout : Kernel.Layout) (modulesSize : Nat)
    (metadata : Option Nat) : Prop where
  aligned : t.sectionAlign.isPowerOfTwo
  executable : layout.executableSize ≤ layout.kernelSize
  holdsKernel : modulesStart t.format.word layout ≤ modulesEnd t.format.word coreSize
  counted : exactDataSize t.format.word layout modulesSize metadata < Size.bound32
  fits : (Cursor.start t.format.word).Fits t.sectionAlign
    (parts t.format.word coreSize layout metadata ++ [⟨.relocations, layout.relocationSize⟩])

end Plan

/-- A number of the headers is kept if it has 32 bits. -/
theorem headerValue_eq_ok_iff {what : String} {size n : Nat} :
    headerValue what size = .ok n ↔ size < Size.bound32 ∧ n = size :=
  Size.to32_eq_ok_iff

theorem headerValue_of_lt {what : String} {size : Nat} (h : size < Size.bound32) :
    headerValue what size = .ok size :=
  headerValue_eq_ok_iff.2 ⟨h, rfl⟩

theorem dvd_headerSize (word : WordWidth) : Target.peFileAlign ∣ headerSize word :=
  Alignment.dvd_roundUp _ _

theorem dvd_dataRoom (layout : Kernel.Layout) : Target.peFileAlign ∣ dataRoom layout :=
  Alignment.dvd_roundUp _ _

/-- The section of the modules starts behind those of the kernel. -/
theorem offset_after_kernel (sectionAlign : Nat) (word : WordWidth) (layout : Kernel.Layout) :
    (((Cursor.start word).behind sectionAlign layout.executableSize).behind sectionAlign
      (dataRoom layout)).offset = modulesStart word layout := by
  have hpos : 0 < Target.peFileAlign := by decide
  simp only [Cursor.behind, Cursor.start, modulesStart]
  -- Headers and data end at multiples of the alignment, so only the code is rounded.
  rw [Alignment.roundUp_add hpos (dvd_headerSize word), Alignment.roundUp_eq_self hpos]
  exact Nat.dvd_add (Nat.dvd_add (dvd_headerSize word) (Alignment.dvd_roundUp _ _))
    (dvd_dataRoom layout)

theorem le_metadataSpace (word : WordWidth) (size : Nat) :
    Alignment.roundUp word.bytes size ≤ metadataSpace word size :=
  Alignment.le_roundUp (by decide) _

/-- There is room for metadata exactly if the room is a size. -/
theorem metadataRoom_eq_ok_iff {t : Target} {size room : Nat} :
    metadataRoom t size = .ok room ↔
      metadataSpace t.format.word size < Size.bound ∧ room = metadataSpace t.format.word size := by
  rw [metadataRoom, bind_eq_ok_iff]
  constructor
  · intro h
    rcases h with ⟨aligned, haligned, h⟩
    obtain ⟨-, rfl⟩ := Target.alignToWord_eq_ok_iff.1 haligned
    exact alignToFile_eq_ok_iff_lt.1 h
  · intro h
    rcases h with ⟨hlt, rfl⟩
    -- Whole words are a size if the blocks that hold them are.
    have hword := (Alignment.roundUp_lt_iff t.format.word.bytes_pos t.format.word.bytes_dvd_bound).1
      (Nat.lt_of_le_of_lt (le_metadataSpace t.format.word size) hlt)
    exact ⟨_, Target.alignToWord_eq_ok_iff.2 ⟨hword, rfl⟩, alignToFile_eq_ok_iff_lt.2 ⟨hlt, rfl⟩⟩

/-! ## §4 Planning -/

/-- The same where there may be no metadata. Then no room is needed. -/
theorem metadataRooms_eq_ok_iff {t : Target} {metadata rooms : Option Nat} :
    metadata.mapM (metadataRoom t) = .ok rooms ↔
      (metadata.map (metadataSpace t.format.word)).getD 0 < Size.bound ∧
        rooms = metadata.map (metadataSpace t.format.word) := by
  have hzero : 0 < Size.bound := by decide
  cases metadata with
  | none =>
    rw [Option.mapM_none, Option.map_none]
    constructor
    · intro h
      cases h
      exact ⟨hzero, rfl⟩
    · intro h
      rcases h with ⟨-, rfl⟩
      rfl
  | some size =>
    rw [Option.mapM_some, Option.map_some, Option.getD_some, map_eq_ok_iff]
    constructor
    · intro h
      rcases h with ⟨room, hroom, rfl⟩
      obtain ⟨hlt, rfl⟩ := metadataRoom_eq_ok_iff.1 hroom
      exact ⟨hlt, rfl⟩
    · intro h
      rcases h with ⟨hlt, rfl⟩
      exact ⟨_, metadataRoom_eq_ok_iff.2 ⟨hlt, rfl⟩, rfl⟩

/-- The step of planning that leaves room for secure-boot metadata, whatever is done behind it. -/
theorem metadataStep_eq_ok_iff {sectionAlign : Nat} (hpow : sectionAlign.isPowerOfTwo)
    {cursor : Cursor} {room : Option Nat} {next : List Section × Cursor → Result Plan} {plan : Plan} :
    (match room with
      | none => (.ok ([], cursor) : Result (List Section × Cursor)) >>= next
      | some size => do
        let size ← headerValue "sbat size" size
        let placed ← cursor.append sectionAlign .metadata size
        (.ok ([placed.1], placed.2) : Result (List Section × Cursor)) >>= next) = .ok plan ↔
      cursor.Fits sectionAlign (metadataParts room) ∧
        next (cursor.lay sectionAlign (metadataParts room),
          cursor.after sectionAlign (metadataParts room)) = .ok plan := by
  cases room with
  | none => exact (and_iff_right trivial).symm
  | some room =>
    simp only [ok_bind, bind_eq_ok_iff, headerValue_eq_ok_iff, Prod.exists, Cursor.append_eq_ok_iff]
    constructor
    · intro h
      rcases h with ⟨_, ⟨-, rfl⟩, _, _, ⟨-, htakes, rfl, rfl⟩, h⟩
      exact ⟨⟨htakes, trivial⟩, h⟩
    · intro h
      rcases h with ⟨⟨htakes, -⟩, h⟩
      -- The room lies in front of an end that has 32 bits, and so has 32 bits itself.
      have hroom : room < Size.bound32 := Nat.lt_of_le_of_lt (Nat.le_add_left ..)
        (Nat.lt_of_le_of_lt (Nat.le_add_right ..) htakes.2)
      exact ⟨_, ⟨hroom, rfl⟩, _, _, ⟨hpow, htakes, rfl, rfl⟩, h⟩

/-- The cursors of the kernel sections and of the modules, in the order of planning. -/
theorem fits_coreParts {sectionAlign coreSize : Nat} {word : WordWidth} {layout : Kernel.Layout} :
    (Cursor.start word).Fits sectionAlign (coreParts word coreSize layout) ↔
      (Cursor.start word).Takes sectionAlign layout.executableSize ∧
        ((Cursor.start word).behind sectionAlign layout.executableSize).Takes sectionAlign
          (dataRoom layout) ∧
        (((Cursor.start word).behind sectionAlign layout.executableSize).behind sectionAlign
          (dataRoom layout)).Takes sectionAlign
            (modulesEnd word coreSize - modulesStart word layout) := by
  simp only [coreParts, Cursor.Fits, and_true]

/-- The cursor behind the core image, section by section. -/
theorem after_coreParts (sectionAlign coreSize : Nat) (word : WordWidth) (layout : Kernel.Layout) :
    (Cursor.start word).after sectionAlign (coreParts word coreSize layout) =
      (((Cursor.start word).behind sectionAlign layout.executableSize).behind sectionAlign
        (dataRoom layout)).behind sectionAlign
          (modulesEnd word coreSize - modulesStart word layout) := by
  simp only [coreParts, Cursor.after, List.foldl_cons, List.foldl_nil]

/-- The sections of the core image with their places. -/
theorem lay_coreParts (sectionAlign coreSize : Nat) (word : WordWidth) (layout : Kernel.Layout) :
    (Cursor.start word).lay sectionAlign (coreParts word coreSize layout) =
      let text := (Cursor.start word).behind sectionAlign layout.executableSize
      let data := text.behind sectionAlign (dataRoom layout)
      let room := modulesEnd word coreSize - modulesStart word layout
      [⟨.text, layout.executableSize, headerSize word, layout.executableSize, headerSize word⟩,
        ⟨.data, dataRoom layout, text.address, dataRoom layout, text.offset⟩,
        ⟨.modules, room, data.address, room, data.offset⟩] := by
  simp only [coreParts, Cursor.lay, Cursor.start]

/-- A plan that was made is the exact one of a feasible layout. -/
theorem Plan.feasible_of_make {t : Target} {coreSize modulesSize : Nat} {layout : Kernel.Layout}
    {metadata : Option Nat} {plan : Plan}
    (h : Plan.make t coreSize layout modulesSize metadata = .ok plan) :
    Plan.Feasible t coreSize layout modulesSize metadata ∧
      plan = Plan.exact t coreSize layout modulesSize metadata := by
  -- The numbers of the plan, by their names.
  have hcursor : (⟨Pe.headerSize t.format.word, Pe.headerSize t.format.word⟩ : Cursor) =
      Cursor.start t.format.word := rfl
  have hroom : Alignment.roundUp Target.peFileAlign (layout.kernelSize - layout.executableSize) =
      dataRoom layout := rfl
  have hend : Alignment.roundUp Target.peFileAlign (Pe.headerSize t.format.word + coreSize) =
      modulesEnd t.format.word coreSize := rfl
  simp only [Plan.make, bind_eq_ok_iff, Size.add_eq_ok_iff, alignToFile_eq_ok_iff,
    headerValue_eq_ok_iff, Cursor.append_eq_ok_iff, guard_eq_ok_iff, Prod.exists] at h
  obtain ⟨rooms, hrooms, _, ⟨-, rfl⟩, _, ⟨-, rfl⟩, _, ⟨-, rfl⟩, _, ⟨-, rfl⟩, _, ⟨-, rfl⟩, h⟩ := h
  obtain ⟨-, rfl⟩ := metadataRooms_eq_ok_iff.1 hrooms
  -- The kernel, then the modules behind it.
  obtain ⟨_, ⟨-, rfl⟩, _, _, ⟨hpow, htext, rfl, rfl⟩, hexecutable, _, ⟨-, rfl⟩, _, ⟨-, rfl⟩, _,
    ⟨-, rfl⟩, _, ⟨-, rfl⟩, _, ⟨hcounted, rfl⟩, _, ⟨-, rfl⟩, h⟩ := h
  rw [hcursor, hroom, hend] at h
  obtain ⟨_, _, ⟨-, hdata, rfl, rfl⟩, hholds, _, ⟨-, rfl⟩, _, _, ⟨-, hmodules, rfl, rfl⟩, h⟩ := h
  rw [offset_after_kernel] at hholds hmodules h
  -- The metadata, then the relocation table.
  obtain ⟨hmetadata, h⟩ := (metadataStep_eq_ok_iff hpow).1 h
  simp only [bind_eq_ok_iff, headerValue_eq_ok_iff, Prod.exists, Cursor.append_eq_ok_iff] at h
  obtain ⟨_, ⟨-, rfl⟩, _, _, ⟨-, hrelocations, rfl, rfl⟩, h⟩ := h
  cases h
  -- What the steps have checked is what makes the layout feasible, and their numbers are its numbers.
  refine ⟨⟨hpow, Nat.le_of_not_lt hexecutable, Nat.le_of_not_lt hholds, hcounted, ?_⟩, ?_⟩
  · rw [parts, Cursor.fits_append, Cursor.fits_append, fits_coreParts, Cursor.after_append,
      after_coreParts]
    exact ⟨⟨⟨htext, hdata, hmodules⟩, hmetadata⟩, hrelocations, trivial⟩
  · rw [exact, parts, Cursor.lay_append, Cursor.lay_append, Cursor.after_append, after_coreParts,
      lay_coreParts]
    simp only [Cursor.lay, exactDataSize, offset_after_kernel]

/-! ### Where the sections end -/

theorem dvd_modulesEnd (word : WordWidth) (coreSize : Nat) :
    Target.peFileAlign ∣ modulesEnd word coreSize := Alignment.dvd_roundUp _ _

theorem dvd_metadataSpace (word : WordWidth) (metadata : Option Nat) :
    Target.peFileAlign ∣ (metadata.map (metadataSpace word)).getD 0 := by
  cases metadata with
  | none => exact Nat.dvd_zero _
  | some size => exact Alignment.dvd_roundUp _ _

/-- The section of the modules ends where the core image ends, rounded up. -/
theorem offset_after_core (sectionAlign : Nat) {coreSize : Nat} {word : WordWidth} {layout : Kernel.Layout}
    (h : modulesStart word layout ≤ modulesEnd word coreSize) :
    ((Cursor.start word).after sectionAlign (coreParts word coreSize layout)).offset =
      modulesEnd word coreSize := by
  have hpos : 0 < Target.peFileAlign := by decide
  rw [after_coreParts]
  -- Only the offset of the cursor behind the kernel matters.
  generalize hcursor : ((Cursor.start word).behind sectionAlign layout.executableSize).behind
    sectionAlign (dataRoom layout) = cursor
  have hoffset : cursor.offset = modulesStart word layout := by
    rw [← hcursor]
    exact offset_after_kernel sectionAlign word layout
  rw [Cursor.behind, hoffset, Nat.add_sub_cancel' h,
    Alignment.roundUp_eq_self hpos (dvd_modulesEnd word coreSize)]

/-- The relocation table starts behind the core image and the secure-boot metadata. -/
theorem offset_after_parts {sectionAlign coreSize : Nat} {word : WordWidth} {layout : Kernel.Layout}
    {metadata : Option Nat} (h : modulesStart word layout ≤ modulesEnd word coreSize) :
    ((Cursor.start word).after sectionAlign (parts word coreSize layout metadata)).offset =
      modulesEnd word coreSize + (metadata.map (metadataSpace word)).getD 0 := by
  have hcore := offset_after_core sectionAlign h
  rw [parts, Cursor.after_append]
  cases metadata with
  | none =>
    -- Without metadata the cursor stays behind the core image.
    rw [Option.map_none, Option.getD_none, Nat.add_zero]
    exact hcore
  | some size =>
    have hsum := Nat.dvd_add (dvd_modulesEnd word coreSize) (dvd_metadataSpace word (some size))
    rw [← hcore] at hsum ⊢
    exact Alignment.roundUp_eq_self (by decide) hsum

/-- The image ends where the last section does, rounded up. -/
theorem Plan.imageSize_exact {t : Target} {coreSize modulesSize : Nat} {layout : Kernel.Layout}
    {metadata : Option Nat}
    (h : modulesStart t.format.word layout ≤ modulesEnd t.format.word coreSize) :
    (Plan.exact t coreSize layout modulesSize metadata).imageSize =
      Alignment.roundUp Target.peFileAlign (((Cursor.start t.format.word).after t.sectionAlign
        (parts t.format.word coreSize layout metadata)).offset + layout.relocationSize) := by
  have hsum := Nat.dvd_add (dvd_modulesEnd t.format.word coreSize)
    (dvd_metadataSpace t.format.word metadata)
  rw [offset_after_parts h, Alignment.roundUp_add (by decide) hsum, exact, Nat.add_right_comm]

/-- The bounds from which all others follow: the ends of the code, of the data and of the image. -/
theorem bounds_of_fits {sectionAlign coreSize : Nat} {word : WordWidth} {layout : Kernel.Layout}
    {metadata : Option Nat} (hholds : modulesStart word layout ≤ modulesEnd word coreSize)
    (hfits : (Cursor.start word).Fits sectionAlign
      (parts word coreSize layout metadata ++ [⟨.relocations, layout.relocationSize⟩])) :
    headerSize word + layout.executableSize + (Target.peFileAlign - 1) < Size.bound32 ∧
      dataRoom layout < Size.bound32 ∧
      modulesEnd word coreSize + (metadata.map (metadataSpace word)).getD 0 +
        layout.relocationSize + (Target.peFileAlign - 1) < Size.bound32 := by
  -- The cursor behind the last section is the last one that was checked, and so the largest.
  obtain ⟨hcore, hrelocations, -⟩ := Cursor.fits_append.1 hfits
  rw [parts, Cursor.fits_append, fits_coreParts] at hcore
  obtain ⟨⟨htext, hdata, -⟩, -⟩ := hcore
  have hend := hrelocations.2
  rw [offset_after_parts hholds] at hend
  refine ⟨htext.2, ?_, hend⟩
  exact Nat.lt_of_le_of_lt (Nat.le_add_left ..) (Nat.lt_of_le_of_lt (Nat.le_add_right ..) hdata.2)

/-! ### Feasible layouts are planned -/

/-- The room for metadata is found wherever the image ends within 32 bits. -/
theorem metadataRooms_eq_ok {t : Target} {metadata : Option Nat}
    (h : (metadata.map (metadataSpace t.format.word)).getD 0 < Size.bound32) :
    metadata.mapM (metadataRoom t) = .ok (metadata.map (metadataSpace t.format.word)) :=
  metadataRooms_eq_ok_iff.2 ⟨Nat.lt_trans h (by decide), rfl⟩

/-- Every feasible layout is planned. -/
theorem Plan.make_of_feasible {t : Target} {coreSize modulesSize : Nat} {layout : Kernel.Layout}
    {metadata : Option Nat} (h : Plan.Feasible t coreSize layout modulesSize metadata) :
    Plan.make t coreSize layout modulesSize metadata =
      .ok (Plan.exact t coreSize layout modulesSize metadata) := by
  have hpos : 0 < Target.peFileAlign := by decide
  have hbound : 4 * Size.bound32 + 4 * Target.peFileAlign ≤ Size.bound := by decide
  -- The numbers of the plan, by their names.
  have hcursor : (⟨Pe.headerSize t.format.word, Pe.headerSize t.format.word⟩ : Cursor) =
      Cursor.start t.format.word := rfl
  have hroom : Alignment.roundUp Target.peFileAlign (layout.kernelSize - layout.executableSize) =
      dataRoom layout := rfl
  have hend : Alignment.roundUp Target.peFileAlign (Pe.headerSize t.format.word + coreSize) =
      modulesEnd t.format.word coreSize := rfl
  obtain ⟨hcode, hdata, hfinish⟩ := bounds_of_fits h.holdsKernel h.fits
  have hcounted := h.counted
  have hexecutable := h.executable
  obtain ⟨hcore, hrelocations, -⟩ := Cursor.fits_append.1 h.fits
  rw [parts, Cursor.fits_append, fits_coreParts, after_coreParts] at hcore
  obtain ⟨⟨htakes₁, htakes₂, htakes₃⟩, htakes₄⟩ := hcore
  rw [parts, Cursor.after_append, after_coreParts] at hrelocations
  -- Every sum on the way is at most one of the three ends.
  have hmodules := Alignment.le_roundUp hpos modulesSize
  have hcoreEnd : Pe.headerSize t.format.word + coreSize ≤ modulesEnd t.format.word coreSize :=
    Alignment.le_roundUp hpos _
  have hrest : layout.kernelSize - layout.executableSize ≤ dataRoom layout :=
    Alignment.le_roundUp hpos _
  have htable := Alignment.roundUp_lt hpos layout.relocationSize
  rw [exactDataSize] at hcounted
  simp only [Plan.make, bind_eq_ok_iff, Size.add_eq_ok_iff, alignToFile_eq_ok_iff,
    headerValue_eq_ok_iff, Cursor.append_eq_ok_iff, guard_eq_ok_iff, Prod.exists]
  refine ⟨_, metadataRooms_eq_ok (by omega), _, ⟨by omega, rfl⟩, _, ⟨by omega, rfl⟩, _,
    ⟨by omega, rfl⟩, ?_⟩
  rw [hend]
  refine ⟨_, ⟨by omega, rfl⟩, _, ⟨by omega, rfl⟩, _, ⟨by omega, rfl⟩, _, _,
    ⟨h.aligned, htakes₁, rfl, rfl⟩, Nat.not_lt.2 hexecutable, _, ⟨by omega, rfl⟩, ?_⟩
  rw [hroom]
  refine ⟨_, ⟨by omega, rfl⟩, _, ⟨by omega, rfl⟩, _, ⟨by omega, rfl⟩, _, ⟨by omega, rfl⟩, _,
    ⟨hdata, rfl⟩, _, _, ⟨h.aligned, htakes₂, rfl, rfl⟩, ?_⟩
  rw [hcursor, offset_after_kernel]
  refine ⟨Nat.not_lt.2 h.holdsKernel, _, ⟨by omega, rfl⟩, _, _,
    ⟨h.aligned, htakes₃, rfl, rfl⟩, (metadataStep_eq_ok_iff h.aligned).2 ⟨htakes₄, ?_⟩⟩
  simp only [bind_eq_ok_iff, headerValue_eq_ok_iff, Prod.exists, Cursor.append_eq_ok_iff]
  refine ⟨_, ⟨by omega, rfl⟩, _, _, ⟨h.aligned, hrelocations, rfl, rfl⟩, ?_⟩
  rw [exact, parts, Cursor.lay_append, Cursor.lay_append, Cursor.after_append, after_coreParts,
    lay_coreParts]
  simp only [Cursor.lay, exactDataSize, offset_after_kernel]

/-- **Planning an image**: it gives exactly the feasible layouts, with exact numbers. -/
theorem Plan.make_eq_ok_iff {t : Target} {coreSize modulesSize : Nat} {layout : Kernel.Layout}
    {metadata : Option Nat} {plan : Plan} :
    Plan.make t coreSize layout modulesSize metadata = .ok plan ↔
      Plan.Feasible t coreSize layout modulesSize metadata ∧
        plan = Plan.exact t coreSize layout modulesSize metadata := by
  constructor
  · exact Plan.feasible_of_make
  · intro h
    rcases h with ⟨h, rfl⟩
    exact Plan.make_of_feasible h

end BootImage.Pe
