import BootImage.Container
import BootImage.Proofs.Files
import BootImage.Proofs.Pe.Headers
import BootImage.Proofs.Pe.Layout

/-!
# PE images in closed form

A written image is the headers, the core image, and what follows it: zeros up to the file alignment,
the secure-boot metadata and the relocation table, each filled up with zeros to its room.

- `behindCore`: what follows the core image.
- `Plan.write_exact_eq_ok_iff`: when a planned image is written, and what it is.
- `wrap_pe_eq_ok_iff`: the same from sizes and files alone.
-/

namespace BootImage.Pe

/-! ## §1 The sections of an exact plan -/

section Sections

variable {t : Target} {coreSize modulesSize : Nat} {layout : Kernel.Layout} {metadata : Option Nat}

/-- The sections in three groups: those of the core image, that of the metadata if there is any, and
that of the relocation table. -/
theorem sections_exact :
    (Plan.exact t coreSize layout modulesSize metadata).sections =
      (Cursor.start t.format.word).lay t.sectionAlign (coreParts t.format.word coreSize layout) ++
        ((Cursor.start t.format.word).after t.sectionAlign
          (coreParts t.format.word coreSize layout)).lay t.sectionAlign
            (metadataParts (metadata.map (metadataSpace t.format.word))) ++
        [⟨.relocations, layout.relocationSize,
          ((Cursor.start t.format.word).after t.sectionAlign
            (parts t.format.word coreSize layout metadata)).address, layout.relocationSize,
          ((Cursor.start t.format.word).after t.sectionAlign
            (parts t.format.word coreSize layout metadata)).offset⟩] := by
  -- Laying sections out one after the other can be split between any two of them.
  rw [Plan.exact, Cursor.lay_append, Cursor.lay, Cursor.lay]
  simp only [parts, Cursor.lay_append]

/-- The sections are five, or four without secure-boot metadata. -/
theorem length_sections_exact :
    (Plan.exact t coreSize layout modulesSize metadata).sections.length ≤ 5 := by
  rw [sections_exact, lay_coreParts]
  cases metadata <;> simp [metadataParts, Cursor.lay]

/-- The headers of an exact plan have room for their section table, with one section to spare. -/
theorem roomy_exact : (Plan.exact t coreSize layout modulesSize metadata).Roomy := by
  -- The headers are sized for four sections, and the padding has room for one more.
  have hroom : tableOffset t.format.word + 5 * sectionHeaderBytes ≤ headerSize t.format.word := by
    cases t.format.word <;> decide
  have hcount : (Plan.exact t coreSize layout modulesSize metadata).sections.length *
      sectionHeaderBytes ≤ 5 * sectionHeaderBytes := Nat.mul_le_mul_right _ length_sections_exact
  exact Nat.le_trans (Nat.add_le_add_left hcount _) hroom

theorem section?_metadata_exact :
    (Plan.exact t coreSize layout modulesSize metadata).section? .metadata =
      (metadata.map (metadataSpace t.format.word)).map fun room =>
        ⟨.metadata, room, ((Cursor.start t.format.word).after t.sectionAlign
          (coreParts t.format.word coreSize layout)).address, room,
          ((Cursor.start t.format.word).after t.sectionAlign
            (coreParts t.format.word coreSize layout)).offset⟩ := by
  -- The three sections in front of it have other roles.
  rw [Plan.section?, sections_exact, lay_coreParts]
  cases metadata <;> simp [metadataParts, Cursor.lay]

theorem section?_relocations_exact :
    (Plan.exact t coreSize layout modulesSize metadata).section? .relocations =
      some ⟨.relocations, layout.relocationSize,
        ((Cursor.start t.format.word).after t.sectionAlign
          (parts t.format.word coreSize layout metadata)).address, layout.relocationSize,
        ((Cursor.start t.format.word).after t.sectionAlign
          (parts t.format.word coreSize layout metadata)).offset⟩ := by
  rw [Plan.section?, sections_exact, lay_coreParts]
  cases metadata <;> simp [metadataParts, Cursor.lay]

end Sections

/-! ## §2 What follows the core image -/

/-- What follows the core image in the file: zeros up to the file alignment, then the secure-boot
metadata and the relocation table, each with zeros up to the end of its room. -/
def behindCore (word : WordWidth) (coreSize : Nat) (layout : Kernel.Layout) (metadata : Option Nat)
    (content : Option Bytes) : Bytes :=
  Bytes.zeros (modulesEnd word coreSize - (headerSize word + coreSize)) ++
    (Bytes.resize (content.getD []) ((metadata.map (metadataSpace word)).getD 0) ++
      layout.relocations.resize (Alignment.roundUp Target.peFileAlign layout.relocationSize))

/-- Secure-boot metadata that is given exactly when it was planned, and fits its room. -/
def Supplied (files : FileSystem) (word : WordWidth) :
    Option Nat → Option Path → Option Bytes → Prop
  | none, none, none => True
  | some size, some path, some content =>
    files.content? path = some content ∧ content.length ≤ metadataSpace word size
  | _, _, _ => False

section Writing

variable {files : FileSystem} {t : Target} {modulesSize : Nat} {layout : Kernel.Layout}
  {metadata : Option Nat} {path : Option Path} {content : Option Bytes} {core image : Bytes}

theorem le_modulesEnd (word : WordWidth) (coreSize : Nat) :
    headerSize word + coreSize ≤ modulesEnd word coreSize := Alignment.le_roundUp (by decide) _

/-- What an exact plan writes of the metadata: one piece, right behind the core image and its padding,
or none at all if none was planned and none is given. -/
theorem metadataPieces_exact_eq_ok_iff {coreSize : Nat} {pieces : List Piece}
    (h : modulesStart t.format.word layout ≤ modulesEnd t.format.word coreSize) :
    (Plan.exact t coreSize layout modulesSize metadata).metadataPieces files path = .ok pieces ↔
      ∃ content, Supplied files t.format.word metadata path content ∧
        pieces = content.toList.map fun bytes => ⟨modulesEnd t.format.word coreSize, bytes⟩ := by
  -- The section of the metadata starts where the core image ends, rounded up.
  have hoffset := offset_after_core t.sectionAlign h
  have hplanned : (Plan.exact t coreSize layout modulesSize metadata).metadataSize =
      metadata.map (metadataSpace t.format.word) := rfl
  rw [Plan.metadataPieces.eq_def, section?_metadata_exact, hoffset, hplanned]
  -- Planned and given, planned but not given, given but not planned, or neither.
  cases metadata with
  | none =>
    cases path with
    | none =>
      refine ⟨?_, ?_⟩
      · intro heq
        cases heq
        exact ⟨none, trivial, rfl⟩
      · intro h
        rcases h with ⟨content, hcontent, rfl⟩
        cases content with
        | none => rfl
        | some content => exact hcontent.elim
    | some path =>
      refine ⟨fun heq => ?_, ?_⟩
      · cases heq
      · intro h
        rcases h with ⟨content, hcontent, rfl⟩
        exact hcontent.elim
  | some size =>
    cases path with
    | none =>
      refine ⟨fun heq => ?_, ?_⟩
      · cases heq
      · intro h
        rcases h with ⟨content, hcontent, rfl⟩
        exact hcontent.elim
    | some path =>
      -- The room lies inside the image, so only the file can stand in the way.
      have hroom : ¬ (Plan.exact t coreSize layout modulesSize (some size)).imageSize <
          modulesEnd t.format.word coreSize + metadataSpace t.format.word size := by
        simp only [Plan.exact, Option.map_some, Option.getD_some]
        omega
      simp only [Option.map_some, if_neg hroom, bind_eq_ok_iff, FileSystem.readWithin_eq_ok_iff]
      refine ⟨?_, ?_⟩
      · intro h
        rcases h with ⟨content, hcontent, heq⟩
        cases heq
        exact ⟨some content, hcontent, rfl⟩
      · intro h
        rcases h with ⟨content, hcontent, rfl⟩
        cases content with
        | none => exact hcontent.elim
        | some content => exact ⟨content, hcontent, rfl⟩

/-- The relocation table that was planned always fits. It goes behind the metadata. -/
theorem relocationPieces_exact {coreSize : Nat}
    (h : modulesStart t.format.word layout ≤ modulesEnd t.format.word coreSize) :
    (Plan.exact t coreSize layout modulesSize metadata).relocationPieces layout =
      .ok [⟨modulesEnd t.format.word coreSize +
        (metadata.map (metadataSpace t.format.word)).getD 0, layout.relocations⟩] := by
  have htable := Alignment.le_roundUp (show 0 < Target.peFileAlign by decide) layout.relocationSize
  -- The table ends in front of the end of the image.
  have hroom : ¬ (Plan.exact t coreSize layout modulesSize metadata).imageSize <
      modulesEnd t.format.word coreSize + (metadata.map (metadataSpace t.format.word)).getD 0 +
        layout.relocationSize := by
    simp only [Plan.exact]
    omega
  rw [Plan.relocationPieces.eq_def, section?_relocations_exact, offset_after_parts h]
  simp only [if_neg hroom]

/-- The headers of an exact plan have its header size, whatever layout they are written for. -/
theorem length_headers_exact {coreSize : Nat} {machine : Machine} {written : Kernel.Layout}
    {headers : Bytes}
    (h : (Plan.exact t coreSize layout modulesSize metadata).headers machine written = .ok headers) :
    headers.length = headerSize t.format.word := by
  obtain ⟨-, filed, full, hsteps⟩ := Plan.headers_eq_ok_iff.1 h
  exact (hsteps.lengths roomy_exact).2.2

/-- Metadata that is supplied fits its room, and so does no metadata at all. -/
theorem Supplied.fits {word : WordWidth} (h : Supplied files word metadata path content) :
    (content.getD []).length ≤ (metadata.map (metadataSpace word)).getD 0 := by
  -- Planned and given, or not planned and not given; nothing else is supplied.
  cases content with
  | none => exact Nat.zero_le _
  | some content =>
    cases metadata with
    | none => cases path <;> exact h.elim
    | some size =>
      cases path with
      | none => exact h.elim
      | some path => exact h.2

/-- Two pieces, the first of which may be missing, over the zeros behind a front part. -/
theorem foldl_overlay_pieces (front : Bytes) {relocations : Bytes} {space room : Nat}
    (hcontent : (content.getD []).length ≤ space) (hrelocations : relocations.length ≤ room) :
    List.foldl (fun image (p : Piece) => Bytes.overlay image p.offset p.content)
        (front ++ Bytes.zeros (space + room))
        ((content.toList.map fun bytes => ⟨front.length, bytes⟩) ++
          [⟨front.length + space, relocations⟩]) =
      front ++ (Bytes.resize (content.getD []) space ++ relocations.resize room) := by
  -- The first piece, or the zeros that stay in its place.
  have hfirst : List.foldl (fun image (p : Piece) => Bytes.overlay image p.offset p.content)
      (front ++ Bytes.zeros (space + room))
      (content.toList.map fun bytes => ⟨front.length, bytes⟩) =
        front ++ (Bytes.resize (content.getD []) space ++ Bytes.zeros room) := by
    cases content with
    | none =>
      rw [Option.getD_none, Bytes.resize_of_length_le (Nat.zero_le space), List.nil_append,
        List.length_nil, Nat.sub_zero, Bytes.zeros_append]
      rfl
    | some bytes => exact Bytes.overlay_zeros hcontent
  -- The second piece starts behind the room of the first, whether or not that was filled.
  have hlen : (front ++ Bytes.resize (content.getD []) space).length = front.length + space := by
    rw [List.length_append, Bytes.length_resize]
  have hsecond : ((front ++ Bytes.resize (content.getD []) space) ++ Bytes.zeros (room + 0)).overlay
      (front ++ Bytes.resize (content.getD []) space).length relocations =
        (front ++ Bytes.resize (content.getD []) space) ++
          (relocations.resize room ++ Bytes.zeros 0) := Bytes.overlay_zeros hrelocations
  rw [hlen, List.append_assoc, List.append_assoc, Nat.add_zero] at hsecond
  rw [List.foldl_append, hfirst, List.foldl_cons, List.foldl_nil, hsecond]
  congr 2
  exact List.append_nil _

/-- An image ends with the room for its relocation table. -/
theorem imageSize_exact_eq {coreSize : Nat} :
    (Plan.exact t coreSize layout modulesSize metadata).imageSize =
      modulesEnd t.format.word coreSize + ((metadata.map (metadataSpace t.format.word)).getD 0 +
        Alignment.roundUp Target.peFileAlign layout.relocationSize) := by
  simp only [Plan.exact]
  omega

/-- The pieces of a planned image, put over the zeros behind its core image. -/
theorem foldl_pieces_exact {headers : Bytes} (hlen : headers.length = headerSize t.format.word)
    (hsupplied : Supplied files t.format.word metadata path content) :
    List.foldl (fun image (p : Piece) => Bytes.overlay image p.offset p.content)
        (headers ++ (core ++ Bytes.zeros
          ((Plan.exact t core.length layout modulesSize metadata).imageSize -
            (headerSize t.format.word + core.length))))
        ((content.toList.map fun bytes => ⟨modulesEnd t.format.word core.length, bytes⟩) ++
          [⟨modulesEnd t.format.word core.length +
            (metadata.map (metadataSpace t.format.word)).getD 0, layout.relocations⟩]) =
      headers ++ (core ++ behindCore t.format.word core.length layout metadata content) := by
  have hend := le_modulesEnd t.format.word core.length
  have htable := Alignment.le_roundUp (show 0 < Target.peFileAlign by decide) layout.relocationSize
  -- The front part reaches up to the end of the modules, where the first piece goes.
  have hfront : (headers ++ (core ++ Bytes.zeros (modulesEnd t.format.word core.length -
      (headerSize t.format.word + core.length)))).length = modulesEnd t.format.word core.length := by
    rw [List.length_append, List.length_append, Bytes.length_zeros, hlen]
    omega
  -- The zeros behind the core image are its padding and the rooms of both pieces.
  have hrest : (Plan.exact t core.length layout modulesSize metadata).imageSize -
      (headerSize t.format.word + core.length) =
        modulesEnd t.format.word core.length - (headerSize t.format.word + core.length) +
          ((metadata.map (metadataSpace t.format.word)).getD 0 +
            Alignment.roundUp Target.peFileAlign layout.relocationSize) := by
    rw [imageSize_exact_eq]
    omega
  have hput := foldl_overlay_pieces (headers ++ (core ++ Bytes.zeros
    (modulesEnd t.format.word core.length - (headerSize t.format.word + core.length))))
    hsupplied.fits htable
  rw [hfront] at hput
  rw [hrest, ← Bytes.zeros_append, ← List.append_assoc core, ← List.append_assoc headers, hput,
    behindCore, List.append_assoc, List.append_assoc]

/-- **Writing a planned image**: beyond its planning it needs headers that can be written, and the
metadata that was planned. -/
theorem Plan.write_exact_eq_ok_iff {machine : Machine}
    (h : modulesStart t.format.word layout ≤ modulesEnd t.format.word core.length) :
    (Plan.exact t core.length layout modulesSize metadata).write files machine core layout path =
        .ok image ↔
      ∃ headers content, (Plan.exact t core.length layout modulesSize metadata).headers machine layout =
          .ok headers ∧ Supplied files t.format.word metadata path content ∧
        image = headers ++ (core ++ behindCore t.format.word core.length layout metadata content) := by
  have hend := le_modulesEnd t.format.word core.length
  have hroom : ¬ (Plan.exact t core.length layout modulesSize metadata).imageSize <
      Pe.headerSize t.format.word + core.length := by
    rw [imageSize_exact_eq]
    omega
  have hheader : (Plan.exact t core.length layout modulesSize metadata).headerSize =
      Pe.headerSize t.format.word := rfl
  -- The core image fits, so the headers and the metadata are left to fail.
  rw [Plan.write, hheader, if_neg hroom]
  simp only [bind_eq_ok_iff, metadataPieces_exact_eq_ok_iff h, relocationPieces_exact h]
  refine ⟨?_, ?_⟩
  · intro h
    rcases h with ⟨headers, hheaders, _, ⟨content, hcontent, rfl⟩, _, hrelocations, heq⟩
    cases hrelocations
    cases heq
    refine ⟨headers, content, hheaders, hcontent, ?_⟩
    exact foldl_pieces_exact (length_headers_exact hheaders) hcontent
  · intro h
    rcases h with ⟨headers, content, hheaders, hcontent, rfl⟩
    refine ⟨headers, hheaders, _, ⟨content, hcontent, rfl⟩, _, rfl, ?_⟩
    exact congrArg _ (foldl_pieces_exact (length_headers_exact hheaders) hcontent)

/-- The metadata that a file system supplies for the sizes it reports. -/
theorem supplied_iff {word : WordWidth} (h : ∀ p ∈ path, ∃ content, files.content? p = some content) :
    Supplied files word (path.map fun p => (files.contentAt p).length) path content ↔
      content = path.map files.contentAt := by
  -- The size that was planned is that of the same file, so the file fits.
  cases path with
  | none =>
    cases content with
    | none => exact ⟨fun _ => rfl, fun _ => trivial⟩
    | some content => exact ⟨fun h => h.elim, fun h => nomatch h⟩
  | some path =>
    obtain ⟨found, hfound⟩ := h path rfl
    cases content with
    | none => exact ⟨fun h => h.elim, fun h => nomatch h⟩
    | some content =>
      rw [Option.map_some, Option.map_some, FileSystem.contentAt_eq hfound, Option.some.injEq]
      refine ⟨?_, ?_⟩
      · intro h
        rcases h with ⟨hcontent, -⟩
        rw [hfound] at hcontent
        exact (Option.some.inj hcontent).symm
      · rintro rfl
        refine ⟨hfound, ?_⟩
        exact Nat.le_trans (Alignment.le_roundUp word.bytes_pos _) (le_metadataSpace word _)

theorem checkMetadata_of_pe {machine : Machine} (ht : t.container = .pe machine) (path : Option Path) :
    Container.checkMetadata t path = .ok () := by
  have hpe : t.isPe = true := by rw [Target.isPe, ht]
  cases path with
  | none => rfl
  | some path => rw [Container.checkMetadata, if_pos hpe]

/-- **Wrapping a core image**: the metadata has to be a file, the layout has to be feasible, and its
headers have to be writable. -/
theorem wrap_pe_eq_ok_iff {machine : Machine} (ht : t.container = .pe machine) :
    Container.wrap files t core layout modulesSize path = .ok image ↔
      (∀ p ∈ path, ∃ content, files.content? p = some content) ∧
        Plan.Feasible t core.length layout modulesSize
          (path.map fun p => (files.contentAt p).length) ∧
        ∃ headers, (Plan.exact t core.length layout modulesSize
            (path.map fun p => (files.contentAt p).length)).headers machine layout = .ok headers ∧
          image = headers ++ (core ++ behindCore t.format.word core.length layout
            (path.map fun p => (files.contentAt p).length) (path.map files.contentAt)) := by
  rw [Container.wrap, checkMetadata_of_pe ht, ok_bind, ht]
  -- Sizes first, then the plan, then the image: each step is known as a condition and a value.
  simp only [bind_eq_ok_iff, FileSystem.mapM_size_eq_ok_iff, Plan.make_eq_ok_iff]
  refine ⟨?_, ?_⟩
  · intro h
    rcases h with ⟨_, ⟨hfiles, rfl⟩, _, ⟨hfeasible, rfl⟩, h⟩
    obtain ⟨headers, content, hheaders, hcontent, rfl⟩ :=
      (Plan.write_exact_eq_ok_iff hfeasible.holdsKernel).1 h
    rw [(supplied_iff hfiles).1 hcontent]
    exact ⟨hfiles, hfeasible, headers, hheaders, rfl⟩
  · intro h
    rcases h with ⟨hfiles, hfeasible, headers, hheaders, rfl⟩
    refine ⟨_, ⟨hfiles, rfl⟩, _, ⟨hfeasible, rfl⟩, ?_⟩
    exact (Plan.write_exact_eq_ok_iff hfeasible.holdsKernel).2
      ⟨headers, _, hheaders, (supplied_iff hfiles).2 rfl, rfl⟩

end Writing

end BootImage.Pe
