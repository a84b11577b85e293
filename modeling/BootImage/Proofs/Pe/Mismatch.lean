import BootImage.Proofs.Patches
import BootImage.Proofs.Pe.Contents

/-!
# Writing what was not planned

A plan knows where its sections start and how large the image is. It does not know how large the core
image and the relocation table are that it was made for. Others are refused only where they reach beyond
the image. A core image that reaches behind its own room is put into the image, and then the secure-boot
metadata and the relocation table are put over it.

- `Piece.patch`: a piece as a patch of the image.
- `Plan.write_other_eq_ok_iff`: what is written for a core image and a layout that were not planned.
- `ordered_piecesBehind`: the pieces behind the core image lie one behind the other.
- `Plan.write_of_make_other`: what is refused, what is written, and when the core image is still there.
-/

namespace BootImage.Pe

/-! ## §1 Pieces as patches -/

/-- A piece as a patch of the image. -/
def Piece.patch (p : Piece) : Patch := ⟨p.offset, p.content⟩

theorem foldl_overlay_eq_patched (image : Bytes) (pieces : List Piece) :
    pieces.foldl (fun image p => image.overlay p.offset p.content) image =
      image.patched (pieces.map Piece.patch) := by
  rw [Bytes.patched, List.foldl_map]
  rfl

section Written

variable {files : FileSystem} {t : Target} {machine : Machine} {planned layout : Kernel.Layout}
  {coreSize modulesSize : Nat} {metadata : Option Nat} {path : Option Path} {content : Option Bytes}
  {core image headers : Bytes}

/-- Metadata is supplied exactly where it was planned. -/
theorem Supplied.isSome_eq {word : WordWidth} (h : Supplied files word metadata path content) :
    content.isSome = metadata.isSome := by
  cases metadata <;> cases path <;> cases content <;> first | rfl | exact h.elim

/-- Metadata that is supplied can be read. -/
theorem Supplied.mapM_read {word : WordWidth} (h : Supplied files word metadata path content) :
    path.mapM files.read = .ok content := by
  cases metadata with
  | none =>
    cases path <;> cases content
    · rfl
    all_goals exact h.elim
  | some size =>
    cases path with
    | none => cases content <;> exact h.elim
    | some path =>
      cases content with
      | none => exact h.elim
      | some content => rw [Option.mapM_some, FileSystem.read_eq_ok_iff_content?.2 h.1]; rfl

/-! ## §2 Other core images and layouts -/

/-- Where the relocation table of an exact plan starts. -/
def tableStart (word : WordWidth) (coreSize : Nat) (metadata : Option Nat) : Nat :=
  modulesEnd word coreSize + (metadata.map (metadataSpace word)).getD 0

/-- The section of the relocation table starts where the core image and the metadata of the plan end. -/
theorem rawOffset_relocations_exact
    (h : modulesStart t.format.word planned ≤ modulesEnd t.format.word coreSize) :
    ∀ table ∈ (Plan.exact t coreSize planned modulesSize metadata).section? .relocations,
      table.rawOffset = tableStart t.format.word coreSize metadata := by
  rw [section?_relocations_exact]
  rintro _ ⟨⟩
  exact offset_after_parts h

/-- The relocation table of a layout that need not be the planned one. -/
theorem relocationPieces_other
    (h : modulesStart t.format.word planned ≤ modulesEnd t.format.word coreSize) :
    (Plan.exact t coreSize planned modulesSize metadata).relocationPieces layout =
      if (Plan.exact t coreSize planned modulesSize metadata).imageSize <
          tableStart t.format.word coreSize metadata + layout.relocationSize then
        refuse (.relocationMismatch layout.relocationSize)
      else .ok [⟨tableStart t.format.word coreSize metadata, layout.relocations⟩] := by
  rw [Plan.relocationPieces.eq_def, section?_relocations_exact, offset_after_parts h]
  rfl

/-- The image of a core image and a layout that need not be the planned ones: headers, core image and
zeros, with the other pieces put over them. -/
theorem Plan.write_other_eq_ok_iff
    (h : modulesStart t.format.word planned ≤ modulesEnd t.format.word coreSize) :
    (Plan.exact t coreSize planned modulesSize metadata).write files machine core layout path =
        .ok image ↔
      Pe.headerSize t.format.word + core.length ≤
          (Plan.exact t coreSize planned modulesSize metadata).imageSize ∧
        tableStart t.format.word coreSize metadata + layout.relocationSize ≤
          (Plan.exact t coreSize planned modulesSize metadata).imageSize ∧
        ∃ headers content,
          (Plan.exact t coreSize planned modulesSize metadata).headers machine layout = .ok headers ∧
          Supplied files t.format.word metadata path content ∧
          image = Bytes.patched (headers ++ (core ++ Bytes.zeros
            ((Plan.exact t coreSize planned modulesSize metadata).imageSize -
              (Pe.headerSize t.format.word + core.length))))
            ((piecesBehind t.format.word coreSize layout metadata content).map Piece.patch) := by
  have hheader : (Plan.exact t coreSize planned modulesSize metadata).headerSize =
      Pe.headerSize t.format.word := rfl
  -- Two sizes are compared with that of the image; the metadata and the headers decide the rest.
  rw [Plan.write, hheader, guard_eq_ok_iff, Nat.not_lt]
  simp only [bind_eq_ok_iff, metadataPieces_exact_eq_ok_iff h, relocationPieces_other h, guard_eq_ok_iff,
    Nat.not_lt, foldl_overlay_eq_patched]
  constructor
  · rintro ⟨hcore, headers, hheaders, _, ⟨content, hcontent, rfl⟩, _, ⟨htable, hpieces⟩, himage⟩
    cases hpieces
    cases himage
    exact ⟨hcore, htable, headers, content, hheaders, hcontent, rfl⟩
  · rintro ⟨hcore, htable, headers, content, hheaders, hcontent, rfl⟩
    exact ⟨hcore, headers, hheaders, _, ⟨content, hcontent, rfl⟩, _, ⟨htable, rfl⟩, rfl⟩

/-- The pieces behind the core image lie one behind the other, and inside of the image. -/
theorem ordered_piecesBehind {limit : Nat} (hsupplied : Supplied files t.format.word metadata path content)
    (htable : tableStart t.format.word coreSize metadata + layout.relocationSize ≤ limit) :
    Patch.Ordered limit (modulesEnd t.format.word coreSize)
      ((piecesBehind t.format.word coreSize layout metadata content).map Piece.patch) := by
  have hfits := hsupplied.fits
  -- With metadata there are two pieces, and without it there is one.
  cases content with
  | none => exact ⟨Nat.le_add_right _ _, htable⟩
  | some bytes => exact ⟨Nat.le_refl _, Nat.add_le_add_left hfits _, htable⟩

/-- A core image that is no longer than the planned one ends in front of the other pieces. -/
theorem compatible_of_length_le (hlen : core.length ≤ coreSize)
    (hsupplied : Supplied files t.format.word metadata path content) :
    ∀ p ∈ piecesBehind t.format.word coreSize layout metadata content,
      p.patch.Compatible ⟨headerSize t.format.word, core⟩ := by
  -- A byte of such a piece and of the core image would lie both behind and in front of the padding.
  intro p hp i hpatch hcore
  have hordered : Patch.Ordered _ (modulesEnd t.format.word coreSize)
      ((piecesBehind t.format.word coreSize layout metadata content).map Piece.patch) :=
    ordered_piecesBehind hsupplied (Nat.le_refl _)
  have hbehind := (hordered.bounds _ (List.mem_map_of_mem hp)).1
  have hend := le_modulesEnd t.format.word coreSize
  simp only [Patch.range, ByteRange.Holds] at hpatch hcore
  omega

/-! ## §3 What is written -/

/-- What lies in the image of a core image and a layout that need not be the planned ones. -/
theorem holds_of_write_other
    (h : modulesStart t.format.word planned ≤ modulesEnd t.format.word coreSize)
    (himage : (Plan.exact t coreSize planned modulesSize metadata).write files machine core layout path =
      .ok image) :
    image.length = (Plan.exact t coreSize planned modulesSize metadata).imageSize ∧
      ∃ content, Supplied files t.format.word metadata path content ∧
        (∀ p ∈ piecesBehind t.format.word coreSize layout metadata content,
          image.slice p.offset p.content.length = p.content) ∧
        (image.slice (headerSize t.format.word) core.length = core ↔
          ∀ p ∈ piecesBehind t.format.word coreSize layout metadata content,
            p.patch.Compatible ⟨headerSize t.format.word, core⟩) := by
  obtain ⟨hcore, htable, headers, content, hheaders, hsupplied, rfl⟩ :=
    (Plan.write_other_eq_ok_iff h).1 himage
  have hlen := length_headers_exact hheaders
  have hordered := ordered_piecesBehind hsupplied htable
  -- The image without the other pieces has its full length and holds the core image.
  have htotal : (headers ++ (core ++ Bytes.zeros
      ((Plan.exact t coreSize planned modulesSize metadata).imageSize -
        (headerSize t.format.word + core.length)))).length =
      (Plan.exact t coreSize planned modulesSize metadata).imageSize := by
    rw [List.length_append, List.length_append, Bytes.length_zeros, hlen, ← Nat.add_assoc,
      Nat.add_sub_cancel' hcore]
  have hheld := Bytes.slice_append_self headers core
    (Bytes.zeros ((Plan.exact t coreSize planned modulesSize metadata).imageSize -
      (headerSize t.format.word + core.length)))
  have hfit := Nat.le_of_eq htotal.symm
  rw [hlen] at hheld
  -- The pieces themselves are found; the core image is, where none of them changes it.
  refine ⟨(Bytes.length_patched hordered hfit).trans htotal, content, hsupplied, ?_, ?_⟩
  · exact List.forall_mem_map.1 (Bytes.slice_patched hordered hfit)
  · have houtlives := Bytes.slice_patched_eq_iff hordered hfit (q := ⟨headerSize t.format.word, core⟩) hheld
    rw [List.forall_mem_map] at houtlives
    exact houtlives

/-- **Writing what was not planned**: a plan is refused for a core image or a relocation table that
reaches beyond the image, and for these sizes alone. -/
theorem Plan.write_of_make_other {plan : Plan}
    (hplan : Plan.make t coreSize planned modulesSize metadata = .ok plan) (files : FileSystem)
    (machine : Machine) (core : Bytes) (layout : Kernel.Layout) (path : Option Path) :
    (plan.imageSize < plan.headerSize + core.length →
      plan.write files machine core layout path = refuse (.coreMismatch core.length)) ∧
    (∀ table ∈ plan.section? .relocations, plan.headerSize + core.length ≤ plan.imageSize →
      (∃ headers, plan.headers machine layout = .ok headers) →
      (∃ pieces, plan.metadataPieces files path = .ok pieces) →
      plan.imageSize < table.rawOffset + layout.relocationSize →
      plan.write files machine core layout path =
        refuse (.relocationMismatch layout.relocationSize)) ∧
    ((∃ image, plan.write files machine core layout path = .ok image) ↔
      plan.headerSize + core.length ≤ plan.imageSize ∧
        (∀ table ∈ plan.section? .relocations,
          table.rawOffset + layout.relocationSize ≤ plan.imageSize) ∧
        (∃ headers, plan.headers machine layout = .ok headers) ∧
        ∃ pieces, plan.metadataPieces files path = .ok pieces) ∧
    ∀ image, plan.write files machine core layout path = .ok image →
      image.length = plan.imageSize ∧
      (∀ table ∈ plan.section? .relocations,
        image.slice table.rawOffset layout.relocationSize = layout.relocations) ∧
      ∃ content behind, path.mapM files.read = .ok content ∧
        plan.pieces? core content layout = some (⟨plan.headerSize, core⟩ :: behind) ∧
        (∀ p ∈ behind, image.slice p.offset p.content.length = p.content) ∧
        (image.slice plan.headerSize core.length = core ↔
          ∀ p ∈ behind, p.patch.Compatible ⟨plan.headerSize, core⟩) ∧
        (core.length ≤ coreSize → image.slice plan.headerSize core.length = core) := by
  obtain ⟨hfeasible, rfl⟩ := Plan.make_eq_ok_iff.1 hplan
  have hholds := hfeasible.holdsKernel
  have hstart := @rawOffset_relocations_exact t planned coreSize modulesSize metadata hholds
  obtain ⟨table, hsection⟩ : ∃ table, (Plan.exact t coreSize planned modulesSize metadata).section?
      .relocations = some table := ⟨_, section?_relocations_exact⟩
  rw [hsection] at hstart ⊢
  simp only [Option.mem_def, Option.some.injEq, forall_eq'] at hstart ⊢
  rw [hstart]
  -- The size of the core image is checked first of all, that of the table last of all.
  refine ⟨?core, ?table, ?accepted, ?holds⟩
  case core => exact fun hlong => if_pos hlong
  case table =>
    intro hcore hheaders hpieces hlong
    obtain ⟨headers, hheaders⟩ := hheaders
    obtain ⟨pieces, hpieces⟩ := hpieces
    rw [Plan.write, if_neg (Nat.not_lt.2 hcore), hheaders, ok_bind, hpieces, ok_bind,
      relocationPieces_other hholds, if_pos hlong]
    rfl
  case accepted =>
    constructor
    · rintro ⟨image, himage⟩
      obtain ⟨hcore, htable, headers, content, hheaders, hsupplied, -⟩ :=
        (Plan.write_other_eq_ok_iff hholds).1 himage
      exact ⟨hcore, htable, ⟨headers, hheaders⟩, _,
        (metadataPieces_exact_eq_ok_iff hholds).2 ⟨content, hsupplied, rfl⟩⟩
    · rintro ⟨hcore, htable, ⟨headers, hheaders⟩, pieces, hpieces⟩
      obtain ⟨content, hsupplied, -⟩ := (metadataPieces_exact_eq_ok_iff hholds).1 hpieces
      exact ⟨_, (Plan.write_other_eq_ok_iff hholds).2
        ⟨hcore, htable, headers, content, hheaders, hsupplied, rfl⟩⟩
  case holds =>
    intro image himage
    obtain ⟨hlen, content, hsupplied, hbehind, houtlives⟩ := holds_of_write_other hholds himage
    refine ⟨hlen, ?_, content, _, hsupplied.mapM_read, pieces?_of_given hholds hsupplied.isSome_eq,
      hbehind, houtlives, fun hle => houtlives.2 (compatible_of_length_le hle hsupplied)⟩
    -- The relocation table is the last of the pieces.
    exact hbehind ⟨tableStart t.format.word coreSize metadata, layout.relocations⟩
      (List.mem_append_right _ (List.mem_singleton_self _))

end Written

/-! ### A core image of three blocks in the place of two -/

namespace Longer

/-- A file system without files. -/
def files : FileSystem := ⟨fun _ => .error .noEntry⟩

/-- A kernel of one block, with a relocation table. -/
def layout : Kernel.Layout where
  kernelSize := 512
  executableSize := 512
  relocations := [1, 2, 3, 4]

/-- A core image that is a block longer than the kernel and an info record. -/
def core : Bytes := List.replicate 1536 0x90

theorem moderate : Moderate Target.efiAmd64 layout 24 none := ⟨rfl, by decide, by decide⟩

theorem feasible : Plan.Feasible Target.efiAmd64 (512 + 24) layout 24 none := moderate.feasible (by decide)

theorem length_core : core.length = 1536 := List.length_replicate

/-- The plan of two blocks and the relocation table. -/
def plan : Plan := Plan.exact Target.efiAmd64 (512 + 24) layout 24 none

theorem make_plan : Plan.make Target.efiAmd64 (512 + 24) layout 24 none = .ok plan :=
  Plan.make_of_feasible feasible

theorem exists_headers : ∃ headers, plan.headers .amd64 layout = .ok headers :=
  feasible.exists_headers (by decide)

end Longer

/-- The longer core image ends with the image. One byte more is refused. -/
theorem Plan.write_of_make_other_longer :
    (∃ image, Longer.plan.write Longer.files .amd64 Longer.core Longer.layout none = .ok image) ∧
      Longer.plan.write Longer.files .amd64 (0x90 :: Longer.core) Longer.layout none =
        refuse (.coreMismatch 1537) := by
  obtain ⟨-, -, haccepted, -⟩ :=
    Plan.write_of_make_other Longer.make_plan Longer.files .amd64 Longer.core Longer.layout none
  obtain ⟨hrefused, -⟩ := Plan.write_of_make_other Longer.make_plan Longer.files .amd64
    (0x90 :: Longer.core) Longer.layout none
  rw [List.length_cons, Longer.length_core] at hrefused
  rw [Longer.length_core] at haccepted
  -- The longer core image ends with the image; with one byte more it would end behind it.
  refine ⟨haccepted.2 ⟨by decide, ?_, Longer.exists_headers, [], rfl⟩, hrefused (by decide)⟩
  intro table htable
  rw [rawOffset_relocations_exact Longer.feasible.holdsKernel table htable]
  decide

/-- **A longer core image is not refused**: its third block ends with the image, and the relocation table
is put over the first bytes of it. -/
theorem Plan.write_covers_core :
    Plan.make Target.efiAmd64 (512 + 24) Longer.layout 24 none = .ok Longer.plan ∧
      ∃ image, Longer.plan.write Longer.files .amd64 Longer.core Longer.layout none =
          .ok image ∧
        image[2048]? = some 1 ∧ Longer.core[2048 - Longer.plan.headerSize]? = some 0x90 := by
  have hholds := Longer.feasible.holdsKernel
  obtain ⟨headers, hheaders⟩ := Longer.exists_headers
  have hcore : Pe.headerSize Target.efiAmd64.format.word + Longer.core.length ≤
      (Plan.exact Target.efiAmd64 (512 + 24) Longer.layout 24 none).imageSize := by
    rw [Longer.length_core]
    decide
  have htable : tableStart .w64 (512 + 24) none + Longer.layout.relocationSize ≤ Longer.plan.imageSize := by
    decide
  have hsupplied : Supplied Longer.files .w64 none none none := trivial
  obtain ⟨image, himage⟩ : ∃ image, Longer.plan.write Longer.files .amd64 Longer.core
      Longer.layout none = .ok image :=
    ⟨_, (Plan.write_other_eq_ok_iff hholds).2 ⟨hcore, htable, headers, none, hheaders, hsupplied, rfl⟩⟩
  obtain ⟨-, content, -, hbehind, -⟩ := holds_of_write_other hholds himage
  -- At this offset the image has the first byte of the table, and the core image would have a byte of
  -- its own.
  refine ⟨Longer.make_plan, image, himage, ?_, ?_⟩
  · have hread := hbehind ⟨tableStart .w64 (512 + 24) none, Longer.layout.relocations⟩
      (List.mem_append_right _ (List.mem_singleton_self _))
    have hstart : tableStart .w64 (512 + 24) none = 2048 := by decide
    rw [hstart] at hread
    exact Bytes.getElem?_of_slice hread (by decide : 0 < 4)
  · rw [Longer.core, List.getElem?_replicate]
    rfl

end BootImage.Pe
