import BootImage.Proofs.Build.Contents
import BootImage.Proofs.Pe.Blocks

/-!
# What a PE image holds

The headers of an image say how it was planned, and behind the headers lie the core image, the
secure-boot metadata and the relocation table. The places of all three come from rounding sizes, and
still none of them lies over another one, and between them there are only zeros.

- `Filled`: an image that holds some pieces, and zeros elsewhere; `Filled.overlay`: one piece more.
- `Plan.pieces?`: the pieces of an image, at the places that its plan gives them.
- `Plan.read?_of_write`: what a reader finds in the headers.
- `holds_pieces_of_wrap`: what lies behind them.
-/

namespace BootImage.Pe

/-! ## §1 Pieces and zeros -/

/-- The offset behind a piece. -/
def Piece.finish (p : Piece) : Nat := p.offset + p.content.length

/-- From an offset on, an image holds some pieces, apart from each other, and zeros everywhere else. -/
structure Filled (image : Bytes) (start : Nat) (pieces : List Piece) : Prop where
  within : ∀ p ∈ pieces, start ≤ p.offset ∧ p.finish ≤ image.length
  apart : pieces.Pairwise fun p next => p.finish ≤ next.offset
  held : ∀ p ∈ pieces, image.slice p.offset p.content.length = p.content
  zero : ∀ offset, start ≤ offset → offset < image.length →
    (∀ p ∈ pieces, offset < p.offset ∨ p.finish ≤ offset) → image[offset]? = some 0

namespace Filled

variable {image : Bytes} {start : Nat} {pieces later : List Piece}

/-- One piece between headers and zeros. -/
theorem of_append (headers piece : Bytes) (rest : Nat) :
    Filled (headers ++ (piece ++ Bytes.zeros rest)) headers.length [⟨headers.length, piece⟩] := by
  -- There is only one piece, so there is nothing for it to be apart from.
  refine ⟨?_, List.pairwise_singleton _ _, ?_, ?_⟩
  · simp [Piece.finish]
  · simpa using Bytes.slice_append_self headers piece (Bytes.zeros rest)
  · intro offset hstart hend hclear
    simp only [List.length_append, Bytes.length_zeros] at hend
    simp only [List.forall_mem_singleton, Piece.finish] at hclear
    rw [List.getElem?_append_right hstart, List.getElem?_append_right (by omega), Bytes.getElem?_zeros,
      if_pos (by omega)]

/-- **One piece more**, behind all others. -/
theorem overlay (h : Filled image start pieces) {p : Piece} (hstart : start ≤ p.offset)
    (hfit : p.finish ≤ image.length) (hbehind : ∀ q ∈ pieces, q.finish ≤ p.offset) :
    Filled (image.overlay p.offset p.content) start (pieces ++ [p]) := by
  have hlen := Bytes.length_overlay hfit
  -- Every piece is one of those from before, or the new one.
  refine ⟨?within, ?apart, ?held, ?zero⟩
  case within =>
    intro q hq
    rw [hlen]
    rcases List.mem_append.1 hq with hq | hq
    · exact h.within q hq
    · cases List.mem_singleton.1 hq
      exact ⟨hstart, hfit⟩
  case apart =>
    rw [List.pairwise_append]
    refine ⟨h.apart, List.pairwise_singleton _ _, fun q hq other hother => ?_⟩
    cases List.mem_singleton.1 hother
    exact hbehind q hq
  case held =>
    intro q hq
    rcases List.mem_append.1 hq with hq | hq
    · rw [Bytes.slice_overlay_of_disjoint hfit (.inl (hbehind q hq))]
      exact h.held q hq
    · cases List.mem_singleton.1 hq
      exact Bytes.slice_overlay_self hfit
  case zero =>
    intro offset hlow hhigh hclear
    rw [hlen] at hhigh
    simp only [List.forall_mem_append, List.forall_mem_singleton] at hclear
    -- Outside of the new piece the image is as it was.
    rw [Bytes.getElem?_overlay hfit, if_neg]
    · exact h.zero offset hlow hhigh hclear.1
    · have hself := hclear.2
      rw [Piece.finish] at hself
      omega

/-- **All pieces**, each behind the ones before it. -/
theorem foldl_overlay (h : Filled image start pieces)
    (hapart : (pieces ++ later).Pairwise fun p next => p.finish ≤ next.offset)
    (hwithin : ∀ p ∈ later, start ≤ p.offset ∧ p.finish ≤ image.length) :
    Filled (later.foldl (fun image p => image.overlay p.offset p.content) image) start
      (pieces ++ later) := by
  -- By induction on the pieces that are left; the image keeps its length.
  induction later generalizing image pieces with
  | nil => simpa using h
  | cons p later ih =>
    rw [List.forall_mem_cons] at hwithin
    obtain ⟨⟨hstart, hfit⟩, hlater⟩ := hwithin
    -- The next piece lies behind all pieces that are there already.
    have hbehind : ∀ q ∈ pieces, q.finish ≤ p.offset := by
      intro q hq
      exact (List.pairwise_append.1 hapart).2.2 q hq p (List.mem_cons_self ..)
    rw [List.append_cons] at hapart ⊢
    rw [← Bytes.length_overlay hfit] at hlater
    exact ih (h.overlay hstart hfit hbehind) hapart hlater

end Filled

/-! ## §2 The pieces of an image -/

/-- What lies behind the headers of an image: the core image, and the secure-boot metadata and the
relocation table at the start of their sections. -/
def Plan.pieces? (plan : Plan) (core : Bytes) (metadata : Option Bytes) (layout : Kernel.Layout) :
    Option (List Piece) := do
  let relocations ← plan.section? .relocations
  match metadata with
  | none => some [⟨plan.headerSize, core⟩, ⟨relocations.rawOffset, layout.relocations⟩]
  | some content => do
    let s ← plan.section? .metadata
    some [⟨plan.headerSize, core⟩, ⟨s.rawOffset, content⟩,
      ⟨relocations.rawOffset, layout.relocations⟩]

/-- The pieces behind the core image, placed by sizes alone. -/
def piecesBehind (word : WordWidth) (coreSize : Nat) (layout : Kernel.Layout) (metadata : Option Nat)
    (content : Option Bytes) : List Piece :=
  (content.toList.map fun bytes => ⟨modulesEnd word coreSize, bytes⟩) ++
    [⟨modulesEnd word coreSize + (metadata.map (metadataSpace word)).getD 0, layout.relocations⟩]

section Written

variable {files : FileSystem} {t : Target} {core image headers : Bytes} {layout : Kernel.Layout}
  {modulesSize : Nat} {metadata : Option Nat} {path : Option Path} {content : Option Bytes}

/-- The pieces of a core image and a layout that need not be the planned ones. -/
theorem pieces?_of_given {coreSize : Nat} {planned : Kernel.Layout}
    (h : modulesStart t.format.word planned ≤ modulesEnd t.format.word coreSize)
    (hgiven : content.isSome = metadata.isSome) :
    (Plan.exact t coreSize planned modulesSize metadata).pieces? core content layout =
      some (⟨headerSize t.format.word, core⟩ ::
        piecesBehind t.format.word coreSize layout metadata content) := by
  -- The sections name the places, and rounding the sizes leads to the same ones.
  simp only [Plan.pieces?, section?_relocations_exact, section?_metadata_exact, offset_after_core _ h,
    offset_after_parts h]
  cases content with
  | none => rfl
  | some bytes =>
    cases metadata with
    | none => cases hgiven
    | some size => rfl

/-- The pieces of what was planned: the core image, the metadata if there is any, and the relocation
table. -/
theorem pieces?_exact
    (h : modulesStart t.format.word layout ≤ modulesEnd t.format.word core.length) :
    (Plan.exact t core.length layout modulesSize (content.map List.length)).pieces? core content
        layout =
      some (⟨headerSize t.format.word, core⟩ ::
        piecesBehind t.format.word core.length layout (content.map List.length) content) :=
  pieces?_of_given h Option.isSome_map.symm

/-- Headers, core image and what follows it are as long as planned. -/
theorem length_image_exact (hlen : headers.length = headerSize t.format.word) :
    (headers ++ (core ++ behindCore t.format.word core.length layout metadata content)).length =
      (Plan.exact t core.length layout modulesSize metadata).imageSize := by
  have hend := le_modulesEnd t.format.word core.length
  rw [imageSize_exact_eq]
  simp only [behindCore, List.length_append, Bytes.length_zeros, Bytes.length_resize, hlen]
  omega

/-! ## §3 The headers -/

/-- **A reader finds the plan in the headers**: the processor, the number of sections, every section,
and every number of the optional header at its full size. -/
theorem Plan.read?_of_write {plan : Plan} {machine : Machine}
    (hplan : Plan.make t core.length layout modulesSize metadata = .ok plan)
    (himage : plan.write files machine core layout path = .ok image) :
    ∃ relocations, plan.section? .relocations = some relocations ∧
      Headers.read? t.format.order image = some {
        file := {
          machine := machine.code
          sectionCount := plan.sections.length
          timestamp := timestamp
          optionalSize := optionalSize t.format.word
          flags := imageFlags t.format.word }
        optional := {
          magic := optionalMagic t.format.word
          codeSize := layout.executableSize
          dataSize := exactDataSize t.format.word layout modulesSize metadata
          bssSize := 0
          entryAddress := layout.startAddress
          codeBase := Pe.headerSize t.format.word
          dataBase :=
            match t.format.word with
            | .w32 => some (Pe.headerSize t.format.word + layout.executableSize)
            | .w64 => none
          imageBase := 0
          sectionAlign := t.sectionAlign
          fileAlign := Target.peFileAlign
          imageSize := image.length
          headerSize := Pe.headerSize t.format.word
          subsystem := efiApplication
          stack := (stackAndHeapSize, stackAndHeapSize)
          heap := (stackAndHeapSize, stackAndHeapSize)
          directories := (List.range directoryCount).map fun index =>
            if index = relocationDirectory then ⟨relocations.virtualAddress, relocations.virtualSize⟩
            else ⟨0, 0⟩ }
        sections := plan.sections.map Section.entry } := by
  obtain ⟨hfeasible, rfl⟩ := Plan.make_eq_ok_iff.1 hplan
  obtain ⟨headers, content, hheaders, -, himage⟩ :=
    (Plan.write_exact_eq_ok_iff hfeasible.holdsKernel).1 himage
  have hlen : image.length = (Plan.exact t core.length layout modulesSize metadata).imageSize := by
    rw [himage]
    exact length_image_exact (length_headers_exact hheaders)
  -- The stated size is that of the plan, which is the length of the image.
  refine ⟨_, section?_relocations_exact, ?_⟩
  rw [hlen, himage]
  exact Plan.read?_of_headers roomy_exact hheaders _

/-! ## §4 Behind the headers -/

/-- A written image holds its pieces, and zeros where there is none: between them, and behind the last
one. -/
theorem filled_exact (hlen : headers.length = headerSize t.format.word)
    (hsupplied : Supplied files t.format.word metadata path content) :
    Filled (headers ++ (core ++ behindCore t.format.word core.length layout metadata content))
      (headerSize t.format.word)
      (⟨headerSize t.format.word, core⟩ ::
        piecesBehind t.format.word core.length layout metadata content) := by
  have hfits := hsupplied.fits
  have hend := le_modulesEnd t.format.word core.length
  have htable : layout.relocations.length ≤ Alignment.roundUp Target.peFileAlign layout.relocationSize :=
    Alignment.le_roundUp (by decide) _
  have hsize := @imageSize_exact_eq t 0 layout metadata core.length
  rw [← @foldl_pieces_exact files t 0 layout metadata path content core headers hlen hsupplied, ← hlen]
  -- Each piece has its own room behind the core image, so the ends are in order.
  apply (Filled.of_append headers core _).foldl_overlay
  · cases content <;> simp [Piece.finish] at hfits ⊢ <;> omega
  · cases content <;> simp [Piece.finish] at hfits ⊢ <;> omega

/-- **What a container holds**: a raw image is its core image. A PE image has the size of its plan, and
behind the headers it holds the core image, the secure-boot metadata and the relocation table at the
places of the plan, apart from each other, and zeros elsewhere. -/
theorem holds_pieces_of_wrap (h : Container.wrap files t core layout modulesSize path = .ok image) :
    match t.container with
    | .raw => image = core
    | .pe _ => ∃ metadata plan pieces,
        path.mapM files.read = .ok metadata ∧
        Plan.make t core.length layout modulesSize (metadata.map List.length) = .ok plan ∧
        plan.pieces? core metadata layout = some pieces ∧
        image.length = plan.imageSize ∧ Filled image plan.headerSize pieces := by
  split
  · next hraw => exact ((Build.wrap_raw_eq_ok_iff hraw).1 h).2.2
  · next machine hpe =>
    obtain ⟨hfiles, hfeasible, headers, hheaders, rfl⟩ := (wrap_pe_eq_ok_iff hpe).1 h
    have hlen := length_headers_exact hheaders
    -- The sizes for the plan were asked for before the contents were read, of the same files.
    have hsizes : path.map (fun p => (files.contentAt p).length) =
        (path.map files.contentAt).map List.length := (Option.map_map _ _ path).symm
    have hsupplied : Supplied files t.format.word _ path _ := (supplied_iff hfiles).2 rfl
    rw [hsizes] at hfeasible hheaders hsupplied ⊢
    exact ⟨_, _, _, FileSystem.mapM_read_eq_ok hfiles, Plan.make_of_feasible hfeasible,
      pieces?_exact hfeasible.holdsKernel, length_image_exact hlen, filled_exact hlen hsupplied⟩

end Written

/-! ### An image with five sections -/

namespace TwoParts

def files : FileSystem := ⟨fun _ => .ok (.regular [1, 2, 3, 4, 5])⟩

def core : Bytes := List.replicate (0x303 + 0x210) 0x90

theorem feasible : Plan.Feasible target core.length layout 0x210 (some 5) := by
  rw [core, List.length_replicate]
  exact moderate.feasible (by decide)

end TwoParts

theorem Plan.read?_of_write_twoParts :
    ∃ plan image, Plan.make TwoParts.target TwoParts.core.length TwoParts.layout 0x210 (some 5) =
        .ok plan ∧
      plan.write TwoParts.files .i386 TwoParts.core TwoParts.layout (some ⟨"sbat.csv"⟩) = .ok image ∧
      ∃ relocations, plan.section? .relocations = some relocations ∧
        Headers.read? .big image = some {
          file := {
            machine := 0x014c
            sectionCount := 5
            timestamp := timestamp
            optionalSize := 224
            flags := imageFlags .w32 }
          optional := {
            magic := 0x010b
            codeSize := 0x101
            dataSize := 0xa00
            bssSize := 0
            entryAddress := 0x400
            codeBase := 0x400
            dataBase := some 0x501
            imageBase := 0
            sectionAlign := 0x1000
            fileAlign := 0x200
            imageSize := image.length
            headerSize := 0x400
            subsystem := 10
            stack := (0x10000, 0x10000)
            heap := (0x10000, 0x10000)
            directories := (List.range 16).map fun index =>
              if index = 5 then ⟨relocations.virtualAddress, relocations.virtualSize⟩ else ⟨0, 0⟩ }
          sections := plan.sections.map Section.entry } := by
  have hplan := Plan.make_of_feasible TwoParts.feasible
  obtain ⟨headers, hheaders⟩ := TwoParts.feasible.exists_headers (by decide)
  have himage := (Plan.write_exact_eq_ok_iff TwoParts.feasible.holdsKernel).2 ⟨headers, _, hheaders,
    (show Supplied TwoParts.files .w32 (some 5) (some ⟨"sbat.csv"⟩) (some [1, 2, 3, 4, 5]) from
      ⟨rfl, by decide⟩), rfl⟩
  exact ⟨_, _, hplan, himage, Plan.read?_of_write hplan himage⟩

theorem holds_pieces_of_wrap_twoParts :
    ∃ image, Container.wrap TwoParts.files TwoParts.target TwoParts.core TwoParts.layout 0x210
        (some ⟨"sbat.csv"⟩) = .ok image ∧
      ∃ metadata plan pieces,
        (some ⟨"sbat.csv"⟩ : Option Path).mapM TwoParts.files.read = .ok metadata ∧
        Plan.make TwoParts.target TwoParts.core.length TwoParts.layout 0x210
          (metadata.map List.length) = .ok plan ∧
        plan.pieces? TwoParts.core metadata TwoParts.layout = some pieces ∧
        image.length = plan.imageSize ∧ Filled image plan.headerSize pieces := by
  have hexists : ∃ image, Container.wrap TwoParts.files TwoParts.target TwoParts.core TwoParts.layout
      0x210 (some ⟨"sbat.csv"⟩) = .ok image :=
    (exists_wrap_pe_iff rfl (by decide)).2 ⟨fun p _ => ⟨[1, 2, 3, 4, 5], rfl⟩, TwoParts.feasible⟩
  obtain ⟨image, h⟩ := hexists
  exact ⟨image, h, holds_pieces_of_wrap h⟩

end BootImage.Pe
