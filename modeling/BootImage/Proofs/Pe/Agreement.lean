import BootImage.Proofs.Kernel
import BootImage.Proofs.Pe.Image

/-!
# PE images of kernels with the same sizes

The layout of an image and its headers are made of what a loader reports, and of its relocation table no
more than the size is used. Behind the core image, only the secure-boot metadata and the relocation table
themselves can tell two images apart.

- `Plan.exact_alike`, `Plan.Feasible.alike`, `Plan.headers_alike`: the layout and the headers.
- `Plan.contentRanges`: the ranges behind the core image that hold content; `agree_behindCore`: what
  follows the core image.
-/

namespace BootImage

namespace Pe

section Layout

variable {layout other : Kernel.Layout} {t : Target} {coreSize modulesSize : Nat} {metadata : Option Nat}

/-! ## §1 Layout and headers -/

/-- The room for data hangs on two sizes of the report. -/
theorem dataRoom_alike (h : layout.Alike other) : dataRoom layout = dataRoom other := by
  simp only [dataRoom, h.kernelSize, h.executableSize]

/-- So does the place at which the modules start. -/
theorem modulesStart_alike (h : layout.Alike other) (word : WordWidth) :
    modulesStart word layout = modulesStart word other := by
  simp only [modulesStart, dataRoom_alike h, h.executableSize]

/-- The parts of an image are named and measured by the report alone. -/
theorem parts_alike (h : layout.Alike other) (word : WordWidth) :
    parts word coreSize layout metadata = parts word coreSize other metadata := by
  simp only [parts, coreParts, dataRoom_alike h, modulesStart_alike h, h.executableSize]

/-- **Alike reports have one layout**, to the last number of the plan. -/
theorem Plan.exact_alike (h : layout.Alike other) :
    Plan.exact t coreSize layout modulesSize metadata =
      Plan.exact t coreSize other modulesSize metadata := by
  simp only [exact, exactDataSize, dataRoom_alike h, parts_alike h, h.executableSize, h.startAddress,
    h.relocationSize]

/-- Whether a layout can be stated hangs on the sizes of the report, so alike reports are planned or
refused together. -/
theorem Plan.Feasible.alike (hfeasible : Plan.Feasible t coreSize layout modulesSize metadata)
    (h : layout.Alike other) : Plan.Feasible t coreSize other modulesSize metadata := by
  -- The alignment is a matter of the target; each of the other conditions is about a number that both
  -- reports share.
  refine ⟨hfeasible.aligned, ?executable, ?holdsKernel, ?counted, ?fits⟩
  case executable =>
    rw [← h.executableSize, ← h.kernelSize]
    exact hfeasible.executable
  case holdsKernel =>
    rw [← modulesStart_alike h]
    exact hfeasible.holdsKernel
  case counted =>
    rw [exactDataSize, ← dataRoom_alike h]
    exact hfeasible.counted
  case fits =>
    rw [← parts_alike h, ← h.relocationSize]
    exact hfeasible.fits

/-- The headers tell nothing about a relocation table but its size. -/
theorem Plan.headers_alike (h : layout.Alike other) (plan : Plan) (machine : Machine) :
    plan.headers machine layout = plan.headers machine other := by
  have hvalue : plan.optionalValue layout = plan.optionalValue other := by
    -- Of all fields only the size of the relocation table is taken from the report itself.
    funext dataBase field
    cases field <;> simp only [optionalValue, h.relocationSize]
  simp only [headers, optionalFields, hvalue, h.executableSize]

/-! ## §2 Behind the core image -/

/-- The ranges of an image that hold secure-boot metadata of a given size and the relocation table: the
starts of their sections. -/
def Plan.contentRanges (plan : Plan) (metadata : Option Nat) (relocationSize : Nat) : List ByteRange :=
  ((plan.section? .metadata).bind fun s => metadata.map fun size => ⟨s.rawOffset, size⟩).toList ++
    (plan.section? .relocations).toList.map fun s => ⟨s.rawOffset, relocationSize⟩

/-- In an exact layout the two ranges start where the core image ends and where the metadata does. -/
theorem Plan.contentRanges_exact
    (h : modulesStart t.format.word layout ≤ modulesEnd t.format.word coreSize) :
    (Plan.exact t coreSize layout modulesSize metadata).contentRanges metadata layout.relocationSize =
      (metadata.map fun size => ⟨modulesEnd t.format.word coreSize, size⟩).toList ++
        [⟨modulesEnd t.format.word coreSize + (metadata.map (metadataSpace t.format.word)).getD 0,
          layout.relocationSize⟩] := by
  simp only [contentRanges, section?_metadata_exact, section?_relocations_exact, offset_after_core _ h,
    offset_after_parts h]
  cases metadata <;> rfl

/-- These ranges lie behind the core image. -/
theorem Plan.le_offset_of_mem_contentRanges
    (h : modulesStart t.format.word layout ≤ modulesEnd t.format.word coreSize) :
    ∀ range ∈ (Plan.exact t coreSize layout modulesSize metadata).contentRanges metadata
      layout.relocationSize, Pe.headerSize t.format.word + coreSize ≤ range.offset := by
  have hend := le_modulesEnd t.format.word coreSize
  rw [contentRanges_exact h]
  cases metadata with
  | none => simpa using hend
  | some size =>
    simp only [Option.map_some, Option.toList_some, List.singleton_append, List.forall_mem_cons]
    exact ⟨hend, Nat.le_trans hend (Nat.le_add_right _ _), fun _ h => absurd h List.not_mem_nil⟩

/-- **What follows the core image** agrees outside of the metadata and the relocation table. -/
theorem agree_behindCore {ranges : List ByteRange} {a b : Bytes} {content content' : Option Bytes}
    (h : layout.Alike other) (hagree : Bytes.AgreeOff ranges a b)
    (hlen : a.length = headerSize t.format.word + coreSize)
    (hcontent : Bytes.SameLength content content')
    (hholds : modulesStart t.format.word layout ≤ modulesEnd t.format.word coreSize) :
    Bytes.AgreeOff
      (ranges ++ (Plan.exact t coreSize layout modulesSize (content.map List.length)).contentRanges
        (content.map List.length) layout.relocationSize)
      (a ++ behindCore t.format.word coreSize layout (content.map List.length) content)
      (b ++ behindCore t.format.word coreSize other (content'.map List.length) content') := by
  have hend := le_modulesEnd t.format.word coreSize
  have htable : layout.relocations.length ≤
      Alignment.roundUp Target.peFileAlign layout.relocationSize := Alignment.le_roundUp (by decide) _
  -- The zeros up to the next block are the same in both images, and so is the place behind them.
  have hpadded := hagree.append_same
    (Bytes.zeros (modulesEnd t.format.word coreSize - (headerSize t.format.word + coreSize)))
  have hstart : (a ++ Bytes.zeros (modulesEnd t.format.word coreSize -
      (headerSize t.format.word + coreSize))).length = modulesEnd t.format.word coreSize := by
    rw [List.length_append, Bytes.length_zeros, hlen]
    omega
  rw [Plan.contentRanges_exact hholds, behindCore, behindCore, ← hcontent, ← h.relocationSize,
    ← List.append_assoc a, ← List.append_assoc b]
  -- Both images have metadata of one size, or neither has any.
  cases content with
  | none =>
    have hnone : content' = none := by simpa [Bytes.SameLength] using Eq.symm hcontent
    have hempty : Bytes.resize [] 0 = [] := rfl
    rw [hnone]
    simpa [hempty, hstart, Kernel.Layout.relocationSize] using
      hpadded.append_resized h.relocationSize htable
  | some bytes =>
    obtain ⟨bytes', rfl, hbytes⟩ := hcontent.exists_some rfl
    have hroom : bytes.length ≤ metadataSpace t.format.word bytes.length :=
      Nat.le_trans (Alignment.le_roundUp t.format.word.bytes_pos _) (le_metadataSpace _ _)
    have hmetadata := hpadded.append_resized hbytes.symm hroom
    have hnext : (a ++ Bytes.zeros (modulesEnd t.format.word coreSize -
        (headerSize t.format.word + coreSize)) ++
          bytes.resize (metadataSpace t.format.word bytes.length)).length =
            modulesEnd t.format.word coreSize + metadataSpace t.format.word bytes.length := by
      rw [List.length_append, hstart, Bytes.length_resize]
    -- The relocation tables are as long as each other, and so is their room.
    have hall := hmetadata.append_resized h.relocationSize htable
    rw [hnext, hstart] at hall
    simpa [Kernel.Layout.relocationSize] using hall

end Layout

end Pe

end BootImage
