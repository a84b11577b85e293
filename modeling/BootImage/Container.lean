import BootImage.Pe.Image

/-!
# Containers

The wrapping that makes a core image loadable by firmware: none for raw targets, whose kernel only
has to end below a fixed address, or a PE application.
-/

namespace BootImage

/-! ## §1 Raw images -/

namespace Raw

/-- The address at which the kernel of a raw image is placed. -/
def linkAddress : Nat := 0x9000

/-- The end of the memory that the kernel may occupy. -/
def ceiling : Nat := 0x68000

/-- Checks that the kernel and its zero-filled data end in time. The boards of one architecture
place the kernel elsewhere and have no such limit. -/
def checkSize (t : Target) (layout : Kernel.Layout) : Result Unit := do
  if t.architecture = .arm then .ok ()
  else
    -- Both sums are taken for granted; only the end is compared with the ceiling.
    let inMemory ← Size.add layout.kernelSize layout.bssSize
    let finish ← Size.add inMemory linkAddress
    if ceiling < finish then refuse (.kernelTooBig finish ceiling) else .ok ()

/-- The raw image of a core image. -/
def image (t : Target) (core : Bytes) (layout : Kernel.Layout) : Result Bytes := do
  checkSize t layout
  .ok core

end Raw

/-! ## §2 Any container -/

namespace Container

/-- Checks that secure-boot metadata is given only where an image can carry it. -/
def checkMetadata (t : Target) (metadata : Option Path) : Result Unit :=
  match metadata with
  | none => .ok ()
  | some path =>
    if t.isPe then .ok ()
    -- The message names the target by the first of its names.
    else do refuse (.misplacedMetadata path (← t.name))

/-- The image of a core image in the container of its target. -/
def wrap (files : FileSystem) (t : Target) (core : Bytes) (layout : Kernel.Layout)
    (modulesSize : Nat) (metadata : Option Path) : Result Bytes := do
  checkMetadata t metadata
  match t.container with
  | .raw => Raw.image t core layout
  | .pe machine => do
    -- The metadata is measured for the plan, and read when the image is written.
    let metadataSize ← metadata.mapM files.size
    let plan ← Pe.Plan.make t core.length layout modulesSize metadataSize
    plan.write files machine core layout metadata

end Container

end BootImage
