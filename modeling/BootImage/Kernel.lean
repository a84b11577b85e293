import BootImage.FileSystem
import BootImage.Target

/-!
# Kernels

A kernel is turned into a flat blob by a loader; a build uses only the blob and the sizes and
addresses that the loader reports. `Loaded.fitTo` checks the two against each other and gives the
blob exactly the room that the modules need.
-/

namespace BootImage.Kernel

/-! ## §1 Loaded kernels -/

/-- What a loader reports about a blob. -/
structure Layout where
  /-- The size of the blob, without the room for modules. -/
  kernelSize : Nat := 0
  /-- The size of the executable part at its start. -/
  executableSize : Nat := 0
  /-- The size of the zero-filled data behind it in memory. -/
  bssSize : Nat := 0
  /-- The relocation table. -/
  relocations : Bytes := []
  /-- The address of the first instruction. -/
  startAddress : Nat := 0
  deriving DecidableEq, Repr, Inhabited

/-- The size of the relocation table. -/
def Layout.relocationSize (layout : Layout) : Nat := layout.relocations.length

/-- A blob, with what its loader reports. -/
structure Loaded where
  /-- The blob, with or without room behind it. -/
  image : Bytes
  /-- The report. -/
  layout : Layout
  deriving DecidableEq, Repr

/-- The kernel with exactly `reserved` zero bytes behind it, whatever the loader left there. -/
def Loaded.fitTo (loaded : Loaded) (reserved : Nat) : Result Loaded := do
  let layout := loaded.layout
  if layout.kernelSize < layout.executableSize then
    refuse (.executableExceedsKernel layout.executableSize layout.kernelSize)
  else if loaded.image.length < layout.kernelSize then
    refuse (.blobTooShort loaded.image.length layout.kernelSize)
  else
    let fullSize ← Size.add layout.kernelSize reserved
    -- There has to be memory for the kernel and the room behind it.
    let _ ← Size.allocatable fullSize
    .ok ⟨loaded.image.take layout.kernelSize ++ Bytes.zeros reserved, layout⟩

/-! ## §2 Loaders -/

/-- What a build asks of a loader. -/
structure Request where
  /-- The file of the kernel. -/
  path : Path
  /-- The room to reserve for modules. -/
  reserved : Nat
  /-- The target of the build. -/
  target : Target
  deriving DecidableEq, Repr

/-- A loader: the answer to every request. -/
structure Loader where
  /-- The kernel for a request. -/
  load : Request → Result Loaded

/-- The loader of kernels that are flat already. The whole file is executable, rounded up to words;
there is neither zero-filled data nor a relocation table, and the start is the start of the blob. -/
def Loader.flat (files : FileSystem) : Loader where
  load request := do
    let image ← files.read request.path
    -- The file is filled up with zeros to a whole word.
    let kernelSize ← request.target.alignToWord image.length
    let fullSize ← Size.add kernelSize request.reserved
    let _ ← Size.allocatable fullSize
    .ok ⟨image.resize fullSize, { kernelSize := kernelSize, executableSize := kernelSize }⟩

/-- The loader that gives the same answer to every request. -/
def Loader.fixed (answer : Result Loaded) : Loader := ⟨fun _ => answer⟩

end BootImage.Kernel
