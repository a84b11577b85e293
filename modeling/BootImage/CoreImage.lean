import BootImage.Codec
import BootImage.FileSystem
import BootImage.InPlace
import BootImage.Target

/-!
# Core images

The kernel and its modules are one core image. A target with a decompressor stub has it compressed
and put behind the stub, into which the sizes and the address of the core image are patched.

- `CoreImage.compress`: the compressed core image, the core image itself where no stub could undo
  it.
- `StubFields`: the values patched into the stub.
- `CoreImage.attachStub`: the stub in front of the compressed core image.
-/

namespace BootImage

/-- The codecs of the schemes that compress. -/
structure Codecs where
  /-- `.xz` streams. -/
  xz : Codec
  /-- Raw LZMA streams. -/
  lzma : Codec

/-- The values that a stub needs. -/
structure StubFields where
  /-- The size of the compressed core image. -/
  compressedSize : Nat
  /-- The size of the core image. -/
  uncompressedSize : Nat
  /-- The address the core image is unpacked to. -/
  uncompressedAddress : Nat
  deriving DecidableEq, Repr

namespace StubFields

/-- The values for a kernel and modules of given sizes. The kernel lies at the link address, so
modules in front of it start below. -/
def make (t : Target) (compressedSize kernelSize modulesSize : Nat) : Result StubFields := do
  -- Below the modules there would be no address.
  if t.modulesFirst && decide (t.linkAddress < modulesSize) then
    refuse (.modulesBelowLinkAddress modulesSize t.linkAddress)
  else
    let address := if t.modulesFirst then t.linkAddress - modulesSize else t.linkAddress
    let uncompressedSize ← Size.add kernelSize modulesSize
    .ok ⟨compressedSize, uncompressedSize, address⟩

/-- One of the values for a stub. -/
structure Told where
  /-- Which one it is. -/
  field : PatchField
  /-- What messages call it. -/
  what : String
  /-- The value. -/
  value : Nat
  deriving DecidableEq, Repr

/-- One value into the stub. It has to fit 32 bits whether the target carries it or not. -/
def Told.patching (told : Told) (t : Target) : InPlace Unit := do
  let value ← InPlace.check fun _ => Size.to32 told.value (.stubValueTooLarge told.what told.value)
  InPlace.edit (t.patch told.field · value)

/-- Values into the stub, one after the other. It keeps the earlier ones where a later one is refused. -/
def Told.patchingAll (t : Target) : List Told → InPlace Unit
  | [] => pure ()
  | told :: rest => do
    told.patching t
    patchingAll t rest

/-- The values, in the order in which they are patched in. -/
def told (fields : StubFields) : List Told := [
  ⟨.compressedSize, "compressed size", fields.compressedSize⟩,
  ⟨.uncompressedSize, "uncompressed size", fields.uncompressedSize⟩,
  ⟨.uncompressedAddress, "uncompressed address", fields.uncompressedAddress⟩]

/-- The values into the stub. -/
def patching (fields : StubFields) (t : Target) : InPlace Unit := Told.patchingAll t fields.told

/-- The stub with the values patched in. -/
def patch (fields : StubFields) (t : Target) (stub : Bytes) : Result Bytes := do
  -- A stub that was patched in part is thrown away with the failure.
  let (_, patched) ← (fields.patching t).outcome stub
  .ok patched

end StubFields

namespace CoreImage

/-- The compressed core image. Without a stub nothing could undo a compression, so there is none. -/
def compress (codecs : Codecs) (t : Target) (image : Bytes) (scheme : Compression) : Result Bytes :=
  if t.hasStub then
    match scheme with
    | .plain => .ok image
    | .lzma => codecs.lzma.pack image
    | .xz => codecs.xz.pack image
    -- The choice is settled before anything is compressed.
    | .auto => refuse .openCompression
  else .ok image

/-- The patched stub of a scheme, with the compressed core image behind it. -/
def attachStub (files : FileSystem) (t : Target) (directory : Path) (scheme : Compression)
    (core : Bytes) (fields : StubFields) : Result Bytes := do
  let name ← scheme.stubFile
  let stub ← files.read (directory.join name)
  let patched ← fields.patch t stub
  -- Stub and core image go into one buffer.
  let _ ← Size.allocatable (patched.length + core.length)
  .ok (patched ++ core)

end CoreImage

end BootImage
