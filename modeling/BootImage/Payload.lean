import BootImage.FileSystem
import BootImage.Target

/-!
# Payloads

The auxiliary inputs of a build: each has a kind, a source, its own size, and the size it takes up
in the module region. `collect` lists the payloads of a build in the order in which they are
emitted.
-/

namespace BootImage

/-! ## §1 Kinds and sources -/

/-- What a payload is to the kernel. -/
inductive PayloadKind where
  /-- A loadable module. -/
  | loadable
  /-- A memory disk. -/
  | memdisk
  /-- An early configuration. -/
  | config
  /-- The directory further files are loaded from. -/
  | pathPrefix
  /-- A public key. -/
  | publicKey
  /-- A device tree. -/
  | deviceTree
  /-- A font. -/
  | font
  deriving DecidableEq, Repr

/-- The number of a kind in module headers. -/
def PayloadKind.tag : PayloadKind → Nat
  | .loadable => 0
  | .memdisk => 1
  | .config => 2
  | .pathPrefix => 3
  | .publicKey => 4
  | .deviceTree => 5
  | .font => 6

/-- Where the content of a payload comes from. -/
inductive PayloadSource where
  /-- The content of a file. -/
  | file (path : Path)
  /-- Given bytes. -/
  | bytes (content : Bytes)
  deriving DecidableEq, Repr

/-! ## §2 Sizes -/

/-- A payload and the room planned for it. -/
structure Payload where
  /-- What it is. -/
  kind : PayloadKind
  /-- Where its content comes from. -/
  source : PayloadSource
  /-- The size of its content when it was planned. -/
  rawSize : Nat
  /-- The size it takes up behind its header. -/
  paddedSize : Nat
  deriving DecidableEq, Repr

namespace Payload

/-- The size of the header in front of each payload: a type and a size of 32 bits each. -/
def headerBytes : Nat := 8

/-- The alignment of memory disks. -/
def memdiskAlign : Nat := 512

/-- The size that content of `rawSize` bytes takes up. A configuration is followed by a zero byte, a
memory disk fills whole sectors, and everything fills whole words. -/
def padded (t : Target) (kind : PayloadKind) (rawSize : Nat) : Result Nat :=
  match kind with
  -- Whole sectors are whole words already.
  | .memdisk => do t.alignToWord (← Alignment.alignUp Size.bound rawSize memdiskAlign)
  -- The kernel reads it as a text that ends with a zero byte.
  | .config => do t.alignToWord (← Size.add rawSize 1)
  | _ => t.alignToWord rawSize

/-- The payload of a source with content of `rawSize` bytes. -/
def make (t : Target) (kind : PayloadKind) (source : PayloadSource) (rawSize : Nat) :
    Result Payload := do
  let paddedSize ← padded t kind rawSize
  .ok ⟨kind, source, rawSize, paddedSize⟩

/-- The payload of a file, which has to exist. -/
def ofFile (files : FileSystem) (t : Target) (kind : PayloadKind) (path : Path) :
    Result Payload := do
  let rawSize ← files.size path
  make t kind (.file path) rawSize

/-- The payload of a text, followed by a zero byte. -/
def ofPrefix (t : Target) (text : String) : Result Payload :=
  let content := Bytes.ofText text ++ [0]
  make t .pathPrefix (.bytes content) content.length

/-- The size in the header, which counts the header. Of a public key it counts the exact content, of
everything else the padded one. -/
def headerSize (p : Payload) : Result Nat :=
  match p.kind with
  -- The exact length of a key is known from its header, and its padding only from its length.
  | .publicKey => Size.add p.rawSize headerBytes
  | _ => Size.add p.paddedSize headerBytes

/-- The size of header and padded content. -/
def footprint (p : Payload) : Result Nat := Size.add headerBytes p.paddedSize

end Payload

/-! ## §3 The payloads of a build -/

/-- The auxiliary inputs of a build. -/
structure PayloadInputs where
  /-- Loadable modules. -/
  modules : List Path := []
  /-- Public keys. -/
  publicKeys : List Path := []
  /-- The memory disk. -/
  memdisk : Option Path := none
  /-- The device tree. -/
  deviceTree : Option Path := none
  /-- The font. -/
  font : Option Path := none
  /-- The early configuration. -/
  config : Option Path := none
  /-- The directory further files are loaded from. -/
  pathPrefix : Option String := none
  deriving DecidableEq, Repr

namespace PayloadInputs

/-- The inputs that are files, in the order of emission. -/
def files (inputs : PayloadInputs) : List (PayloadKind × Path) :=
  -- The kinds follow one another, each in the order in which its files are given.
  inputs.modules.map (.loadable, ·) ++ inputs.publicKeys.map (.publicKey, ·) ++
    inputs.memdisk.toList.map (.memdisk, ·) ++ inputs.deviceTree.toList.map (.deviceTree, ·) ++
    inputs.font.toList.map (.font, ·) ++ inputs.config.toList.map (.config, ·)

/-- The payloads of all inputs, in the order of emission: the files, then the prefix. -/
def collect (inputs : PayloadInputs) (files : FileSystem) (t : Target) : Result (List Payload) := do
  let ofFiles ← inputs.files.mapM fun input => Payload.ofFile files t input.1 input.2
  let ofTexts ← inputs.pathPrefix.toList.mapM (Payload.ofPrefix t)
  .ok (ofFiles ++ ofTexts)

end PayloadInputs

end BootImage
