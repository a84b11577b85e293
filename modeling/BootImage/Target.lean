import BootImage.Alignment
import BootImage.Compression
import BootImage.WordFormat

/-!
# Targets

What an image is built for: how it is named, how its numbers are written, how the core image is
wrapped, and which values are patched into it after layout.
-/

namespace BootImage

/-! ## §1 Parts of a target -/

/-- The processor architecture an image runs on. -/
inductive Architecture where
  | i386
  | x86_64
  | arm
  | arm64
  | riscv32
  | riscv64
  deriving DecidableEq, Repr

/-- The processor that a PE image declares. -/
inductive Machine where
  | i386
  | armThumbMixed
  | riscv32
  | riscv64
  | amd64
  | arm64
  deriving DecidableEq, Repr

/-- The number of a processor in PE headers. -/
def Machine.code : Machine → Nat
  | .i386 => 0x014c
  | .armThumbMixed => 0x01c2
  | .riscv32 => 0x5032
  | .riscv64 => 0x5064
  | .amd64 => 0x8664
  | .arm64 => 0xaa64

/-- How a core image is wrapped. -/
inductive Container where
  /-- Not at all: the core image is the whole file. -/
  | raw
  /-- As a PE application for the given processor. -/
  | pe (machine : Machine)
  deriving DecidableEq, Repr

/-- A 32-bit value that is known only after layout. -/
inductive PatchField where
  /-- The size of the module region, in the kernel. -/
  | totalModuleSize
  /-- The size of the compressed core image, in the stub. -/
  | compressedSize
  /-- The size of the core image, in the stub. -/
  | uncompressedSize
  /-- The address the core image is unpacked to, in the stub. -/
  | uncompressedAddress
  deriving DecidableEq, Repr

/-- Where a target carries the values that are patched. -/
structure PatchOffsets where
  /-- The offset of the module region's size in the kernel. -/
  totalModuleSize : Option Nat := none
  /-- The offset of the compressed size in the stub. -/
  compressedSize : Option Nat := none
  /-- The offset of the core image's size in the stub. -/
  uncompressedSize : Option Nat := none
  /-- The offset of the core image's address in the stub. -/
  uncompressedAddress : Option Nat := none
  deriving DecidableEq, Repr

/-- The offset of one value, if the target carries it. -/
def PatchOffsets.offset? (offsets : PatchOffsets) : PatchField → Option Nat
  | .totalModuleSize => offsets.totalModuleSize
  | .compressedSize => offsets.compressedSize
  | .uncompressedSize => offsets.uncompressedSize
  | .uncompressedAddress => offsets.uncompressedAddress

/-! ## §2 Targets -/

/-- The description of a target. -/
structure Target where
  /-- The names it is found by. The first is the one shown to the user. -/
  names : List String
  /-- The directory with its kernel, modules and stubs. -/
  directory : Path
  /-- The architecture its images run on. -/
  architecture : Architecture
  /-- The format of its numbers. -/
  format : WordFormat
  /-- The container of its images. -/
  container : Container
  /-- Whether a decompressor stub precedes the core image. -/
  hasStub : Bool := false
  /-- Whether the module region precedes the kernel. -/
  modulesFirst : Bool := false
  /-- Where values are patched. -/
  patches : PatchOffsets := {}
  /-- The compression an open choice stands for. -/
  defaultCompression : Compression := .plain
  /-- The address the kernel is linked at. -/
  linkAddress : Nat
  /-- The alignment of sections in memory. -/
  sectionAlign : Nat
  /-- The alignment of sections in the file, for information. -/
  fileAlign : Nat
  deriving DecidableEq, Repr

namespace Target

/-- The name shown to the user, unless the target has none. -/
def name? (t : Target) : Option String := t.names.head?

/-- The name shown to the user, which has to exist. -/
def name (t : Target) : Result String :=
  match t.name? with
  | some name => .ok name
  | none => fault .nameless

/-- Whether images of the target are PE applications. -/
def isPe (t : Target) : Bool :=
  match t.container with
  | .raw => false
  | .pe _ => true

/-- A size rounded up to whole words. -/
def alignToWord (t : Target) (size : Nat) : Result Nat := do
  match ← Alignment.alignUp? Size.bound size t.format.word.bytes with
  | some aligned => .ok aligned
  | none => refuse (.alignedSizeOverflow size)

/-- Whether the target carries a value. -/
def carries (t : Target) (field : PatchField) : Bool := (t.patches.offset? field).isSome

/-- The buffer with a 32-bit value patched in, unchanged where the target does not carry it. -/
def patch (t : Target) (field : PatchField) (buf : Bytes) (value : Nat) : Result Bytes :=
  match t.patches.offset? field with
  | none => .ok buf
  | some offset => t.format.order.put buf offset 4 value

/-- A patch never moves what it does not change. -/
theorem length_of_patch {t : Target} {field : PatchField} {buf out : Bytes} {value : Nat}
    (h : t.patch field buf value = .ok out) : out.length = buf.length := by
  unfold patch at h
  split at h
  · cases h; rfl
  · exact ByteOrder.length_of_put h

end Target

end BootImage
