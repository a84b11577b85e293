import BootImage.Pe.Plan

/-!
# The headers of a PE image

Everything in front of the first section, as a list of numbers with their places over a fixed start:
the header for real-mode systems with its program, and the signature.

- `Plan.fileFields`, `Plan.optionalFields`, `Section.fields`: the numbers.
- `Plan.headers`: the bytes, or the first number that does not fit its place.
-/

namespace BootImage.Pe

/-! ## §1 Fixed parts -/

/-- The header for real-mode systems, with the program that says so. Its last word is the offset of
the signature. -/
def dosHeader : Bytes := [
  0x4d, 0x5a, 0x90, 0x00, 0x03, 0x00, 0x00, 0x00, 0x04, 0x00, 0x00, 0x00, 0xff, 0xff, 0x00, 0x00,
  0xb8, 0x00, 0x00, 0x00, 0x00, 0x00, 0x00, 0x00, 0x40, 0x00, 0x00, 0x00, 0x00, 0x00, 0x00, 0x00,
  0x00, 0x00, 0x00, 0x00, 0x00, 0x00, 0x00, 0x00, 0x00, 0x00, 0x00, 0x00, 0x00, 0x00, 0x00, 0x00,
  0x00, 0x00, 0x00, 0x00, 0x00, 0x00, 0x00, 0x00, 0x00, 0x00, 0x00, 0x00, 0x80, 0x00, 0x00, 0x00,
  0x0e, 0x1f, 0xba, 0x0e, 0x00, 0xb4, 0x09, 0xcd, 0x21, 0xb8, 0x01, 0x4c, 0xcd, 0x21, 0x54, 0x68,
  0x69, 0x73, 0x20, 0x70, 0x72, 0x6f, 0x67, 0x72, 0x61, 0x6d, 0x20, 0x63, 0x61, 0x6e, 0x6e, 0x6f,
  0x74, 0x20, 0x62, 0x65, 0x20, 0x72, 0x75, 0x6e, 0x20, 0x69, 0x6e, 0x20, 0x44, 0x4f, 0x53, 0x20,
  0x6d, 0x6f, 0x64, 0x65, 0x2e, 0x0d, 0x0d, 0x0a, 0x24, 0x00, 0x00, 0x00, 0x00, 0x00, 0x00, 0x00]

/-- The signature: `PE` and two zero bytes. -/
def signature : Bytes := [0x50, 0x45, 0, 0]

/-- The time of every image, the start of 2015, so that equal inputs give equal images. -/
def timestamp : Nat := 1420070400

/-- The size of the stack and of the heap, reserved and committed. -/
def stackAndHeapSize : Nat := 0x10000

/-- The subsystem of EFI applications. -/
def efiApplication : Nat := 10

/-- The flags of an image: executable, without line numbers, symbols and debug information, and for
32-bit processors where words have 32 bits. -/
def imageFlags (word : WordWidth) : Nat :=
  let stripped := (1 <<< 1) ||| (1 <<< 2) ||| (1 <<< 3) ||| (1 <<< 9)
  match word with
  | .w32 => stripped ||| (1 <<< 8)
  | .w64 => stripped

/-! ## §2 Numbers and their places -/

/-- A number and its place in a record. -/
structure FieldValue where
  /-- The place. -/
  place : FieldPlace
  /-- The number. -/
  value : Nat
  deriving DecidableEq, Repr

/-- The buffer with numbers in the record that starts at `base`, written one after the other. -/
def putFields (format : WordFormat) (base : Nat) (buf : Bytes) (fields : List FieldValue) :
    Result Bytes :=
  fields.foldlM (fun buf field => format.putAt buf base field.place field.value) buf

namespace Plan

/-- The numbers of the file header. -/
def fileFields (plan : Plan) (machine : Machine) : List FieldValue := [
  ⟨⟨0, 2⟩, machine.code⟩,
  ⟨⟨2, 2⟩, plan.sections.length⟩,
  ⟨⟨4, 4⟩, timestamp⟩,
  ⟨⟨16, 2⟩, optionalSize plan.format.word⟩,
  ⟨⟨18, 2⟩, imageFlags plan.format.word⟩]

/-- The value of a field of the optional header. The size of zero-filled data stays zero. -/
def optionalValue (plan : Plan) (layout : Kernel.Layout) (dataBase : Nat) : OptionalField → Nat
  | .magic => optionalMagic plan.format.word
  | .codeSize => plan.codeSize
  | .dataSize => plan.dataSize
  | .bssSize => 0
  | .entryAddress => plan.entryAddress
  | .codeBase => plan.codeBase
  | .dataBase => dataBase
  | .imageBase => 0
  | .sectionAlign => plan.sectionAlign
  | .fileAlign => Target.peFileAlign
  | .imageSize => plan.imageSize
  | .headerSize => plan.headerSize
  | .subsystem => efiApplication
  | .stackReserve => stackAndHeapSize
  | .stackCommit => stackAndHeapSize
  | .heapReserve => stackAndHeapSize
  | .heapCommit => stackAndHeapSize
  | .directoryCount => Pe.directoryCount
  | .relocationAddress => plan.relocationAddress
  | .relocationSize => layout.relocationSize

/-- The numbers of the optional header, those of its fields that the shape has. -/
def optionalFields (plan : Plan) (layout : Kernel.Layout) (dataBase : Nat) : List FieldValue :=
  -- A field that the shape does not have is left out.
  OptionalField.all.filterMap fun field =>
    (optionalPlace? plan.format.word field).map fun place =>
      ⟨place, plan.optionalValue layout dataBase field⟩

end Plan

/-- The numbers of an entry of the section table. Its relocations and line numbers stay zero. -/
def Section.fields (s : Section) : List FieldValue := [
  ⟨⟨8, 4⟩, s.virtualSize⟩,
  ⟨⟨12, 4⟩, s.virtualAddress⟩,
  ⟨⟨16, 4⟩, s.rawSize⟩,
  ⟨⟨20, 4⟩, s.rawOffset⟩,
  ⟨⟨36, 4⟩, s.role.flags⟩]

/-! ## §3 The headers -/

/-- The buffer with the entries of the section table from an offset on. -/
def putSections (format : WordFormat) : Nat → Bytes → List Section → Result Bytes
  | _, buf, [] => .ok buf
  | offset, buf, s :: rest => do
    -- The table was zeros before, so a short name is filled up with them.
    let named := buf.overlay offset (Bytes.ofText s.role.name)
    let buf ← putFields format offset named s.fields
    putSections format (offset + sectionHeaderBytes) buf rest

/-- The headers of an image. -/
def Plan.headers (plan : Plan) (machine : Machine) (layout : Kernel.Layout) : Result Bytes := do
  let word := plan.format.word
  let blank := dosHeader ++ signature ++ Bytes.zeros (plan.headerSize - fileHeaderOffset)
  let buf ← putFields plan.format fileHeaderOffset blank (plan.fileFields machine)
  -- Computed for both shapes, and written in one of them.
  let dataBase ← Size.add plan.headerSize layout.executableSize
  let buf ← putFields plan.format optionalOffset buf (plan.optionalFields layout dataBase)
  putSections plan.format (tableOffset word) buf plan.sections

end BootImage.Pe
