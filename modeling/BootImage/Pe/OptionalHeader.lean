import BootImage.WordFormat

/-!
# The optional header of PE images

The header comes in two shapes, one for each word width. They differ in the magic number, in the
width of the image base and of the stack and heap sizes, and in that only the 32-bit one has a data
base.
-/

namespace BootImage.Pe

/-- A field of the optional header. -/
inductive OptionalField where
  | magic
  | codeSize
  | dataSize
  | bssSize
  | entryAddress
  | codeBase
  | dataBase
  | imageBase
  | sectionAlign
  | fileAlign
  | imageSize
  | headerSize
  | subsystem
  | stackReserve
  | stackCommit
  | heapReserve
  | heapCommit
  | directoryCount
  | relocationAddress
  | relocationSize
  deriving DecidableEq, Repr

/-- All fields, in the order in which they are declared. -/
def OptionalField.all : List OptionalField := [
  .magic, .codeSize, .dataSize, .bssSize, .entryAddress, .codeBase, .dataBase, .imageBase,
  .sectionAlign, .fileAlign, .imageSize, .headerSize, .subsystem, .stackReserve, .stackCommit,
  .heapReserve, .heapCommit, .directoryCount, .relocationAddress, .relocationSize]

/-- The number of data directories, fixed whether they are used or not. -/
def directoryCount : Nat := 16

/-- The size of a data directory: an address and a size of 32 bits each. -/
def directoryBytes : Nat := 8

/-- The index of the data directory of the relocation table. -/
def relocationDirectory : Nat := 5

/-- The magic number that tells the two shapes apart. -/
def optionalMagic : WordWidth → Nat
  | .w32 => 0x010b
  | .w64 => 0x020b

/-- The offset of the stack and heap sizes. -/
def reserveOffset : Nat := 72

/-- The place of the `index`-th of the four stack and heap sizes, each a word. -/
def reservePlace (word : WordWidth) (index : Nat) : FieldPlace :=
  ⟨reserveOffset + index * word.bytes, word.bytes⟩

/-- The offset of the loader flags, behind the stack and heap sizes. -/
def loaderFlagsOffset (word : WordWidth) : Nat := reserveOffset + 4 * word.bytes

/-- The offset of the data directories, behind the loader flags and the directory count. -/
def directoriesOffset (word : WordWidth) : Nat := loaderFlagsOffset word + 8

/-- The size of the header. -/
def optionalSize (word : WordWidth) : Nat :=
  directoriesOffset word + directoryCount * directoryBytes

/-- The offset of the data directory of the relocation table. -/
def relocationOffset (word : WordWidth) : Nat :=
  directoriesOffset word + relocationDirectory * directoryBytes

/-- The place of a field, if the shape has it. -/
def optionalPlace? (word : WordWidth) : OptionalField → Option FieldPlace
  | .magic => some ⟨0, 2⟩
  | .codeSize => some ⟨4, 4⟩
  | .dataSize => some ⟨8, 4⟩
  | .bssSize => some ⟨12, 4⟩
  | .entryAddress => some ⟨16, 4⟩
  | .codeBase => some ⟨20, 4⟩
  | .dataBase =>
    match word with
    | .w32 => some ⟨24, 4⟩
    | .w64 => none
  | .imageBase =>
    match word with
    | .w32 => some ⟨28, 4⟩
    | .w64 => some ⟨24, 8⟩
  | .sectionAlign => some ⟨32, 4⟩
  | .fileAlign => some ⟨36, 4⟩
  | .imageSize => some ⟨56, 4⟩
  | .headerSize => some ⟨60, 4⟩
  | .subsystem => some ⟨68, 2⟩
  | .stackReserve => some (reservePlace word 0)
  | .stackCommit => some (reservePlace word 1)
  | .heapReserve => some (reservePlace word 2)
  | .heapCommit => some (reservePlace word 3)
  | .directoryCount => some ⟨loaderFlagsOffset word + 4, 4⟩
  | .relocationAddress => some ⟨relocationOffset word, 4⟩
  | .relocationSize => some ⟨relocationOffset word + 4, 4⟩

end BootImage.Pe
