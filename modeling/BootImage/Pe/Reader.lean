import BootImage.ByteOrder

/-!
# Reading PE images

The headers of an image as a firmware loader reads them, by the offsets that the format gives. No
part of this depends on how an image is planned or written.

- `Headers.read?`: the headers of an image.
- `SectionEntry.content`: what the file holds of a section.
- `Headers.fileOffset?`: where the file holds the byte of an address.
-/

namespace BootImage.Pe

/-! ## §1 What the headers hold -/

/-- The file header. -/
structure FileHeader where
  /-- The processor. -/
  machine : Nat
  /-- The number of sections. -/
  sectionCount : Nat
  /-- The time of the image. -/
  timestamp : Nat
  /-- The size of the optional header. -/
  optionalSize : Nat
  /-- The flags of the image. -/
  flags : Nat
  deriving DecidableEq, Repr

/-- The place of a table in memory. -/
structure Directory where
  /-- Its address. -/
  address : Nat
  /-- Its size. -/
  size : Nat
  deriving DecidableEq, Repr

/-- The optional header. -/
structure OptionalHeader where
  /-- The number of its shape. -/
  magic : Nat
  /-- The size of the code. -/
  codeSize : Nat
  /-- The size of the initialized data. -/
  dataSize : Nat
  /-- The size of the zero-filled data. -/
  bssSize : Nat
  /-- The address of the first instruction. -/
  entryAddress : Nat
  /-- The address of the code. -/
  codeBase : Nat
  /-- The address of the data, in the narrow shape. -/
  dataBase : Option Nat
  /-- The preferred address of the image. -/
  imageBase : Nat
  /-- The alignment of sections in memory. -/
  sectionAlign : Nat
  /-- The alignment of sections in the file. -/
  fileAlign : Nat
  /-- The size of the image. -/
  imageSize : Nat
  /-- The size of all headers. -/
  headerSize : Nat
  /-- The environment the image needs. -/
  subsystem : Nat
  /-- The stack: reserved and committed. -/
  stack : Nat × Nat
  /-- The heap: reserved and committed. -/
  heap : Nat × Nat
  /-- The data directories. -/
  directories : List Directory
  deriving DecidableEq, Repr

/-- An entry of the section table. -/
structure SectionEntry where
  /-- The name, filled with zeros to eight bytes. -/
  name : Bytes
  /-- The size in memory. -/
  virtualSize : Nat
  /-- The address in memory. -/
  virtualAddress : Nat
  /-- The size in the file. -/
  rawSize : Nat
  /-- The offset in the file. -/
  rawOffset : Nat
  /-- The flags of the section. -/
  flags : Nat
  deriving DecidableEq, Repr

/-- All headers of an image. -/
structure Headers where
  /-- The file header. -/
  file : FileHeader
  /-- The optional header. -/
  optional : OptionalHeader
  /-- The section table. -/
  sections : List SectionEntry
  deriving DecidableEq, Repr

/-! ## §2 Reading them -/

/-- The file header in its twenty bytes. -/
def FileHeader.read? (order : ByteOrder) (bytes : Bytes) : Option FileHeader := do
  let machine ← order.get? bytes 0 2
  let sectionCount ← order.get? bytes 2 2
  let timestamp ← order.get? bytes 4 4
  let optionalSize ← order.get? bytes 16 2
  let flags ← order.get? bytes 18 2
  some ⟨machine, sectionCount, timestamp, optionalSize, flags⟩

/-- The `count` data directories at the start of some bytes. -/
def Directory.readAll? (order : ByteOrder) : Nat → Bytes → Option (List Directory)
  | 0, _ => some []
  | count + 1, bytes => do
    let address ← order.get? bytes 0 4
    let size ← order.get? bytes 4 4
    let later ← readAll? order count (bytes.drop 8)
    some (⟨address, size⟩ :: later)

/-- The optional header in its bytes. Behind the address of the code the two shapes part: the narrow
one goes on with a base of the data and has words of four bytes, the wide one has words of eight. -/
def OptionalHeader.read? (order : ByteOrder) (bytes : Bytes) : Option OptionalHeader := do
  let magic ← order.get? bytes 0 2
  let codeSize ← order.get? bytes 4 4
  let dataSize ← order.get? bytes 8 4
  let bssSize ← order.get? bytes 12 4
  let entryAddress ← order.get? bytes 16 4
  let codeBase ← order.get? bytes 20 4
  let sectionAlign ← order.get? bytes 32 4
  let fileAlign ← order.get? bytes 36 4
  let imageSize ← order.get? bytes 56 4
  let headerSize ← order.get? bytes 60 4
  let subsystem ← order.get? bytes 68 2
  -- Behind this the offsets depend on the width of words.
  match magic with
  | 0x10b => do
    let dataBase ← order.get? bytes 24 4
    let imageBase ← order.get? bytes 28 4
    let stackReserve ← order.get? bytes 72 4
    let stackCommit ← order.get? bytes 76 4
    let heapReserve ← order.get? bytes 80 4
    let heapCommit ← order.get? bytes 84 4
    let count ← order.get? bytes 92 4
    let directories ← Directory.readAll? order count (bytes.drop 96)
    some ⟨magic, codeSize, dataSize, bssSize, entryAddress, codeBase, some dataBase, imageBase,
      sectionAlign, fileAlign, imageSize, headerSize, subsystem, (stackReserve, stackCommit),
      (heapReserve, heapCommit), directories⟩
  | 0x20b => do
    let imageBase ← order.get? bytes 24 8
    let stackReserve ← order.get? bytes 72 8
    let stackCommit ← order.get? bytes 80 8
    let heapReserve ← order.get? bytes 88 8
    let heapCommit ← order.get? bytes 96 8
    let count ← order.get? bytes 108 4
    let directories ← Directory.readAll? order count (bytes.drop 112)
    some ⟨magic, codeSize, dataSize, bssSize, entryAddress, codeBase, none, imageBase,
      sectionAlign, fileAlign, imageSize, headerSize, subsystem, (stackReserve, stackCommit),
      (heapReserve, heapCommit), directories⟩
  | _ => none

/-- The entry of a section table in its forty bytes. -/
def SectionEntry.read? (order : ByteOrder) (bytes : Bytes) : Option SectionEntry := do
  let virtualSize ← order.get? bytes 8 4
  let virtualAddress ← order.get? bytes 12 4
  let rawSize ← order.get? bytes 16 4
  let rawOffset ← order.get? bytes 20 4
  let flags ← order.get? bytes 36 4
  some ⟨bytes.take 8, virtualSize, virtualAddress, rawSize, rawOffset, flags⟩

/-- The `count` entries of a section table at the start of some bytes. -/
def SectionEntry.readAll? (order : ByteOrder) : Nat → Bytes → Option (List SectionEntry)
  | 0, _ => some []
  | count + 1, bytes => do
    let entry ← read? order (bytes.take 40)
    let later ← readAll? order count (bytes.drop 40)
    some (entry :: later)

/-- The headers of an image. The header for real-mode systems, always in little-endian order, says
where the signature is; behind that come the file header, an optional header of the size it states,
and as many entries of the section table as it states. -/
def Headers.read? (order : ByteOrder) (image : Bytes) : Option Headers := do
  let start ← ByteOrder.little.get? image 0x3c 4
  if image.slice start 4 = [0x50, 0x45, 0, 0] then
    let file ← FileHeader.read? order (image.slice (start + 4) 20)
    -- The stated size bounds the optional header, so a header that is too short is noticed.
    let optional ← OptionalHeader.read? order (image.slice (start + 24) file.optionalSize)
    let table := image.drop (start + 24 + file.optionalSize)
    let sections ← SectionEntry.readAll? order file.sectionCount table
    some ⟨file, optional, sections⟩
  else none

/-! ## §3 Using them -/

/-- What the file holds of a section. -/
def SectionEntry.content (entry : SectionEntry) (image : Bytes) : Bytes :=
  image.slice entry.rawOffset entry.rawSize

/-- Whether an address is in the part of a section that the file holds. -/
def SectionEntry.holds (entry : SectionEntry) (address : Nat) : Bool :=
  -- Memory behind the part in the file is filled with zeros and read from nowhere.
  entry.virtualAddress ≤ address &&
    address < entry.virtualAddress + min entry.virtualSize entry.rawSize

/-- The offset in the file of the byte that is loaded to an address. -/
def Headers.fileOffset? (headers : Headers) (address : Nat) : Option Nat :=
  (headers.sections.find? fun entry => entry.holds address).map fun entry =>
    entry.rawOffset + (address - entry.virtualAddress)

end BootImage.Pe
