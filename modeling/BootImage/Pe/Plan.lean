import BootImage.Kernel
import BootImage.Pe.OptionalHeader
import BootImage.Pe.Section

/-!
# The plan of a PE image

The layout of an image is fixed by sizes alone, before a byte is written. Behind the headers come
the executable part of the kernel, the rest of the kernel, the module region, the secure-boot
metadata if there is any, and the relocation table, in this order and each at a multiple of the file
alignment.

- `Plan.make`: the plan for a core image of a given size.
- `headerSize`: the size of everything in front of the first section.
-/

namespace BootImage.Pe

/-! ## §1 The headers -/

/-- The size of the header for real-mode systems, which ends with the program behind it. -/
def dosBytes : Nat := 128

/-- The offset of the file header, behind the signature. -/
def fileHeaderOffset : Nat := dosBytes + 4

/-- The size of the file header. -/
def fileHeaderBytes : Nat := 20

/-- The offset of the optional header. -/
def optionalOffset : Nat := fileHeaderOffset + fileHeaderBytes

/-- The size of an entry of the section table. -/
def sectionHeaderBytes : Nat := 40

/-- The number of section table entries that the headers are sized for. One more fits into the
padding up to the file alignment. -/
def reservedSections : Nat := 4

/-- The offset of the section table. -/
def tableOffset (word : WordWidth) : Nat := optionalOffset + optionalSize word

/-- The size of all headers, rounded up to the file alignment. -/
def headerSize (word : WordWidth) : Nat :=
  Alignment.roundUp Target.peFileAlign (tableOffset word + reservedSections * sectionHeaderBytes)

/-! ## §2 The plan -/

/-- The layout of a PE image. -/
structure Plan where
  /-- The format of its numbers. -/
  format : WordFormat
  /-- The size of all headers. -/
  headerSize : Nat
  /-- The size of the file. -/
  imageSize : Nat
  /-- The alignment of sections in memory. -/
  sectionAlign : Nat
  /-- The address of the first instruction. -/
  entryAddress : Nat
  /-- The address of the code. -/
  codeBase : Nat
  /-- The size of the code. -/
  codeSize : Nat
  /-- The size of the initialized data. -/
  dataSize : Nat
  /-- The room for secure-boot metadata, if there is any, an empty file included. -/
  metadataSize : Option Nat
  /-- The sections, in the order of their addresses. -/
  sections : List Section
  /-- The address of the relocation table. -/
  relocationAddress : Nat
  deriving DecidableEq, Repr

/-- A size rounded up to the file alignment. -/
def alignToFile (size : Nat) : Result Nat := do
  match ← Alignment.alignUp? Size.bound size Target.peFileAlign with
  | some aligned => .ok aligned
  | none => refuse (.fileSizeOverflow size)

/-- A size that a PE header has to hold. -/
def headerValue (what : String) (size : Nat) : Result Nat :=
  Size.to32 size (.headerValueTooLarge what size)

/-- The room for secure-boot metadata of a given size. -/
def metadataRoom (t : Target) (size : Nat) : Result Nat := do
  alignToFile (← t.alignToWord size)

namespace Plan

/-- The plan of an image with a core image of `coreSize` bytes: the kernel that `layout` describes
and `modulesSize` bytes of modules. -/
def make (t : Target) (coreSize : Nat) (layout : Kernel.Layout) (modulesSize : Nat)
    (metadata : Option Nat) : Result Plan := do
  -- The size of the image: headers and core image, then the two parts behind it, each rounded up.
  let headerSize := Pe.headerSize t.format.word
  let metadataSize ← metadata.mapM (metadataRoom t)
  let metadataSpace := metadataSize.getD 0
  let relocationSpace ← alignToFile layout.relocationSize
  let modulesEnd ← alignToFile (← Size.add headerSize coreSize)
  let imageSize ← Size.add (← Size.add modulesEnd relocationSpace) metadataSpace
  -- The sections of the kernel. In memory they start behind the headers, as they do in the file.
  let start : Cursor := ⟨headerSize, headerSize⟩
  let codeSize ← headerValue "executable size" layout.executableSize
  let (text, cursor) ← start.append t.sectionAlign .text codeSize
  if layout.kernelSize < layout.executableSize then
    refuse (.executableExceedsKernel layout.executableSize layout.kernelSize)
  else
    let dataRoom ← alignToFile (layout.kernelSize - layout.executableSize)
    -- The size of the data is that of everything behind the code but for the relocation table.
    let dataAndMetadata ← Size.add dataRoom metadataSpace
    let dataTotal ← Size.add dataAndMetadata (← alignToFile modulesSize)
    let dataSize ← headerValue "data size" dataTotal
    let dataRoom ← headerValue "data section size" dataRoom
    let (data, cursor) ← cursor.append t.sectionAlign .data dataRoom
    -- The modules end where the core image does, whatever the sections of the kernel were rounded to.
    if modulesEnd < cursor.offset then refuse (.coreSmallerThanKernel coreSize)
    else
      let modulesRoom ← headerValue "module section size" (modulesEnd - cursor.offset)
      let (modules, cursor) ← cursor.append t.sectionAlign .modules modulesRoom
      -- An empty file is metadata too, and gets a section of no bytes.
      let (metadataSection, cursor) ← match metadataSize with
        | none => .ok ([], cursor)
        | some size => do
          let room ← headerValue "sbat size" size
          let (metadataSection, cursor) ← cursor.append t.sectionAlign .metadata room
          .ok ([metadataSection], cursor)
      -- The relocation table keeps its exact size; only the cursor behind it is rounded.
      let relocationSize ← headerValue "relocation size" layout.relocationSize
      let (relocations, _) ← cursor.append t.sectionAlign .relocations relocationSize
      .ok {
        format := t.format
        headerSize := headerSize
        imageSize := imageSize
        sectionAlign := t.sectionAlign
        entryAddress := layout.startAddress
        codeBase := start.address
        codeSize := codeSize
        dataSize := dataSize
        metadataSize := metadataSize
        sections := [text, data, modules] ++ metadataSection ++ [relocations]
        relocationAddress := cursor.address }

/-- The section with a given role. -/
def section? (plan : Plan) (role : SectionRole) : Option Section :=
  plan.sections.find? fun s => s.role == role

end Plan

end BootImage.Pe
