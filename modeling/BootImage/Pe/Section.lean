import BootImage.Alignment
import BootImage.Target.Registry

/-!
# Sections of PE images

A section is a range of memory and a range of the file. Sections are laid out one behind the other:
each starts where the one before ends, rounded up in memory to the section alignment of the target
and in the file to a fixed one.
-/

namespace BootImage.Pe

/-! ## §1 Sections -/

/-- What a section holds. -/
inductive SectionRole where
  /-- The executable part of the kernel. -/
  | text
  /-- The rest of the kernel. -/
  | data
  /-- The module region. -/
  | modules
  /-- The secure-boot metadata. -/
  | metadata
  /-- The relocation table. -/
  | relocations
  deriving DecidableEq, Repr

/-- The name of a section in the section table. -/
def SectionRole.name : SectionRole → String
  | .text => ".text"
  | .data => ".data"
  | .modules => "mods"
  | .metadata => ".sbat"
  | .relocations => ".reloc"

/-- The flag of code. -/
def holdsCode : Nat := 1 <<< 5

/-- The flag of initialized data. -/
def holdsData : Nat := 1 <<< 6

/-- The flag of content that is not needed after loading. -/
def discardable : Nat := 1 <<< 25

/-- The flag of executable memory. -/
def executable : Nat := 1 <<< 29

/-- The flag of readable memory. -/
def readable : Nat := 1 <<< 30

/-- The flag of writable memory. -/
def writable : Nat := 1 <<< 31

/-- The flags of a section. -/
def SectionRole.flags : SectionRole → Nat
  | .text => holdsCode ||| executable ||| readable
  | .data => holdsData ||| readable ||| writable
  | .modules => holdsData ||| readable ||| writable
  | .metadata => holdsData ||| readable
  | .relocations => holdsData ||| discardable ||| readable

/-- A section of an image. -/
structure Section where
  /-- What it holds. -/
  role : SectionRole
  /-- Its size in memory. -/
  virtualSize : Nat
  /-- Its address in memory, relative to the image. -/
  virtualAddress : Nat
  /-- Its size in the file. -/
  rawSize : Nat
  /-- Its offset in the file. -/
  rawOffset : Nat
  deriving DecidableEq, Repr

/-! ## §2 Laying sections out -/

/-- Where the next section starts. -/
structure Cursor where
  /-- Its address in memory. -/
  address : Nat
  /-- Its offset in the file. -/
  offset : Nat
  deriving DecidableEq, Repr

/-- The position behind `size` bytes, rounded up, which has to be a 32-bit number. -/
def advance (position size align : Nat) : Result Nat :=
  -- The end itself has to have 32 bits, and rounded up as well.
  if position + size < Size.bound32 then do
    match ← Alignment.alignUp? Size.bound32 (position + size) align with
    | some next => .ok next
    | none => refuse .addressSpaceExceeded
  else refuse .addressSpaceExceeded

/-- A section of `size` bytes at the cursor, and the cursor behind it. -/
def Cursor.append (cursor : Cursor) (sectionAlign : Nat) (role : SectionRole) (size : Nat) :
    Result (Section × Cursor) := do
  let address ← advance cursor.address size sectionAlign
  let offset ← advance cursor.offset size Target.peFileAlign
  -- A section has the same size in memory and in the file.
  .ok (⟨role, size, cursor.address, size, cursor.offset⟩, ⟨address, offset⟩)

end BootImage.Pe
