import BootImage.Alignment
import BootImage.ModuleRegion.Info
import BootImage.Payload

/-!
# Reading a module region

The region as a kernel finds it at boot. The info record says where the first block is and where the
region ends; each block says what it is and how long. No part of this depends on how a region is
laid out or written.

- `Info.read?`: the info record.
- `walk?`: the blocks that follow one another up to the end of some bytes.
- `read?`: the blocks of a region.
-/

namespace BootImage.ModuleRegion

/-! ## §1 The info record -/

/-- The content of an info record. -/
structure Info where
  /-- The magic number. -/
  magic : Nat
  /-- The offset of the first block. -/
  offset : Nat
  /-- The size of the region. -/
  size : Nat
  deriving DecidableEq, Repr

/-- The info record at the start of a region: three numbers of 32 bits, or one of 32 and, at the
next multiples of eight, two of 64. -/
def Info.read? (format : WordFormat) (region : Bytes) : Option Info := do
  let magic ← format.order.get? region 0 4
  match format.word with
  | .w32 => do
    let offset ← format.order.get? region 4 4
    let size ← format.order.get? region 8 4
    some ⟨magic, offset, size⟩
  | .w64 => do
    let offset ← format.order.get? region 8 8
    let size ← format.order.get? region 16 8
    some ⟨magic, offset, size⟩

/-! ## §2 Blocks -/

/-- A block of a region. -/
structure Block where
  /-- The number of its kind. -/
  tag : Nat
  /-- The size in its header. -/
  size : Nat
  /-- What follows the header, up to the next block. -/
  body : Bytes
  deriving DecidableEq, Repr

/-- The distance from a block to the next one. It is the size in the header; only that of a public
key is the exact one, to be rounded up to words behind the header. -/
def stride (word : WordWidth) (tag size : Nat) : Nat :=
  if tag = PayloadKind.publicKey.tag then 8 + Alignment.roundUp word.bytes (size - 8) else size

/-- The blocks that some bytes consist of. -/
def walk? (format : WordFormat) (bytes : Bytes) : Option (List Block) :=
  if bytes.isEmpty then some []
  else do
    let tag ← format.order.get? bytes 0 4
    let size ← format.order.get? bytes 4 4
    let next := stride format.word tag size
    -- A block is no shorter than its header, so the walk comes to an end.
    if _ : 8 ≤ next ∧ next ≤ bytes.length then
      let later ← walk? format (bytes.drop next)
      some (⟨tag, size, bytes.slice 8 (next - 8)⟩ :: later)
    else none
termination_by bytes.length
decreasing_by
  simp only [List.length_drop]
  omega

/-- The blocks of a region, if its info record is one and they fill the region. -/
def read? (format : WordFormat) (region : Bytes) : Option (List Block) := do
  let info ← Info.read? format region
  if info.magic = infoMagic ∧ info.offset ≤ info.size ∧ info.size ≤ region.length then
    walk? format (region.slice info.offset (info.size - info.offset))
  else none

end BootImage.ModuleRegion
