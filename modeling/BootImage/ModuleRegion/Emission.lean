import BootImage.InPlace
import BootImage.ModuleRegion.Plan

/-!
# Writing a module region

A planned region is written over what was there: the info record, then block after block the
payloads, a block being a header and the content. Padding is what was there before.

- `writeBlock`: one payload over one block.
- `writeBlocks`: payloads over the blocks that follow each other.
- `Plan.writing`, `Plan.write`: the whole region, in place, and the region it gives.
- `Plan.placing`, `Plan.place`: the region behind the kernel, or in front of it where the target wants
  the modules first; in place, and the image it gives.
-/

namespace BootImage.ModuleRegion

open InPlace

/-- A payload's header and content over the start of a block. -/
def writeBlock (files : FileSystem) (order : ByteOrder) (p : Payload) : InPlace Unit := do
  -- The header comes first: a kind and a size. It stays even where the content is refused.
  edit (order.put · 0 4 p.kind.tag)
  let size ← check fun _ => p.headerSize
  let size ← check fun _ => Size.to32 size (.payloadTooLarge size)
  edit (order.put · 4 4 size)
  -- The content goes behind the header, and the padding is left as it was.
  edit fun block =>
    if block.length < Payload.headerBytes + p.paddedSize then fault .outOfRange
    else
      match p.source with
      | .file path => do
        let content ← files.readWithin path p.paddedSize
        .ok (block.overlay Payload.headerBytes content)
      -- Given bytes cannot have grown, so a misfit is a fault and no refusal.
      | .bytes content =>
        if content.length ≤ p.paddedSize then .ok (block.overlay Payload.headerBytes content)
        else fault .outOfRange

/-- The blocks of some payloads one behind the other, the first at `offset` of the region. The answer is
the offset behind the last. -/
def writeBlocks (files : FileSystem) (order : ByteOrder) : Nat → List Payload → InPlace Nat
  | offset, [] => pure offset
  | offset, p :: ps => do
    let size := Payload.headerBytes + p.paddedSize
    -- Each payload sees its own block and nothing behind it.
    within 0 size (writeBlock files order p)
    behind size (writeBlocks files order (offset + size) ps)

namespace Plan

/-- The info record of the plan. -/
def writeInfo (plan : Plan) : InPlace Unit := do
  let word := plan.format.word
  edit (plan.format.putAt · 0 (word.infoPlace .magic) infoMagic)
  edit (plan.format.putAt · 0 (word.infoPlace .offset) word.infoSize)
  edit (plan.format.putAt · 0 (word.infoPlace .size) plan.totalSize)

/-- Everything planned, over a region. The answer is the offset behind the last payload. -/
def writing (plan : Plan) (files : FileSystem) : InPlace Nat := do
  check fun region =>
    if region.length < plan.totalSize then refuse (.regionTooSmall region.length plan.totalSize)
    else .ok ()
  plan.writeInfo
  let start := plan.format.word.infoSize
  behind start (writeBlocks files plan.format.order start (plan.entries.map (·.payload)))

/-- The region with everything planned, and the offset behind the last payload. -/
def write (plan : Plan) (files : FileSystem) (region : Bytes) : Result (Nat × Bytes) :=
  (plan.writing files).outcome region

/-- The region, into a kernel image that holds `kernelSize` bytes of kernel and then room for it. For a
target with modules first, the kernel moves up and the region takes its place. -/
def placing (plan : Plan) (files : FileSystem) (t : Target) (kernelSize : Nat) : InPlace Unit := do
  let fullSize ← check fun _ => Size.add kernelSize plan.totalSize
  check fun image =>
    if image.length < fullSize then refuse (.noRoomForModules image.length plan.totalSize) else .ok ()
  if t.modulesFirst then
    -- The kernel moves up by the size of the region; what it leaves behind is cleared.
    copyWithin 0 kernelSize plan.totalSize
    clear plan.totalSize
    let _ ← within 0 plan.totalSize (plan.writing files)
  else
    let _ ← within kernelSize plan.totalSize (plan.writing files)

/-- The kernel image with the region in it. -/
def place (plan : Plan) (files : FileSystem) (t : Target) (image : Bytes) (kernelSize : Nat) :
    Result Bytes := do
  let (_, placed) ← (plan.placing files t kernelSize).outcome image
  .ok placed

end Plan

end BootImage.ModuleRegion
