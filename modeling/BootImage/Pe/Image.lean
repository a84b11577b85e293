import BootImage.Pe.Header

/-!
# PE images

A planned image is the headers, then the core image, then zeros up to the planned size, with the
secure-boot metadata and the relocation table put over them at the offsets of their sections.

- `Plan.metadataPieces`, `Plan.relocationPieces`: what is put over, or why it does not belong there.
- `Plan.write`: the image.
-/

namespace BootImage.Pe

/-- Bytes that go to an offset of the image. -/
structure Piece where
  /-- The offset. -/
  offset : Nat
  /-- The bytes. -/
  content : Bytes
  deriving DecidableEq, Repr

namespace Plan

/-- The secure-boot metadata at the offset of its section. Metadata has to be given exactly when it
is planned, and must not have outgrown the room planned for it. -/
def metadataPieces (plan : Plan) (files : FileSystem) (path : Option Path) : Result (List Piece) :=
  match plan.section? .metadata, plan.metadataSize, path with
  | some s, some room, some path =>
    if plan.imageSize < s.rawOffset + room then fault .outOfRange
    else do
      -- The file may have shrunk; zeros stay behind it.
      let content ← files.readWithin path room
      .ok [⟨s.rawOffset, content⟩]
  | none, none, none => .ok []
  -- Planned and not given, or given and not planned.
  | _, _, _ => refuse .metadataMismatch

/-- The relocation table at the offset of its section. It must not reach beyond the image. -/
def relocationPieces (plan : Plan) (layout : Kernel.Layout) : Result (List Piece) :=
  match plan.section? .relocations with
  | none => .ok []
  | some s =>
    if plan.imageSize < s.rawOffset + layout.relocationSize then
      refuse (.relocationMismatch layout.relocationSize)
    else .ok [⟨s.rawOffset, layout.relocations⟩]

/-- The image of a core image, according to the plan. -/
def write (plan : Plan) (files : FileSystem) (machine : Machine) (core : Bytes)
    (layout : Kernel.Layout) (metadata : Option Path) : Result Bytes := do
  -- A core image of another size is noticed only if it does not fit.
  if plan.imageSize < plan.headerSize + core.length then refuse (.coreMismatch core.length)
  else
    let headers ← plan.headers machine layout
    let metadata ← plan.metadataPieces files metadata
    let relocations ← plan.relocationPieces layout
    let rest := plan.imageSize - (plan.headerSize + core.length)
    let image := headers ++ (core ++ Bytes.zeros rest)
    -- The pieces come last, so they win over a core image that is too long.
    .ok ((metadata ++ relocations).foldl (fun image p => image.overlay p.offset p.content) image)

end Plan

end BootImage.Pe
