import BootImage.ModuleRegion.Info
import BootImage.Payload

/-!
# The plan of a module region

Where every payload goes, computed from sizes alone: the info record comes first, then each payload
behind its header, without gaps.

- `Plan.lay`: the running offsets.
- `Plan.ofPayloads`: the plan of a list of payloads.
-/

namespace BootImage.ModuleRegion

/-- A payload and the offset of its header from the start of the region. -/
structure Entry where
  /-- The payload. -/
  payload : Payload
  /-- The offset of its header. -/
  offset : Nat
  deriving DecidableEq, Repr

/-- The layout of a module region. -/
structure Plan where
  /-- The format of its numbers. -/
  format : WordFormat
  /-- The payloads, in the order of emission. -/
  entries : List Entry
  /-- The size of the region, the info record included. -/
  totalSize : Nat
  deriving DecidableEq, Repr

namespace Plan

/-- The entries of payloads that start at an offset, and where they end. -/
def lay : Nat → List Payload → Result (List Entry × Nat)
  | start, [] => .ok ([], start)
  | start, p :: ps => do
    let footprint ← p.footprint
    -- A region that cannot be counted is refused, not a fault.
    match Size.add? start footprint with
    | none => refuse .regionOverflow
    | some next =>
      let (entries, finish) ← lay next ps
      .ok (⟨p, start⟩ :: entries, finish)

/-- The plan of a list of payloads. -/
def ofPayloads (format : WordFormat) (payloads : List Payload) : Result Plan := do
  let (entries, finish) ← lay format.word.infoSize payloads
  .ok ⟨format, entries, finish⟩

end Plan

end BootImage.ModuleRegion
