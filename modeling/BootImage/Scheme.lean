import BootImage.Compression
import BootImage.Target.Registry
import BootImage.Toml.Document

/-!
# Schemes

A scheme is what a manifest says about an image; it may leave most of it open. Schemes inherit from
one another what they leave open, and their paths are made relative to where they were written.

- `Scheme.ofTable?`: the scheme of a table; `Scheme.parse?`: that of a manifest.
- `Scheme.inherit`, `Scheme.rebase`: filling in and relocating.
-/

namespace BootImage

/-- A description of an image that may be incomplete. -/
structure Scheme where
  /-- The name of the target. -/
  target : Option String := none
  /-- The directory with the kernel, the modules and the stubs. -/
  directory : Option Path := none
  /-- The directory further files are loaded from. -/
  pathPrefix : Option String := none
  /-- The compression. -/
  compression : Option Compression := none
  /-- The modules, as seen from the directory. -/
  modules : List Path := []
  /-- The public keys. -/
  publicKeys : List Path := []
  /-- The memory disk. -/
  memdisk : Option Path := none
  /-- The device tree. -/
  deviceTree : Option Path := none
  /-- The font. -/
  font : Option Path := none
  /-- The early configuration. -/
  config : Option Path := none
  /-- The secure-boot metadata. -/
  metadata : Option Path := none
  /-- Whether the image is brought to stable storage. -/
  sync : Option Bool := none
  deriving DecidableEq, Repr, Inhabited

namespace Scheme

/-! ## §1 Reading -/

open Toml (Value Table)

/-- A string. -/
def text? : Value → Option String
  | .text content => some content
  | _ => none

/-- A path. -/
def path? (value : Value) : Option Path := (text? value).map Path.mk

/-- A list of paths. -/
def paths? : Value → Option (List Path)
  | .array items => items.mapM path?
  | _ => none

/-- A boolean. -/
def flag? : Value → Option Bool
  | .flag content => some content
  | _ => none

/-- A value that says nothing: an empty table or array. -/
def saysNothing : Value → Bool
  | .table _ entries => entries.isEmpty
  | .array items => items.isEmpty
  | _ => false

/-- A compression: its name, or its name as the only key of a table that says nothing about it. -/
def compression? : Value → Option Compression
  | .text name => Compression.ofName? name
  -- A table stands for a choice without parameters.
  | .table _ [(name, value)] => if saysNothing value then Compression.ofName? name else none
  | _ => none

/-- The scheme with one field as given. There are no other fields. -/
def set? (scheme : Scheme) (key : String) (value : Value) : Option Scheme :=
  match key with
  | "target" => do some { scheme with target := some (← text? value) }
  | "directory" => do some { scheme with directory := some (← path? value) }
  | "prefix" => do some { scheme with pathPrefix := some (← text? value) }
  | "compression" => do some { scheme with compression := some (← compression? value) }
  | "modules" => do some { scheme with modules := ← paths? value }
  | "pubkeys" => do some { scheme with publicKeys := ← paths? value }
  | "memdisk" => do some { scheme with memdisk := some (← path? value) }
  | "dtb" => do some { scheme with deviceTree := some (← path? value) }
  | "font" => do some { scheme with font := some (← path? value) }
  | "config" => do some { scheme with config := some (← path? value) }
  | "sbat" => do some { scheme with metadata := some (← path? value) }
  | "sync" => do some { scheme with sync := some (← flag? value) }
  -- A key that is misspelt is an error and not ignored.
  | _ => none

/-- The scheme of a table. -/
def ofTable? (table : Table) : Option Scheme :=
  table.foldlM (fun scheme entry => scheme.set? entry.1 entry.2) {}

/-- The scheme of a manifest. -/
def parse? (text : String) : Option Scheme := (Toml.Document.parse? text).bind ofTable?

/-! ## §2 Inheriting and relocating -/

/-- The scheme with what it leaves open taken from another. The other's modules and keys come first.
-/
def inherit (scheme parent : Scheme) : Scheme where
  target := scheme.target <|> parent.target
  directory := scheme.directory <|> parent.directory
  pathPrefix := scheme.pathPrefix <|> parent.pathPrefix
  compression := scheme.compression <|> parent.compression
  -- Lists are joined, everything else is replaced.
  modules := parent.modules ++ scheme.modules
  publicKeys := parent.publicKeys ++ scheme.publicKeys
  memdisk := scheme.memdisk <|> parent.memdisk
  deviceTree := scheme.deviceTree <|> parent.deviceTree
  font := scheme.font <|> parent.font
  config := scheme.config <|> parent.config
  metadata := scheme.metadata <|> parent.metadata
  sync := scheme.sync <|> parent.sync

/-- The directory of the target that a scheme names, if it is registered. -/
def targetDirectory (scheme : Scheme) : Option Path :=
  (scheme.target.bind Target.find?).map (·.directory)

/-- The scheme with its files as seen from `base`. A directory left open is that of the target.
Modules are seen from the directory and stay as they are. -/
def rebase (scheme : Scheme) (base : Path) : Scheme :=
  { scheme with
    -- The prefix is a text that goes into the image, and stays as it is.
    directory := (scheme.directory <|> scheme.targetDirectory).map base.join
    publicKeys := scheme.publicKeys.map base.join
    memdisk := scheme.memdisk.map base.join
    deviceTree := scheme.deviceTree.map base.join
    font := scheme.font.map base.join
    config := scheme.config.map base.join
    metadata := scheme.metadata.map base.join }

end Scheme

end BootImage
