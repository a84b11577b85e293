import BootImage.Payload
import BootImage.Scheme

/-!
# Configurations

A configuration is a complete description of an image. It comes from a scheme that names its target,
with everything else that the scheme leaves open settled.
-/

namespace BootImage

/-- A complete description of an image. -/
structure Configuration where
  /-- The target. -/
  target : Target
  /-- The directory with the kernel and the stubs. -/
  directory : Path
  /-- The directory further files are loaded from. -/
  pathPrefix : Option String := none
  /-- The compression. -/
  compression : Compression := .auto
  /-- The modules. -/
  modules : List Path := []
  /-- The public keys. -/
  publicKeys : List Path := []
  /-- The memory disk. -/
  memdisk : Option Path := none
  /-- The device tree. -/
  deviceTree : Option Path := none
  /-- The font. -/
  font : Option Path := none
  /-- The early configuration. -/
  config : Option Path := none
  /-- The secure-boot metadata. -/
  metadata : Option Path := none
  /-- Whether the image is brought to stable storage. -/
  sync : Bool := false
  deriving DecidableEq, Repr

/-- The extension of module files. -/
def moduleExtension : String := "mod"

/-- The file of a module, as seen from the directory of its configuration. -/
def moduleFile (directory module : Path) : Path :=
  let file := directory.join module
  -- A module is given by its name, or by a file name that has an extension.
  if file.extension?.isNone then file.withExtension moduleExtension else file

/-- The configuration of a scheme. -/
def Scheme.configuration (scheme : Scheme) : Result Configuration :=
  match scheme.target with
  | none => refuse (.noTarget Target.registeredNames)
  | some name => do
    let target ← Target.find name
    -- Without a directory of its own, a scheme uses that of its target.
    let directory := scheme.directory.getD target.directory
    .ok {
      target := target
      directory := directory
      pathPrefix := scheme.pathPrefix
      compression := scheme.compression.getD .auto
      modules := scheme.modules.map (moduleFile directory)
      publicKeys := scheme.publicKeys
      memdisk := scheme.memdisk
      deviceTree := scheme.deviceTree
      font := scheme.font
      config := scheme.config
      metadata := scheme.metadata
      sync := scheme.sync.getD false }

namespace Configuration

/-- The configuration that the manifest at a path describes. Its paths are seen from the directory
of the manifest. -/
def load (files : FileSystem) (path : Path) : Result Configuration := do
  let content ← files.read path
  match Bytes.toText? content with
  | none => refuse (.manifestNotText path)
  | some text =>
    match Scheme.parse? text with
    | none => refuse (.manifestMalformed path)
    -- A manifest without a directory in its path lies in the current one.
    | some scheme => (scheme.rebase (path.parent?.getD ⟨"."⟩)).configuration

/-- The file of the kernel. -/
def kernelFile (configuration : Configuration) : Path := configuration.directory.join ⟨"kernel.img"⟩

/-- The auxiliary inputs. -/
def inputs (configuration : Configuration) : PayloadInputs where
  modules := configuration.modules
  publicKeys := configuration.publicKeys
  memdisk := configuration.memdisk
  deviceTree := configuration.deviceTree
  font := configuration.font
  config := configuration.config
  pathPrefix := configuration.pathPrefix

end Configuration

end BootImage
