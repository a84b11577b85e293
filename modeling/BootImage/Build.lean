import BootImage.Configuration
import BootImage.Container
import BootImage.CoreImage
import BootImage.ModuleRegion.Emission
import BootImage.Output.Writer

/-!
# Building an image

An image is built in stages, and the first failure ends the build: the module region is planned; the
kernel is loaded with room for it, and the region put there; the core image is compressed and put
behind its stub where the target has one; the result is wrapped in the container of the target.

- `regionPlan`, `unpackedCore`, `finishedCore`: the stages.
- `image`: all stages; `requests`: what a build asks of its kernel loader.
- `emit`, `generate`: the image put into an output.
-/

namespace BootImage.Build

/-! ## §1 Stages -/

/-- The plan of the module region. It must be possible to count the region with 32 bits. -/
def regionPlan (files : FileSystem) (configuration : Configuration) : Result ModuleRegion.Plan := do
  let t := configuration.target
  -- Metadata in the wrong place is refused before any file is looked at.
  Container.checkMetadata t configuration.metadata
  let payloads ← configuration.inputs.collect files t
  let plan ← ModuleRegion.Plan.ofPayloads t.format payloads
  -- Only the check is wanted; the plan has the number.
  let _ ← Size.to32 plan.totalSize (.regionTooLarge plan.totalSize)
  .ok plan

/-- What is asked of the kernel loader. -/
def kernelRequest (configuration : Configuration) (plan : ModuleRegion.Plan) : Kernel.Request :=
  ⟨configuration.kernelFile, plan.totalSize, configuration.target⟩

/-- The kernel with the module region in it. Where the stub unpacks the core image, the size of the
region is patched into the kernel first. -/
def unpackedCore (files : FileSystem) (t : Target) (plan : ModuleRegion.Plan)
    (kernel : Kernel.Loaded) : Result Bytes := do
  let image ← if t.hasStub then t.patch .totalModuleSize kernel.image plan.totalSize
    else .ok kernel.image
  plan.place files t image kernel.layout.kernelSize

/-- The core image as it goes into the container: behind its stub, or with the size of the region
patched in. -/
def finishedCore (files : FileSystem) (codecs : Codecs) (configuration : Configuration)
    (plan : ModuleRegion.Plan) (kernelSize : Nat) (unpacked : Bytes) : Result Bytes := do
  let t := configuration.target
  let scheme := configuration.compression.resolve t.defaultCompression
  -- Without a stub nothing is compressed, and this is the core image itself.
  let core ← CoreImage.compress codecs t unpacked scheme
  if t.hasStub then
    let fields ← StubFields.make t core.length kernelSize plan.totalSize
    CoreImage.attachStub files t configuration.directory scheme core fields
  -- The offset counts from the start of the core image, whether the kernel is there or the modules are.
  else t.patch .totalModuleSize core plan.totalSize

/-! ## §2 The build -/

/-- The image of a configuration. -/
def image (files : FileSystem) (codecs : Codecs) (loader : Kernel.Loader)
    (configuration : Configuration) : Result Bytes := do
  let t := configuration.target
  let plan ← regionPlan files configuration
  let loaded ← loader.load (kernelRequest configuration plan)
  -- What the loader left behind the kernel is cut off, and the room for the region put in its place.
  let kernel ← loaded.fitTo plan.totalSize
  let unpacked ← unpackedCore files t plan kernel
  let core ← finishedCore files codecs configuration plan kernel.layout.kernelSize unpacked
  Container.wrap files t core kernel.layout plan.totalSize configuration.metadata

/-- The requests that a build makes of its kernel loader: none if planning fails, else one. -/
def requests (files : FileSystem) (configuration : Configuration) : List Kernel.Request :=
  match regionPlan files configuration with
  | .ok plan => [kernelRequest configuration plan]
  | .error _ => []

/-- Puts an image into an output called `name`, and finishes the output. It is left alone if there
is no image. -/
def emit {σ : Type} (out : Output σ) (state : σ) (name : String) (sync : Bool)
    (image : Result Bytes) : Result Unit × σ :=
  match image with
  | .error failure => (.error failure, state)
  | .ok bytes =>
    match Writer.write out ⟨state, name, sync, 0⟩ bytes with
    | (.error failure, writer) => (.error failure, writer.state)
    | (.ok (), writer) => writer.finish out

/-- Builds the image of a configuration and puts it into an output called `name`. -/
def generate {σ : Type} (files : FileSystem) (codecs : Codecs) (loader : Kernel.Loader)
    (configuration : Configuration) (out : Output σ) (state : σ) (name : String) :
    Result Unit × σ :=
  emit out state name configuration.sync (image files codecs loader configuration)

end BootImage.Build
