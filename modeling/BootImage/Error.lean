import BootImage.Path

/-!
# Failures

A step of a build that gives no result says why. Either it *refuses* its input, with a cause that
has a class and a text for the user, or it hits a *fault*: a precondition of size arithmetic, of a
buffer range or of a growing buffer does not hold, and the step stops without a report.

- `Error`: the causes of a refusal; `Error.kind`, `Error.message`, `Error.display` are their class
  and text.
- `Fault`: the broken preconditions.
- `Result`: a value or a failure.
-/

namespace BootImage

/-! ## §1 Errors of the host -/

/-- Why the host could not serve a file or an output. -/
inductive SystemError where
  /-- Nothing has that path. -/
  | noEntry
  /-- A component that should lead further is not a directory. -/
  | notDirectory
  /-- A directory was read as if it were a file. -/
  | isDirectory
  /-- A component or the whole path is longer than the host allows. -/
  | nameTooLong
  /-- The path contains a NUL character. -/
  | embeddedNul
  /-- A request that makes no sense, such as to move too far. -/
  | invalidArgument
  /-- The output took none of the bytes offered. -/
  | wroteNothing
  /-- Any other error, by its text. -/
  | other (text : String)
  deriving DecidableEq, Repr

/-- The text of a host error. -/
def SystemError.message : SystemError → String
  | .noEntry => "No such file or directory (os error 2)"
  | .notDirectory => "Not a directory (os error 20)"
  | .isDirectory => "Is a directory (os error 21)"
  | .nameTooLong => "File name too long (os error 36)"
  | .embeddedNul => "file name contained an unexpected NUL byte"
  | .invalidArgument => "Invalid argument (os error 22)"
  | .wroteNothing => "failed to write whole buffer"
  | .other text => text

/-! ## §2 Refusals -/

/-- The class of a refusal. -/
inductive ErrorKind where
  /-- An invalid combination of build parameters. -/
  | config
  /-- An input that cannot be read, or an output that cannot be written. -/
  | resource
  /-- An image that exceeds the limits of its platform. -/
  | capacity
  /-- Bytes that contradict their own description. -/
  | format
  deriving DecidableEq, Repr

/-- The name of a class in messages. -/
def ErrorKind.className : ErrorKind → String
  | .config => "configuration error"
  | .resource => "resource error"
  | .capacity => "capacity error"
  | .format => "format error"

/-- The cause of a refusal. -/
inductive Error where
  /-- A manifest names no target. -/
  | noTarget (known : List String)
  /-- No registered target has that name. -/
  | unknownTarget (name : String) (known : List String)
  /-- No compression has that name. -/
  | unknownCompression (name : String)
  /-- A core image cannot be compressed by a scheme that is still open. -/
  | openCompression
  /-- No stub undoes a scheme that is still open. -/
  | openStub
  /-- Secure-boot metadata for a target whose images cannot carry it. -/
  | misplacedMetadata (path : Path) (target : String)
  /-- A manifest that is not UTF-8. -/
  | manifestNotText (path : Path)
  /-- A manifest that does not describe an image. -/
  | manifestMalformed (path : Path)
  /-- A host error while acting on a file or an output. -/
  | host (action : String) (path : Path) (source : SystemError)
  /-- An input that is not a regular file. -/
  | notRegular (path : Path)
  /-- A file that grew since the image was planned. -/
  | fileGrew (path : Path) (size room : Nat)
  /-- A size whose word-aligned value is not a size any more. -/
  | alignedSizeOverflow (size : Nat)
  /-- A module region whose size is not a size any more. -/
  | regionOverflow
  /-- A module region that 32 bits cannot count. -/
  | regionTooLarge (size : Nat)
  /-- A payload that its header cannot count. -/
  | payloadTooLarge (size : Nat)
  /-- A value too large for its field. -/
  | valueTooLarge (value : Nat)
  /-- A field that lies outside of its buffer. -/
  | fieldOutside (offset width size : Nat)
  /-- A field of a width that no integer has. -/
  | fieldWidth (width : Nat)
  /-- Modules that do not fit in front of the link address. -/
  | modulesBelowLinkAddress (size linkAddress : Nat)
  /-- A value too large for a field of the decompressor stub. -/
  | stubValueTooLarge (what : String) (value : Nat)
  /-- A value too large for a field of a PE header. -/
  | headerValueTooLarge (what : String) (value : Nat)
  /-- Sections that exceed the 32-bit address space. -/
  | addressSpaceExceeded
  /-- A size whose file-aligned value is not a size any more. -/
  | fileSizeOverflow (size : Nat)
  /-- A kernel that reaches beyond the memory it may occupy. -/
  | kernelTooBig (finish ceiling : Nat)
  /-- A kernel whose executable part is larger than the kernel. -/
  | executableExceedsKernel (executable kernel : Nat)
  /-- A kernel blob shorter than its layout claims. -/
  | blobTooShort (size claimed : Nat)
  /-- A kernel image without room for the modules. -/
  | noRoomForModules (size modules : Nat)
  /-- A region smaller than its plan. -/
  | regionTooSmall (size planned : Nat)
  /-- A core image smaller than the kernel sections it should hold. -/
  | coreSmallerThanKernel (size : Nat)
  /-- A core image that is not the one planned. -/
  | coreMismatch (size : Nat)
  /-- Secure-boot metadata given where none is planned, or the reverse. -/
  | metadataMismatch
  /-- A relocation table that reaches beyond the image. -/
  | relocationMismatch (size : Nat)
  /-- A core image that the codec cannot compress. -/
  | codec (text : String)
  /-- A refusal by a collaborator, in its own words. -/
  | reported (kind : ErrorKind) (message : String)
  deriving DecidableEq, Repr

namespace Error

/-- The hexadecimal text of a number, in lower case. -/
def hex (n : Nat) : String := "0x" ++ String.ofList (Nat.toDigits 16 n)

/-- The class of a cause. -/
def kind : Error → ErrorKind
  | noTarget _ => .config
  | unknownTarget _ _ => .config
  | unknownCompression _ => .config
  | openCompression => .config
  | openStub => .config
  | misplacedMetadata _ _ => .config
  | manifestNotText _ => .config
  | manifestMalformed _ => .config
  | host _ _ _ => .resource
  | notRegular _ => .resource
  | fileGrew _ _ _ => .resource
  | alignedSizeOverflow _ => .capacity
  | regionOverflow => .capacity
  | regionTooLarge _ => .capacity
  | payloadTooLarge _ => .capacity
  | valueTooLarge _ => .capacity
  | fieldOutside _ _ _ => .format
  | fieldWidth _ => .format
  | modulesBelowLinkAddress _ _ => .capacity
  | stubValueTooLarge _ _ => .capacity
  | headerValueTooLarge _ _ => .capacity
  | addressSpaceExceeded => .capacity
  | fileSizeOverflow _ => .capacity
  | kernelTooBig _ _ => .capacity
  | executableExceedsKernel _ _ => .format
  | blobTooShort _ _ => .format
  | noRoomForModules _ _ => .format
  | regionTooSmall _ _ => .format
  | coreSmallerThanKernel _ => .format
  | coreMismatch _ => .format
  | metadataMismatch => .format
  | relocationMismatch _ => .format
  | codec _ => .format
  | reported kind _ => kind

/-- Names in one line, as a message lists them. -/
def listing (names : List String) : String := ", ".intercalate names

/-- The text of a cause, without the host error behind it. -/
def message : Error → String
  | noTarget known => s!"no target format given; expected one of: {listing known}"
  | unknownTarget name known =>
    s!"unknown target format {name}; expected one of: {listing known}"
  | unknownCompression name => s!"unknown compression format {name}"
  | openCompression => "unknown compression Auto"
  | openStub => "compression must be resolved before choosing a decompressor"
  | misplacedMetadata path target =>
    s!"`{path.text}` cannot be embedded: .sbat is only supported on EFI targets, not {target}"
  | manifestNotText path => s!"`{path.text}` is not valid UTF-8"
  | manifestMalformed path => s!"cannot parse `{path.text}`"
  | host action path _ => s!"cannot {action} `{path.text}`"
  | notRegular path => s!"cannot read `{path.text}`: not a regular file"
  | fileGrew path size room =>
    s!"`{path.text}` changed size while building ({hex size} > {hex room})"
  | alignedSizeOverflow size => s!"size {hex size} overflows when aligned"
  | regionOverflow => "the module region overflows"
  | regionTooLarge size => s!"modules of {hex size} bytes do not fit in 32 bits"
  | payloadTooLarge size => s!"payload of {hex size} bytes does not fit a module header"
  | valueTooLarge value => s!"value {hex value} does not fit its field"
  | fieldOutside offset width size =>
    s!"field at {hex offset} (+{width}) is outside of a {hex size}-byte buffer"
  | fieldWidth width => s!"unsupported field width {width}"
  | modulesBelowLinkAddress size linkAddress =>
    s!"modules ({hex size} bytes) do not fit below the link address {hex linkAddress}"
  | stubValueTooLarge what value => s!"{what} {hex value} does not fit in 32 bits"
  | headerValueTooLarge what value => s!"{what} {hex value} does not fit in a PE header"
  | addressSpaceExceeded => "the PE image exceeds the 32-bit address space"
  | fileSizeOverflow size => s!"size {hex size} overflows"
  | kernelTooBig finish ceiling => s!"kernel image is too big ({hex finish} > {hex ceiling})"
  | executableExceedsKernel executable kernel =>
    s!"executable size {hex executable} exceeds kernel size {hex kernel}"
  | blobTooShort size claimed =>
    s!"kernel blob is {hex size} bytes but its layout claims {hex claimed}"
  | noRoomForModules size modules =>
    s!"kernel image of {hex size} bytes has no room for {hex modules} bytes of modules"
  | regionTooSmall size planned =>
    s!"module region of {hex size} bytes is smaller than planned {hex planned}"
  | coreSmallerThanKernel size =>
    s!"core image of {hex size} bytes is smaller than the kernel sections"
  | coreMismatch size => s!"core image of {hex size} bytes does not match the planned layout"
  | metadataMismatch => "the .sbat section does not match the planned layout"
  | relocationMismatch size =>
    s!"relocation table of {hex size} bytes does not fit the image"
  | codec text => s!"cannot compress the kernel image: {text}"
  | reported _ message => message

/-- The host error behind a cause. -/
def source? : Error → Option SystemError
  | host _ _ source => some source
  | _ => none

/-- The full text of a cause: its message, then the host error behind it. -/
def display (e : Error) : String :=
  match e.source? with
  | none => e.message
  | some source => s!"{e.message}: {source.message}"

end Error

/-! ## §3 Faults and results -/

/-- A precondition that does not hold. -/
inductive Fault where
  /-- An alignment that is not a power of two. -/
  | notPowerOfTwo (align : Nat)
  /-- A sum or product that its word cannot hold. -/
  | overflow
  /-- A range that is not inside its buffer. -/
  | outOfRange
  /-- A buffer larger than any that can be allocated. -/
  | unallocatable (size : Nat)
  /-- A target to be shown that has no name. -/
  | nameless
  deriving DecidableEq, Repr

/-- Why a step gave no result. -/
inductive Failure where
  /-- The step refuses its input. -/
  | refused (cause : Error)
  /-- A precondition of the step does not hold. -/
  | fault (cause : Fault)
  deriving DecidableEq, Repr

/-- A value, or the failure that prevented it. -/
abbrev Result := Except Failure

/-- The result of a step that refuses its input. -/
def refuse {α : Type} (cause : Error) : Result α := .error (.refused cause)

/-- The result of a step whose precondition does not hold. -/
def fault {α : Type} (cause : Fault) : Result α := .error (.fault cause)

end BootImage
