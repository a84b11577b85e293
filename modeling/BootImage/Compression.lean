import BootImage.Error

/-!
# Compression schemes

The schemes a core image can be compressed by, their names, and the decompressor stub that undoes
each.
-/

namespace BootImage

/-- How a core image is compressed. -/
inductive Compression where
  /-- As the target does by default. -/
  | auto
  /-- Not at all. -/
  | plain
  /-- As an `.xz` stream. -/
  | xz
  /-- As a raw LZMA stream. -/
  | lzma
  deriving DecidableEq, Repr, Inhabited

namespace Compression

/-- The name of a scheme in manifests. -/
def name : Compression → String
  | auto => "auto"
  | plain => "none"
  | xz => "xz"
  | lzma => "lzma"

/-- The scheme with a given name. -/
def ofName? (text : String) : Option Compression :=
  [auto, plain, xz, lzma].find? fun scheme => scheme.name == text

/-- The scheme with a given name, which has to exist. -/
def ofName (text : String) : Result Compression :=
  match ofName? text with
  | some scheme => .ok scheme
  | none => refuse (.unknownCompression text)

/-- No two schemes share a name. -/
theorem ofName?_name (scheme : Compression) : ofName? scheme.name = some scheme := by
  cases scheme <;> decide

/-- The scheme that is meant where `default` stands for an open choice. -/
def resolve (scheme default : Compression) : Compression :=
  match scheme with
  | auto => default
  | _ => scheme

/-- The file of the stub that undoes a scheme. -/
def stubFile : Compression → Result Path
  | xz => .ok ⟨"xz_decompress.img"⟩
  | lzma => .ok ⟨"lzma_decompress.img"⟩
  | plain => .ok ⟨"none_decompress.img"⟩
  | auto => refuse .openStub

end Compression

end BootImage
