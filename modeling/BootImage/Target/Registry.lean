import BootImage.Target

/-!
# The registered targets

The targets that a manifest can name, in the order in which messages list them.
-/

namespace BootImage.Target

/-- The alignment of PE sections in memory. -/
def peSectionAlign : Nat := 0x1000

/-- The alignment of PE sections in the file. -/
def peFileAlign : Nat := 0x200

/-- The description of an EFI target. -/
def efi (name : String) (architecture : Architecture) (word : WordWidth) (machine : Machine) :
    Target where
  names := [name]
  directory := ⟨name⟩
  architecture := architecture
  format := ⟨word, .little⟩
  container := .pe machine
  linkAddress := 0
  sectionAlign := peSectionAlign
  fileAlign := peFileAlign

/-- The 32-bit target whose images are the bare core image. -/
def multiboot : Target where
  names := ["i386-multiboot"]
  directory := ⟨"i386-multiboot"⟩
  architecture := .i386
  format := ⟨.w32, .little⟩
  container := .raw
  linkAddress := 0x8200
  sectionAlign := 1
  fileAlign := 4

/-- The EFI target of 32-bit PCs. -/
def efiI386 : Target := efi "i386-efi" .i386 .w32 .i386

/-- The EFI target of 64-bit PCs. -/
def efiAmd64 : Target := efi "x86_64-efi" .x86_64 .w64 .amd64

/-- All registered targets. -/
def registry : List Target := [
  multiboot,
  efiI386,
  efiAmd64,
  efi "arm-efi" .arm .w32 .armThumbMixed,
  efi "arm64-efi" .arm64 .w64 .arm64,
  efi "riscv32-efi" .riscv32 .w32 .riscv32,
  efi "riscv64-efi" .riscv64 .w64 .riscv64]

/-- The registered target with a given name. -/
def find? (name : String) : Option Target := registry.find? fun t => t.names.contains name

/-- The shown names of the registered targets. -/
def registeredNames : List String := registry.filterMap (·.name?)

/-- The registered target with a given name, which has to exist. -/
def find (name : String) : Result Target :=
  match find? name with
  | some t => .ok t
  | none => refuse (.unknownTarget name registeredNames)

end BootImage.Target
