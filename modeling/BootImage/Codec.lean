import BootImage.Bytes
import BootImage.Error

/-!
# Codecs

A codec packs a byte string, or says why it cannot, and unpacks what it packed. What a build needs
of one is `Codec.Lossless`; how small the packed form is does not matter to it.
-/

namespace BootImage

/-- A way to pack byte strings. -/
structure Codec where
  /-- The packed form. -/
  encode : Bytes → Except String Bytes
  /-- The byte string with a given packed form. -/
  decode? : Bytes → Option Bytes

namespace Codec

/-- Unpacking gives back what was packed. -/
def Lossless (codec : Codec) : Prop :=
  ∀ content packed, codec.encode content = .ok packed → codec.decode? packed = some content

/-- The packed form of a core image. -/
def pack (codec : Codec) (content : Bytes) : Result Bytes :=
  match codec.encode content with
  | .ok packed => .ok packed
  | .error text => refuse (.codec text)

/-- The codec that leaves everything as it is. -/
def identity : Codec := ⟨.ok, some⟩

theorem lossless_identity : identity.Lossless := by
  intro content packed h
  cases h
  rfl

/-- The codec that knows the packed form of one byte string, and refuses all others. -/
def single (content packed : Bytes) : Codec where
  encode given := if given = content then .ok packed else .error "unknown content"
  decode? stream := if stream = packed then some content else none

/-- Such a codec is lossless because it packs nothing but what it can unpack. -/
theorem lossless_single (content packed : Bytes) : (single content packed).Lossless := by
  intro given stream h
  unfold single at h
  dsimp only at h
  split at h
  · rename_i hknown
    cases h
    rw [hknown]
    exact if_pos rfl
  · cases h

end Codec

end BootImage
