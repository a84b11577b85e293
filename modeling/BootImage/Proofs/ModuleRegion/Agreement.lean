import BootImage.Proofs.Agreement
import BootImage.Proofs.ModuleRegion.ReadBack
import Mathlib.Data.List.Forall2

/-!
# Module regions of inputs with the same sizes

Inputs that agree in their kinds and in the lengths of their contents are planned alike, and written into
regions that agree outside of the contents: in the info record, in every header, and in the padding.

- `Input.Alike`: inputs of one kind with contents of one length, or both without a content.
- `extent_payload_alike`: what is planned for them takes the same room.
- `Plan.contentRanges`: the ranges of a region that hold content; `apart_of_mem_spread`: no header is in
  one of them.
- `agree_blocks`: what is written.
-/

namespace BootImage

/-! ## §1 Inputs of the same sizes -/

/-- Inputs of two builds, of one kind, whose contents have one length, or both of which have none. -/
structure Input.Alike (files₁ files₂ : FileSystem) (input other : Input) : Prop where
  kind : input.kind = other.kind
  content : Bytes.SameLength (input.source.content? files₁) (other.source.content? files₂)

section Alike

variable {files₁ files₂ : FileSystem} {input other : Input} {word : WordWidth}

/-- Contents of alike inputs have one length, also where both are missing. -/
theorem Input.Alike.length_content (h : Input.Alike files₁ files₂ input other) :
    (input.content files₁).length = (other.content files₂).length := h.content.length_getD

/-- What is planned for them has the same sizes. -/
theorem Input.Alike.payload (h : Input.Alike files₁ files₂ input other) :
    (input.payload files₁ word).rawSize = (other.payload files₂ word).rawSize ∧
      (input.payload files₁ word).paddedSize = (other.payload files₂ word).paddedSize := by
  simp only [Input.payload, h.kind, h.length_content, and_self]

namespace ModuleRegion

/-- Headers hold kinds and sizes, and so they are equal. -/
theorem header_payload_alike (h : Input.Alike files₁ files₂ input other) (order : ByteOrder) :
    header order (input.payload files₁ word) = header order (other.payload files₂ word) := by
  simp only [header, Payload.headerValue, Input.payload, h.kind, h.length_content]

end ModuleRegion

end Alike

namespace ModuleRegion

/-! ## §2 The ranges that hold content -/

/-- The range that holds the content of an entry, in a region at an offset. -/
def Entry.contentRange (start : Nat) (entry : Entry) : ByteRange :=
  ⟨start + entry.offset + Payload.headerBytes, entry.payload.rawSize⟩

/-- The ranges that hold content, in a region at an offset. -/
def Plan.contentRanges (plan : Plan) (start : Nat) : List ByteRange :=
  plan.entries.map (·.contentRange start)

section Spread

variable {start : Nat} {ps : List Payload}

/-- Every entry lies between the start and the end of all. -/
theorem bounds_of_mem_spread :
    ∀ entry ∈ spread start ps, start ≤ entry.offset ∧
      entry.offset + (Payload.headerBytes + entry.payload.paddedSize) ≤ start + extent ps := by
  -- By induction on the payloads; the later ones start where the first one ends.
  induction ps generalizing start with
  | nil => simp [spread]
  | cons p ps ih =>
    rw [spread, List.forall_mem_cons, extent_cons]
    refine ⟨⟨Nat.le_refl _, ?_⟩, fun entry hentry => ?_⟩
    · show start + (Payload.headerBytes + p.paddedSize) ≤ _
      omega
    · obtain ⟨hlow, hhigh⟩ := ih entry hentry
      exact ⟨by omega, by omega⟩

/-- **Headers hold no content**: the header of an entry lies apart from the contents of all. -/
theorem apart_of_mem_spread (hfits : ∀ p ∈ ps, p.rawSize ≤ p.paddedSize) (base : Nat) :
    ∀ entry ∈ spread start ps, ∀ other ∈ spread start ps,
      (other.contentRange base).Apart (base + entry.offset) Payload.headerBytes := by
  -- By induction on the payloads; all later entries lie behind the first one.
  induction ps generalizing start with
  | nil => simp [spread]
  | cons p ps ih =>
    rw [List.forall_mem_cons] at hfits
    obtain ⟨hp, hps⟩ := hfits
    have hlater := @bounds_of_mem_spread (start + (Payload.headerBytes + p.paddedSize)) ps
    simp only [spread, List.forall_mem_cons, Entry.contentRange, ByteRange.Apart] at ih ⊢
    -- The first header and its own content, the first header and later contents, and later headers.
    refine ⟨⟨.inr (by omega), fun other hother => ?_⟩, fun entry hentry => ⟨?_, ih hps entry hentry⟩⟩
    · have := (hlater other hother).1
      omega
    · have := (hlater entry hentry).1
      omega

end Spread

/-! ## §3 Alike inputs -/

section Inputs

variable {files₁ files₂ : FileSystem} {word : WordWidth} {inputs others : List Input}

/-- Alike inputs take the same room. -/
theorem extent_payload_alike (h : inputs.Forall₂ (Input.Alike files₁ files₂) others) :
    extent (inputs.map (·.payload files₁ word)) = extent (others.map (·.payload files₂ word)) := by
  induction h with
  | nil => rfl
  | cons hinput _ ih => rw [List.map_cons, List.map_cons, extent_cons, extent_cons, ih, hinput.payload.2]

/-- The body of a block is its content, filled up with zeros. -/
theorem body_blockOf {files : FileSystem} {p : Payload} (h : (p.content files).length ≤ p.paddedSize) :
    (blockOf files p).body = (p.content files).resize p.paddedSize := by
  rw [Bytes.resize_of_length_le h, blockOf]

/-- **One block**: behind buffers that agree outside of some ranges, the blocks of alike inputs agree
outside of the content. -/
theorem agree_block {input other : Input} {order : ByteOrder} {ranges : List ByteRange} {a b : Bytes}
    {base start : Nat} (h : Input.Alike files₁ files₂ input other)
    (hagree : Bytes.AgreeOff ranges a b) (hlen : a.length = base + start) :
    Bytes.AgreeOff (ranges ++ [Entry.contentRange base ⟨input.payload files₁ word, start⟩])
      (a ++ (header order (input.payload files₁ word) ++
        (blockOf files₁ (input.payload files₁ word)).body))
      (b ++ (header order (other.payload files₂ word) ++
        (blockOf files₂ (other.payload files₂ word)).body)) := by
  have hcontent : ((input.payload files₁ word).content files₁).length =
      ((other.payload files₂ word).content files₂).length := h.length_content
  have hfits : ((input.payload files₁ word).content files₁).length ≤
      (input.payload files₁ word).paddedSize := input.kind.le_paddedSize word _
  have hfits' : ((other.payload files₂ word).content files₂).length ≤
      (other.payload files₂ word).paddedSize := other.kind.le_paddedSize word _
  have hrange : (⟨(a ++ header order (input.payload files₁ word)).length,
      ((input.payload files₁ word).content files₁).length⟩ : ByteRange) =
        Entry.contentRange base ⟨input.payload files₁ word, start⟩ := by
    rw [List.length_append, length_header, hlen]
    rfl
  -- An equal header, then the content with zeros up to the same padded size.
  rw [body_blockOf hfits, body_blockOf hfits', ← header_payload_alike h, ← h.payload.2, ← hrange,
    ← List.append_assoc, ← List.append_assoc]
  exact (hagree.append_same _).append_resized hcontent hfits

/-- **What is written for alike inputs**: the same of all blocks. -/
theorem agree_blocks {order : ByteOrder} {ranges : List ByteRange} {a b : Bytes} {base start : Nat}
    (h : inputs.Forall₂ (Input.Alike files₁ files₂) others) (hagree : Bytes.AgreeOff ranges a b)
    (hlen : a.length = base + start) :
    Bytes.AgreeOff
      (ranges ++ (spread start (inputs.map (·.payload files₁ word))).map (·.contentRange base))
      (a ++ blocksOver files₁ order (Bytes.zeros (extent (inputs.map (·.payload files₁ word))))
        (inputs.map (·.payload files₁ word)))
      (b ++ blocksOver files₂ order (Bytes.zeros (extent (others.map (·.payload files₂ word))))
        (others.map (·.payload files₂ word))) := by
  -- By induction on the inputs; each block goes behind both buffers.
  induction h generalizing ranges a b start with
  | nil =>
    simp only [List.map_nil, spread, blocksOver, extent_nil, List.append_nil]
    exact hagree.append_same _
  | @cons input other inputs others hinput _ ih =>
    have hfits : ((input.payload files₁ word).content files₁).length ≤
        (input.payload files₁ word).paddedSize := input.kind.le_paddedSize word _
    have hend : (a ++ (header order (input.payload files₁ word) ++
        (blockOf files₁ (input.payload files₁ word)).body)).length =
        base + (start + (Payload.headerBytes + (input.payload files₁ word).paddedSize)) := by
      rw [List.length_append, List.length_append, length_header, length_body hfits, hlen, Nat.add_assoc]
    rw [List.map_cons, List.map_cons, blocksOver_zeros_cons, blocksOver_zeros_cons, spread, List.map_cons,
      List.append_cons, ← List.append_assoc a, ← List.append_assoc b]
    exact ih (agree_block hinput hagree hlen) hend

end Inputs

end ModuleRegion

end BootImage
