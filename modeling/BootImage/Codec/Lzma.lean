import BootImage.Codec
import BootImage.Codec.RangeCoder

/-!
# Raw LZMA streams

A stream without a header, for boot-time decompressors that know its parameters: three bits of the
preceding byte choose the context of a literal, two bits of the position that of the choice between
literals and matches. The encoder writes every byte as a literal and closes the stream with the end
marker, a match of the greatest distance; the decoder reads streams of this form.
-/

namespace BootImage.Codec.Lzma

open RangeCoder

/-! ## §1 Slots -/

/-- The slot of the choice between literal and match. -/
def matchSlot (position : Nat) : Nat := position % 4

/-- The slot of the choice between a new and a repeated distance. -/
def repeatSlot : Nat := 4

/-- The slot of the choice of the shortest length class. -/
def lengthSlot : Nat := 5

/-- The slots of the tree of short lengths. -/
def shortLengthSlots (position : Nat) : Nat := 8 + position % 4 * 8

/-- The slots of the tree of distance classes. -/
def distanceSlots : Nat := 64

/-- The slots of the tree of the low bits of a distance. -/
def alignSlots : Nat := 128

/-- The slots of the tree of literals behind a given byte. -/
def literalSlots (previous : UInt8) : Nat := 256 + previous.toNat / 32 * 0x300

/-- The number of slots. -/
def slotCount : Nat := 256 + 8 * 0x300

/-! ## §2 Decisions -/

/-- The decisions of a literal: that it is one, then its bits from the highest on, each in the node
of the tree that the bits before it lead to. -/
def literal (position : Nat) (previous byte : UInt8) : List Decision :=
  -- The ninth bit marks the root of the tree; the node of a bit is what the bits above it make.
  let symbol := 256 + byte.toNat
  .modelled (matchSlot position) false ::
    [7, 6, 5, 4, 3, 2, 1, 0].map fun i =>
      .modelled (literalSlots previous + symbol >>> (i + 1)) (symbol.testBit i)

/-- The decisions of the end marker: a match with a new distance, of the shortest length, in the
last distance class, with all further bits of the distance set. -/
def endMarker (position : Nat) : List Decision :=
  [.modelled (matchSlot position) true, .modelled repeatSlot false, .modelled lengthSlot false] ++
    [1, 2, 4].map (fun node => .modelled (shortLengthSlots position + node) false) ++
    [1, 3, 7, 15, 31, 63].map (fun node => .modelled (distanceSlots + node) true) ++
    List.replicate 26 (.even true) ++
    [1, 3, 7, 15].map (fun node => .modelled (alignSlots + node) true)

/-! ## §3 Streams -/

/-- An encoder, with the position and the byte in front of it. -/
structure Cursor where
  /-- The encoder. -/
  encoder : Encoder
  /-- The number of bytes encoded. -/
  position : Nat
  /-- The last of them. -/
  previous : UInt8

/-- The cursor behind one more byte. -/
def Cursor.push (cursor : Cursor) (byte : UInt8) : Cursor :=
  ⟨cursor.encoder.steps (literal cursor.position cursor.previous byte), cursor.position + 1, byte⟩

/-- The stream of a byte string. -/
def encode (content : Bytes) : Bytes :=
  let cursor := content.foldl Cursor.push ⟨{ model := Model.even slotCount }, 0, 0⟩
  (cursor.encoder.steps (endMarker cursor.position)).finish

/-- The literal at a decoder: eight outcomes, each in the node that those before it lead to. -/
def readLiteral? (decoder : Decoder) (slots : Nat) : Option (UInt8 × Decoder) := do
  -- The state is a node and a decoder, from the root on.
  let step := fun (state : Nat × Decoder) (_ : Unit) => do
    let (bit, next) ← state.2.modelled? (slots + state.1)
    some (2 * state.1 + bit.toNat, next)
  let (symbol, next) ← (List.replicate 8 ()).foldlM step (1, decoder)
  some (UInt8.ofNat symbol, next)

/-- The rest of a stream, behind what has been read, which is given last byte first. -/
def readAll? : Nat → Decoder → Nat → Bytes → Option Bytes
  | 0, _, _, _ => none
  | fuel + 1, decoder, position, read => do
    let (isMatch, next) ← decoder.modelled? (matchSlot position)
    -- The only match that the encoder makes is the end marker, and nothing may follow it.
    if isMatch then
      let last ← next.expect? (endMarker position).tail
      if last.rest.isEmpty then some read.reverse else none
    else
      let (byte, next) ← readLiteral? next (literalSlots (read.headD 0))
      readAll? fuel next (position + 1) (byte :: read)

/-- The byte string of a stream. A literal takes at least an eighth of a bit, because no probability
comes closer to certainty than 31 parts in `2 ^ 11`, so that 64 literals for each byte are enough.
-/
def decode? (stream : Bytes) : Option Bytes := do
  let decoder ← Decoder.start? (Model.even slotCount) stream
  readAll? (64 * (stream.length + 1)) decoder 0 []

/-- Raw LZMA streams as a codec. -/
def codec : Codec := ⟨fun content => .ok (encode content), decode?⟩

end BootImage.Codec.Lzma
