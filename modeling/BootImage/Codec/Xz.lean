import BootImage.Codec
import BootImage.Codec.Crc32

/-!
# `.xz` streams

A stream of at most one block, with 32-bit checks: a header, the block, an index of the blocks, and
a footer that points back to the index. The block has one filter, LZMA2 with a dictionary of 64 KiB,
and its chunks store their content as it is. A stream of no content has no block.
-/

namespace BootImage.Codec.Xz

/-! ## §1 Parts -/

/-- Bytes followed by their check. -/
def checked (bytes : Bytes) : Bytes := bytes ++ Crc32.checkBytes bytes

/-- Bytes with zeros up to a multiple of four. -/
def padded (bytes : Bytes) : Bytes := bytes ++ Bytes.zeros ((4 - bytes.length % 4) % 4)

/-- The flags of a stream: 32-bit checks. -/
def streamFlags : Bytes := [0x00, 0x01]

/-- The header of a stream. -/
def streamHeader : Bytes := [0xFD, 0x37, 0x7A, 0x58, 0x5A, 0x00] ++ checked streamFlags

/-- The header of a block: its size, one filter without sizes, and the parameters of LZMA2. -/
def blockHeader : Bytes := checked [0x02, 0x00, 0x21, 0x01, 0x08, 0x00, 0x00, 0x00]

/-- A number in groups of seven bits, the lowest first, all but the last marked. -/
def variableLength (n : Nat) : Bytes :=
  if n < 128 then [UInt8.ofNat n]
  else UInt8.ofNat (n % 128 + 128) :: variableLength (n / 128)

/-- The greatest size of a chunk. -/
def chunkLimit : Nat := 0x10000

/-- The chunks of some content. The first one resets the dictionary, and a zero byte closes them. -/
def chunks (isFirst : Bool) (content : Bytes) : Bytes :=
  if _ : content = [] then [0x00]
  else
    let piece := content.take chunkLimit
    let control : UInt8 := if isFirst then 0x01 else 0x02
    -- The size is stated less one, so that a full chunk fits two bytes.
    control :: (ByteOrder.big.encode 2 (piece.length - 1) ++
      (piece ++ chunks false (content.drop chunkLimit)))
termination_by content.length
decreasing_by
  have := List.length_pos_iff.2 ‹_›
  simp only [List.length_drop, chunkLimit]
  omega

/-! ## §2 Streams -/

/-- The index of a stream whose blocks have the given sizes, without their padding and with their
content unpacked. -/
def index (blocks : List (Nat × Nat)) : Bytes :=
  let records := blocks.flatMap fun block => variableLength block.1 ++ variableLength block.2
  -- A zero byte tells the index from a block.
  checked (padded (0x00 :: (variableLength blocks.length ++ records)))

/-- The footer of a stream with an index of the given size. -/
def footer (indexSize : Nat) : Bytes :=
  let fields := ByteOrder.little.encode 4 (indexSize / 4 - 1) ++ streamFlags
  Crc32.checkBytes fields ++ fields ++ [0x59, 0x5A]

/-- The stream of a byte string. -/
def encode (content : Bytes) : Bytes :=
  if content.isEmpty then streamHeader ++ (index [] ++ footer (index []).length)
  else
    let body := chunks true content
    -- The check is that of the content; padding follows the chunks and is not counted.
    let check := Crc32.checkBytes content
    let index := index [(blockHeader.length + body.length + check.length, content.length)]
    streamHeader ++ (blockHeader ++ (padded body ++ (check ++ (index ++ footer index.length))))

/-- The content of chunks, and what follows them. -/
def readChunks? : Nat → Bytes → Option (Bytes × Bytes)
  | 0, _ => none
  | fuel + 1, stream =>
    match stream with
    | 0x00 :: rest => some ([], rest)
    | control :: high :: low :: rest => do
      let size := ByteOrder.big.decode [high, low] + 1
      if control = 0x01 || control = 0x02 then
        -- A chunk that is cut off is no chunk.
        if rest.length < size then none
        else
          let (content, behind) ← readChunks? fuel (rest.drop size)
          some (rest.take size ++ content, behind)
      else none
    | _ => none

/-- The byte string of a stream: the one whose stream it is. -/
def decode? (stream : Bytes) : Option Bytes := do
  let behind := stream.drop streamHeader.length
  let content ←
    if behind.head? = some 0x00 then some []
    else (readChunks? stream.length (behind.drop blockHeader.length)).map (·.1)
  -- This compares the checks, the index and the footer all at once.
  if encode content = stream then some content else none

/-- `.xz` streams as a codec. -/
def codec : Codec := ⟨fun content => .ok (encode content), decode?⟩

end BootImage.Codec.Xz
