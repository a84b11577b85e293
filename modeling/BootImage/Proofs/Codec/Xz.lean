import BootImage.Codec.Xz

/-!
# Reading `.xz` streams back

Unpacking the stream of a byte string gives the byte string. The chunks of a block are read one after the
other, each with its size in front, up to the zero byte that closes them. Everything else in a stream is
compared as a whole, so only the content has to be found.

- `readChunks?_control`, `readChunks?_chunk`: one chunk, read off.
- `readChunks?_chunks`: the chunks of some content, read back.
- `lossless_codec`: streams as a codec.
-/

namespace BootImage.Codec.Xz

/-! ## §1 Chunks -/

/-- The control byte of a chunk. The first one resets the dictionary. -/
def control (isFirst : Bool) : UInt8 := if isFirst then 0x01 else 0x02

variable {isFirst : Bool} {content behind : Bytes}

theorem chunks_nil : chunks isFirst [] = [0x00] := by
  rw [chunks, dif_pos rfl]

/-- The first chunk of some content. -/
theorem chunks_of_ne_nil (h : content ≠ []) :
    chunks isFirst content = control isFirst ::
      (ByteOrder.big.encode 2 ((content.take chunkLimit).length - 1) ++
        (content.take chunkLimit ++ chunks false (content.drop chunkLimit))) := by
  rw [chunks, dif_neg h]
  rfl

/-- A control byte is followed by a size and by as many bytes, which are read off. -/
theorem readChunks?_control (isFirst : Bool) (fuel : Nat) (high low : UInt8) (rest : Bytes) :
    readChunks? (fuel + 1) (control isFirst :: high :: low :: rest) =
      if rest.length < ByteOrder.big.decode [high, low] + 1 then none
      else (readChunks? fuel (rest.drop (ByteOrder.big.decode [high, low] + 1))).map fun read =>
        (rest.take (ByteOrder.big.decode [high, low] + 1) ++ read.1, read.2) := by
  have hnotEnd : control isFirst = 0x00 → False := by cases isFirst <;> decide
  have hcontrol : (control isFirst = 0x01 || control isFirst = 0x02) = true := by
    cases isFirst <;> decide
  -- The reader takes the chunk off if it is there as a whole.
  rw [readChunks?, if_pos hcontrol]
  · split
    · rfl
    · cases readChunks? fuel (rest.drop (ByteOrder.big.decode [high, low] + 1)) <;> rfl
  · exact hnotEnd

/-- One chunk is read off, and the rest in the same way. -/
theorem readChunks?_chunk {piece rest : Bytes} {fuel : Nat} (hpos : 0 < piece.length)
    (hle : piece.length ≤ chunkLimit) :
    readChunks? (fuel + 1) (control isFirst ::
        (ByteOrder.big.encode 2 (piece.length - 1) ++ (piece ++ rest))) =
      (readChunks? fuel rest).map fun read => (piece ++ read.1, read.2) := by
  -- The size has two bytes, the higher one in front.
  have hencode : ByteOrder.big.encode 2 (piece.length - 1) =
      [UInt8.ofNat ((piece.length - 1) / 256), UInt8.ofNat (piece.length - 1)] := rfl
  have hsize : ByteOrder.big.decode
      [UInt8.ofNat ((piece.length - 1) / 256), UInt8.ofNat (piece.length - 1)] + 1 = piece.length := by
    have hlt : piece.length - 1 < ByteOrder.limit 2 := Nat.lt_of_lt_of_le (by omega) hle
    rw [← hencode, ByteOrder.decode_encode _ hlt]
    omega
  have hroom : ¬ (piece ++ rest).length < piece.length := by
    rw [List.length_append]
    omega
  rw [hencode, List.cons_append, List.cons_append, List.nil_append, readChunks?_control, hsize,
    if_neg hroom, List.drop_left, List.take_left]

/-- **Chunks are read back**, if there is fuel for each byte of them. What follows them is left. -/
theorem readChunks?_chunks {fuel : Nat} (hfuel : (chunks isFirst content).length ≤ fuel) :
    readChunks? fuel (chunks isFirst content ++ behind) = some (content, behind) := by
  -- By induction on the fuel, since every chunk takes some.
  induction fuel generalizing isFirst content with
  | zero =>
    by_cases h : content = []
    · rw [h, chunks_nil] at hfuel
      exact absurd hfuel (Nat.not_succ_le_zero _)
    · rw [chunks_of_ne_nil h] at hfuel
      exact absurd hfuel (Nat.not_succ_le_zero _)
  | succ fuel ih =>
    by_cases h : content = []
    · rw [h, chunks_nil]
      rfl
    · -- There is content left, so the chunk is not empty and the rest is shorter.
      have hpos : 0 < (content.take chunkLimit).length := by
        rw [List.length_take]
        exact Nat.lt_min.2 ⟨by decide, List.length_pos_iff.2 h⟩
      rw [chunks_of_ne_nil h] at hfuel ⊢
      have hrest : (chunks false (content.drop chunkLimit)).length ≤ fuel := by
        simp only [List.length_cons, List.length_append] at hfuel
        omega
      rw [List.cons_append, List.append_assoc, List.append_assoc,
        readChunks?_chunk hpos (List.length_take_le ..), ih hrest, Option.map_some,
        List.take_append_drop]

/-! ## §2 Streams -/

/-- The content of a stream, before the stream is compared with that of the content. -/
def candidate? (stream : Bytes) : Option Bytes :=
  if (stream.drop streamHeader.length).head? = some 0x00 then some []
  else (readChunks? stream.length ((stream.drop streamHeader.length).drop blockHeader.length)).map (·.1)

theorem decode?_eq (stream : Bytes) :
    decode? stream =
      (candidate? stream).bind fun content => if encode content = stream then some content else none := by
  rw [decode?, candidate?]
  split <;> rfl

/-- A stream of no content goes from its header straight to the index, which starts with a zero byte. -/
theorem candidate?_encode_nil : candidate? (encode []) = some [] := by
  have hstream : encode [] = streamHeader ++ (index [] ++ footer (index []).length) := rfl
  rw [hstream, candidate?, List.drop_left]
  exact if_pos rfl

/-- In a stream with content, the block header stands where the index would be, and starts with its
size. -/
theorem candidate?_encode (h : content ≠ []) : candidate? (encode content) = some content := by
  obtain ⟨rest, hstream⟩ : ∃ rest, encode content =
      streamHeader ++ (blockHeader ++ (chunks true content ++ rest)) := by
    simp only [encode, List.isEmpty_iff, h, if_false, padded, List.append_assoc]
    exact ⟨_, rfl⟩
  -- Chunks are a part of the stream, so its length is fuel enough.
  have hfuel : (chunks true content).length ≤ (encode content).length := by
    rw [hstream, List.length_append, List.length_append, List.length_append]
    omega
  have hblock : (blockHeader ++ (chunks true content ++ rest)).head? ≠ some 0x00 := by
    show some (0x02 : UInt8) ≠ some 0x00
    decide
  have hbehind : (encode content).drop streamHeader.length =
      blockHeader ++ (chunks true content ++ rest) := by
    rw [hstream, List.drop_left]
  rw [candidate?, hbehind, if_neg hblock, List.drop_left, readChunks?_chunks hfuel]
  rfl

/-- **Streams lose nothing**, whatever their content. -/
theorem lossless_codec : codec.Lossless := by
  intro content packed h
  cases h
  have hcandidate : candidate? (encode content) = some content := by
    by_cases hempty : content = []
    · rw [hempty]
      exact candidate?_encode_nil
    · exact candidate?_encode hempty
  show decode? (encode content) = some content
  rw [decode?_eq, hcandidate, Option.bind_some, if_pos rfl]

end BootImage.Codec.Xz
