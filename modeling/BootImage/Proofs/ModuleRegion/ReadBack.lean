import BootImage.ModuleRegion.Reader
import BootImage.Proofs.ModuleRegion.Emission

/-!
# Reading back a written region

A kernel that walks a region written over zeros finds the info record that was planned, and behind
it one block for each payload, in the order of the plan: the tag, the size in the header, and the
content with nothing but zeros behind it. The walk ends where the region ends, because the distance
that a header states is the distance that the plan left.

- `Info.read?_infoRecord`: the record.
- `walk?_blocksOver`: the blocks, by induction on the payloads.
- `read?_regionOver`: the region.
-/

namespace BootImage

namespace ByteOrder

/-- A number that was appended is read from where it was appended. -/
theorem get?_append_encode (order : ByteOrder) (front rest : Bytes) (width value : Nat)
    (hv : value < limit width) :
    order.get? (front ++ (order.encode width value ++ rest)) front.length width = some value := by
  refine get?_eq_some_of_slice ?_ hv ?_
  · simp only [List.length_append, length_encode]
    omega
  · have h := Bytes.slice_append_self front (order.encode width value) rest
    rwa [length_encode] at h

end ByteOrder

namespace ModuleRegion

variable {files : FileSystem} {format : WordFormat}

/-! ## §1 The info record -/

/-- **The info record is read back**, in either width. -/
theorem Info.read?_infoRecord {region rest : Bytes} {total : Nat}
    (hsize : format.word.infoSize ≤ region.length)
    (hnarrow : format.word = .w32 → total < Size.bound32) (htotal : total < Size.bound) :
    Info.read? format (infoRecord format region total ++ rest) =
      some ⟨infoMagic, format.word.infoSize, total⟩ := by
  have h4 : ByteOrder.limit 4 = Size.bound32 := by decide
  have h8 : ByteOrder.limit 8 = Size.bound := by decide
  -- The two records differ in their widths and in the pad word.
  cases hword : format.word with
  | w32 =>
    have hcount := hnarrow hword
    have hmagic := format.order.get?_append_encode [] (format.order.encode 4 WordWidth.w32.infoSize ++
      (format.order.encode 4 total ++ rest)) 4 infoMagic (by decide)
    have hoffset := format.order.get?_append_encode (format.order.encode 4 infoMagic)
      (format.order.encode 4 total ++ rest) 4 WordWidth.w32.infoSize (by decide)
    have htot := format.order.get?_append_encode
      (format.order.encode 4 infoMagic ++ format.order.encode 4 WordWidth.w32.infoSize) rest 4 total
      (by omega)
    simp only [List.length_append, ByteOrder.length_encode, List.nil_append, List.length_nil,
      List.append_assoc] at hmagic hoffset htot
    simp [Info.read?, infoRecord, hword, hmagic, hoffset, htot]
  | w64 =>
    -- The pad word takes four bytes, whatever the region held there.
    have hpad : (region.slice 4 4).length = 4 := by
      refine Bytes.length_slice_of_le (Nat.le_trans ?_ hsize)
      rw [hword]
      decide
    have hmagic := format.order.get?_append_encode []
      (region.slice 4 4 ++ (format.order.encode 8 WordWidth.w64.infoSize ++
        (format.order.encode 8 total ++ rest))) 4 infoMagic (by decide)
    have hoffset := format.order.get?_append_encode
      (format.order.encode 4 infoMagic ++ region.slice 4 4) (format.order.encode 8 total ++ rest) 8
      WordWidth.w64.infoSize (by decide)
    have htot := format.order.get?_append_encode (format.order.encode 4 infoMagic ++
      (region.slice 4 4 ++ format.order.encode 8 WordWidth.w64.infoSize)) rest 8 total (by omega)
    simp only [List.length_append, ByteOrder.length_encode, List.nil_append, List.length_nil,
      List.append_assoc, hpad] at hmagic hoffset htot
    simp [Info.read?, infoRecord, hword, hmagic, hoffset, htot]

/-! ## §2 Blocks -/

/-- The block that a region holds of a payload: its tag, the size in its header, and its content with
zeros behind it. -/
def blockOf (files : FileSystem) (p : Payload) : Block :=
  ⟨p.kind.tag, p.headerValue,
    p.content files ++ Bytes.zeros (p.paddedSize - (p.content files).length)⟩

/-- The distance that the header of a payload states is the one that the plan left. -/
def Payload.Paced (word : WordWidth) (p : Payload) : Prop :=
  stride word p.kind.tag p.headerValue = Payload.headerBytes + p.paddedSize

theorem tag_lt_limit (kind : PayloadKind) : kind.tag < ByteOrder.limit 4 := by
  cases kind <;> decide

/-- Over zeros a block is its header, its content and zeros. -/
theorem blockOver_zeros {order : ByteOrder} {p : Payload} :
    blockOver files order (Bytes.zeros (Payload.headerBytes + p.paddedSize)) p =
      header order p ++ (blockOf files p).body := by
  rw [blockOver, Bytes.drop_zeros, Nat.add_sub_add_left, blockOf]

/-- The first block stands in front of the others, which are written over the zeros that are left. -/
theorem blocksOver_zeros_cons {order : ByteOrder} {p : Payload} {ps : List Payload} :
    blocksOver files order (Bytes.zeros (extent (p :: ps))) (p :: ps) =
      (header order p ++ (blockOf files p).body) ++
        blocksOver files order (Bytes.zeros (extent ps)) ps := by
  have htake : min (Payload.headerBytes + p.paddedSize) (extent (p :: ps)) =
      Payload.headerBytes + p.paddedSize := by
    rw [extent_cons]
    omega
  have hdrop : extent (p :: ps) - (Payload.headerBytes + p.paddedSize) = extent ps := by
    rw [extent_cons]
    omega
  rw [blocksOver, Bytes.take_zeros, Bytes.drop_zeros, htake, hdrop, blockOver_zeros]

theorem length_body {p : Payload} (h : (p.content files).length ≤ p.paddedSize) :
    (blockOf files p).body.length = p.paddedSize := by
  rw [blockOf, List.length_append, Bytes.length_zeros]
  omega

/-- The two numbers of a header are read from the start of its block. -/
theorem get?_header {order : ByteOrder} {p : Payload} (h : p.headerValue < ByteOrder.limit 4)
    (rest : Bytes) :
    order.get? (header order p ++ rest) 0 4 = some p.kind.tag ∧
      order.get? (header order p ++ rest) 4 4 = some p.headerValue := by
  have htag := order.get?_append_encode [] (order.encode 4 p.headerValue ++ rest) 4 p.kind.tag
    (tag_lt_limit p.kind)
  have hsize := order.get?_append_encode (order.encode 4 p.kind.tag) rest 4 p.headerValue h
  rw [ByteOrder.length_encode] at hsize
  rw [header, List.append_assoc]
  exact ⟨htag, hsize⟩

/-- **Walking written blocks**: one block for each payload, in order, and nothing behind them. -/
theorem walk?_blocksOver {ps : List Payload} (hwritable : ∀ p ∈ ps, p.Writable files)
    (hpaced : ∀ p ∈ ps, Payload.Paced format.word p) :
    walk? format (blocksOver files format.order (Bytes.zeros (extent ps)) ps) =
      some (ps.map (blockOf files)) := by
  -- By induction on the payloads: the walk reads the first block and is left with the others.
  induction ps with
  | nil =>
    rw [blocksOver, walk?]
    rfl
  | cons p ps ih =>
    have hp := hwritable p (List.mem_cons_self ..)
    have hnext : stride format.word p.kind.tag p.headerValue = Payload.headerBytes + p.paddedSize :=
      hpaced p (List.mem_cons_self ..)
    have hlater := ih (fun q hq => hwritable q (List.mem_cons_of_mem _ hq))
      (fun q hq => hpaced q (List.mem_cons_of_mem _ hq))
    have hbody := length_body hp.fits
    rw [blocksOver_zeros_cons]
    -- From here on it does not matter what the later blocks are.
    generalize blocksOver files format.order (Bytes.zeros (extent ps)) ps = rest at hlater
    obtain ⟨htag, hsize⟩ := @get?_header format.order p hp.counted ((blockOf files p).body ++ rest)
    rw [← List.append_assoc] at htag hsize
    have hlen : (header format.order p ++ (blockOf files p).body).length =
        Payload.headerBytes + p.paddedSize := by
      rw [List.length_append, length_header, hbody]
    have hslice : Bytes.slice ((header format.order p ++ (blockOf files p).body) ++ rest) 8
        (Payload.headerBytes + p.paddedSize - 8) = (blockOf files p).body := by
      have h := Bytes.slice_append_self (header format.order p) (blockOf files p).body rest
      rw [length_header, hbody, ← List.append_assoc] at h
      rwa [show Payload.headerBytes + p.paddedSize - 8 = p.paddedSize from
        Nat.add_sub_cancel_left ..]
    have hnonempty : ((header format.order p ++ (blockOf files p).body) ++ rest).isEmpty = false := by
      rw [List.isEmpty_eq_false_iff, ← List.length_pos_iff, List.length_append, hlen]
      exact Nat.lt_of_lt_of_le (by decide : 0 < Payload.headerBytes) (by omega)
    rw [walk?, hnonempty]
    simp only [Bool.false_eq_true, if_false, htag, hsize, Option.bind_eq_bind, Option.bind_some, hnext]
    -- The header states the distance that the plan left, so the walk meets the next block.
    rw [dif_pos ⟨Nat.le_add_right .., by rw [List.length_append, hlen]; omega⟩, hslice,
      List.drop_left' hlen, hlater]
    rfl

/-! ## §3 Regions -/

/-- A plan whose total is the size of everything it plans. Every plan that is made of payloads is one.
-/
def Plan.Tight (plan : Plan) : Prop :=
  plan.totalSize = plan.format.word.infoSize + extent (plan.entries.map (·.payload))

/-- Over zeros a region is its record and its blocks, with nothing behind them. -/
theorem Plan.regionOver_zeros {plan : Plan} (htight : plan.Tight) :
    plan.regionOver files (Bytes.zeros plan.totalSize) =
      infoRecord plan.format (Bytes.zeros plan.totalSize) plan.totalSize ++
        blocksOver files plan.format.order (Bytes.zeros (extent (plan.entries.map (·.payload))))
          (plan.entries.map (·.payload)) := by
  rw [regionOver, Bytes.drop_zeros, show plan.totalSize - plan.format.word.infoSize =
    extent (plan.entries.map (·.payload)) by rw [htight]; omega]

/-- **Reading a region**: written over zeros, it holds the info record that was planned and one block
for each payload, in order, and it ends with the last block. -/
theorem read?_regionOver {plan : Plan} (htight : plan.Tight)
    (hcount : plan.totalSize < Size.bound32)
    (hwritable : ∀ p ∈ plan.entries.map (·.payload), p.Writable files)
    (hpaced : ∀ p ∈ plan.entries.map (·.payload), Payload.Paced plan.format.word p) :
    Info.read? plan.format (plan.regionOver files (Bytes.zeros plan.totalSize)) =
        some ⟨infoMagic, plan.format.word.infoSize, plan.totalSize⟩ ∧
      read? plan.format (plan.regionOver files (Bytes.zeros plan.totalSize)) =
        some ((plan.entries.map (·.payload)).map (blockOf files)) := by
  have hroom : plan.format.word.infoSize ≤ plan.totalSize := by
    rw [htight]
    omega
  have hlen : (plan.regionOver files (Bytes.zeros plan.totalSize)).length =
      (Bytes.zeros plan.totalSize).length := by
    refine plan.length_regionOver (fun p hp => (hwritable p hp).fits) (Nat.le_of_eq ?_)
    rw [Bytes.length_zeros, ← htight]
  have hinfo : Info.read? plan.format (plan.regionOver files (Bytes.zeros plan.totalSize)) =
      some ⟨infoMagic, plan.format.word.infoSize, plan.totalSize⟩ := by
    refine Info.read?_infoRecord (by rwa [Bytes.length_zeros]) (fun _ => hcount) ?_
    exact Nat.lt_trans hcount (by decide)
  refine ⟨hinfo, ?_⟩
  have hwalk := walk?_blocksOver hwritable hpaced
  have hrecord : (infoRecord plan.format (Bytes.zeros plan.totalSize) plan.totalSize).length =
      plan.format.word.infoSize := length_infoRecord (by rwa [Bytes.length_zeros])
  -- What follows the record is all of the blocks.
  have hslice : (plan.regionOver files (Bytes.zeros plan.totalSize)).slice plan.format.word.infoSize
      (plan.totalSize - plan.format.word.infoSize) =
        blocksOver files plan.format.order (Bytes.zeros (extent (plan.entries.map (·.payload))))
          (plan.entries.map (·.payload)) := by
    rw [Bytes.slice, List.take_of_length_le (Nat.le_of_eq (by rw [List.length_drop, hlen,
      Bytes.length_zeros])), plan.regionOver_zeros htight, List.drop_left' hrecord]
  rw [read?, hinfo]
  simp only [Option.bind_eq_bind, Option.bind_some]
  have htotal : plan.totalSize ≤ (plan.regionOver files (Bytes.zeros plan.totalSize)).length := by
    apply Nat.le_of_eq
    rw [hlen, Bytes.length_zeros]
  rw [if_pos ⟨trivial, hroom, htotal⟩, hslice, hwalk]

/-! ## §4 The payloads of inputs -/

/-- What a reader adds to the place of a header: the size in it, but for a public key. -/
theorem stride_eq (word : WordWidth) (kind : PayloadKind) (size : Nat) :
    stride word kind.tag size =
      match kind with
      | .publicKey => Payload.headerBytes + Alignment.roundUp word.bytes (size - Payload.headerBytes)
      | _ => size := by
  cases kind <;> rfl

/-- **The walk keeps to the plan**: the distance that a header states is the one that was left. -/
theorem paced_payload (word : WordWidth) (input : Input) :
    Payload.Paced word (input.payload files word) := by
  rw [Payload.Paced, stride_eq]
  -- The header of a public key counts the exact content, from which the stride is rounded again.
  cases hkind : input.kind with
  | publicKey =>
    simp only [Input.payload, Payload.headerValue, hkind, PayloadKind.paddedSize, Nat.add_sub_cancel]
  | _ => simp only [Input.payload, Payload.headerValue, hkind, PayloadKind.paddedSize, Nat.add_comm]

/-- An input with a content can be written where its header can count it. -/
theorem writable_payload {word : WordWidth} {input : Input} {content : Bytes}
    (h : input.source.content? files = some content)
    (hcounted : (input.payload files word).paddedSize + Payload.headerBytes < Size.bound32) :
    (input.payload files word).Writable files := by
  have hfits : (input.content files).length ≤ (input.payload files word).paddedSize :=
    input.kind.le_paddedSize word _
  refine ⟨⟨content, h⟩, hfits, Nat.lt_of_le_of_lt ?_ hcounted⟩
  have hraw : (input.payload files word).rawSize = (input.content files).length := rfl
  -- A header counts the padded content or, for a public key, something smaller.
  rw [Payload.headerValue]
  split
  · omega
  · exact Nat.le_refl _

end ModuleRegion

end BootImage
