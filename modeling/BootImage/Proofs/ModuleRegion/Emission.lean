import BootImage.ModuleRegion.Emission
import BootImage.Proofs.InPlace
import BootImage.Proofs.ModuleRegion.Planning
import BootImage.Proofs.Slices

/-!
# What is written into a module region

A written region in closed form: the info record, then block after block a header, the content, and
what was there before. Writing succeeds exactly when the room suffices, every content is there and
fits the room planned for it, and the numbers fit their fields.

- `blockOver`, `blocksOver`, `infoRecord`: the closed form.
- `writeBlock_eq_ok_iff`, `writeBlocks_eq_ok_iff`, `Plan.write_eq_ok_iff`: when writing succeeds, and
  what it leaves.
- `Plan.on_placing`, `Plan.place_eq_ok_iff`: the region behind the kernel or in front of it, whether the
  writing succeeds or not, and where it succeeds.
-/

namespace BootImage

/-! ## §1 Headers and contents -/

/-- The content of a payload, empty where there is none. -/
def Payload.content (files : FileSystem) (p : Payload) : Bytes := (p.source.content? files).getD []

/-- The exact size in the header of a payload. -/
def Payload.headerValue (p : Payload) : Nat :=
  match p.kind with
  | .publicKey => p.rawSize + headerBytes
  | _ => p.paddedSize + headerBytes

/-- A payload that can be written into a block of its size: its content is there and fits, and its
header can count it. -/
structure Payload.Writable (files : FileSystem) (p : Payload) : Prop where
  available : ∃ content, p.source.content? files = some content
  fits : (p.content files).length ≤ p.paddedSize
  counted : p.headerValue < Size.bound32

/-- A header counts its payload exactly, unless the sum is no size. -/
theorem Payload.headerSize_eq_ok_iff {p : Payload} {n : Nat} :
    p.headerSize = .ok n ↔ p.headerValue < Size.bound ∧ n = p.headerValue := by
  cases hkind : p.kind <;> simp only [headerSize, headerValue, hkind] <;> exact Size.add_eq_ok_iff

theorem Payload.headerSize_of_counted {p : Payload} (h : p.headerValue < Size.bound32) :
    p.headerSize = .ok p.headerValue :=
  headerSize_eq_ok_iff.2 ⟨Nat.lt_trans h (by decide), rfl⟩

/-- The header has a size that fits its field. -/
theorem Payload.counted_iff {p : Payload} :
    (∃ size, p.headerSize = .ok size ∧ size < Size.bound32) ↔ p.headerValue < Size.bound32 := by
  constructor
  · rintro ⟨size, hsize, hcounted⟩
    obtain ⟨-, rfl⟩ := headerSize_eq_ok_iff.1 hsize
    exact hcounted
  · intro h
    exact ⟨_, headerSize_of_counted h, h⟩

namespace ModuleRegion

/-! ## §2 Blocks -/

/-- The header of a payload. -/
def header (order : ByteOrder) (p : Payload) : Bytes :=
  order.encode 4 p.kind.tag ++ order.encode 4 p.headerValue

/-- A block with a payload over what the block held before. -/
def blockOver (files : FileSystem) (order : ByteOrder) (block : Bytes) (p : Payload) : Bytes :=
  header order p ++
    (p.content files ++ block.drop (Payload.headerBytes + (p.content files).length))

/-- Bytes with payloads over the blocks that follow each other. -/
def blocksOver (files : FileSystem) (order : ByteOrder) : Bytes → List Payload → Bytes
  | bytes, [] => bytes
  | bytes, p :: ps =>
    blockOver files order (bytes.take (Payload.headerBytes + p.paddedSize)) p ++
      blocksOver files order (bytes.drop (Payload.headerBytes + p.paddedSize)) ps

@[simp] theorem length_header (order : ByteOrder) (p : Payload) :
    (header order p).length = Payload.headerBytes := by
  rw [header, List.length_append, ByteOrder.length_encode, ByteOrder.length_encode]
  rfl

theorem length_blockOver {files : FileSystem} {order : ByteOrder} {block : Bytes} {p : Payload}
    (h : Payload.headerBytes + (p.content files).length ≤ block.length) :
    (blockOver files order block p).length = block.length := by
  simp only [blockOver, List.length_append, length_header, List.length_drop]
  omega

/-- The first block of some bytes keeps its full size where there is room for it. -/
theorem length_firstBlock {files : FileSystem} (order : ByteOrder) (bytes : Bytes) {p : Payload}
    (hfits : (p.content files).length ≤ p.paddedSize)
    (h : Payload.headerBytes + p.paddedSize ≤ bytes.length) :
    (blockOver files order (bytes.take (Payload.headerBytes + p.paddedSize)) p).length =
      Payload.headerBytes + p.paddedSize := by
  rw [length_blockOver (by rw [List.length_take]; omega), List.length_take]
  omega

/-- Payloads over blocks keep the length of all. -/
theorem length_blocksOver {files : FileSystem} {order : ByteOrder} {bytes : Bytes}
    {ps : List Payload} (hfits : ∀ p ∈ ps, (p.content files).length ≤ p.paddedSize)
    (h : extent ps ≤ bytes.length) :
    (blocksOver files order bytes ps).length = bytes.length := by
  induction ps generalizing bytes with
  | nil => rfl
  | cons p ps ih =>
    -- The first block keeps its share, and by induction the others keep the rest.
    rw [extent_cons] at h
    have hp := hfits p (List.mem_cons_self ..)
    have hrest : (blocksOver files order (bytes.drop (Payload.headerBytes + p.paddedSize)) ps).length =
        (bytes.drop (Payload.headerBytes + p.paddedSize)).length :=
      ih (fun q hq => hfits q (List.mem_cons_of_mem _ hq)) (by rw [List.length_drop]; omega)
    rw [blocksOver, List.length_append, hrest, length_firstBlock order bytes hp (by omega), List.length_drop]
    omega

/-- Putting tag, size and content one after the other over a block. -/
theorem overlay_block (order : ByteOrder) (block content : Bytes) (tag size : Nat) :
    ((block.overlay 0 (order.encode 4 tag)).overlay 4 (order.encode 4 size)).overlay
        Payload.headerBytes content =
      (order.encode 4 tag ++ order.encode 4 size) ++
        (content ++ block.drop (Payload.headerBytes + content.length)) := by
  -- Each of the three pieces starts where the one before it ends.
  have htag : block.overlay 0 (order.encode 4 tag) = order.encode 4 tag ++ block.drop 4 := by
    simpa using Bytes.overlay_append [] block (order.encode 4 tag)
  have hsize := Bytes.overlay_append (order.encode 4 tag) (block.drop 4) (order.encode 4 size)
  have hcontent := Bytes.overlay_append (order.encode 4 tag ++ order.encode 4 size) (block.drop 8)
    content
  rw [ByteOrder.length_encode, ByteOrder.length_encode, List.drop_drop] at hsize
  rw [List.length_append, ByteOrder.length_encode, ByteOrder.length_encode, List.drop_drop]
    at hcontent
  rw [htag, hsize, ← List.append_assoc]
  exact hcontent

/-- The last step of writing a payload: the content has to be there and to keep to its room, whether it
is read from a file or given. -/
theorem contentStep_eq_ok_iff {files : FileSystem} {p : Payload} {block out : Bytes} :
    (match p.source with
      | .file path => do
        let content ← files.readWithin path p.paddedSize
        (.ok (block.overlay Payload.headerBytes content) : Result Bytes)
      | .bytes content =>
        if content.length ≤ p.paddedSize then .ok (block.overlay Payload.headerBytes content)
        else fault .outOfRange) = .ok out ↔
      (∃ content, p.source.content? files = some content) ∧
        (p.content files).length ≤ p.paddedSize ∧
        out = block.overlay Payload.headerBytes (p.content files) := by
  rw [Payload.content]
  -- A file is measured while it is read, given bytes are measured before they are copied.
  cases p.source with
  | file path =>
    simp only [bind_eq_ok_iff, FileSystem.readWithin_eq_ok_iff, PayloadSource.content?]
    refine ⟨?_, ?_⟩
    · intro h
      rcases h with ⟨content, ⟨hcontent, hfits⟩, h⟩
      cases h
      rw [hcontent]
      exact ⟨⟨content, rfl⟩, hfits, rfl⟩
    · intro h
      rcases h with ⟨⟨content, hcontent⟩, hfits, rfl⟩
      rw [hcontent] at hfits ⊢
      exact ⟨content, ⟨rfl, hfits⟩, rfl⟩
  | bytes content =>
    simp only [PayloadSource.content?, Option.getD_some]
    refine ⟨?_, ?_⟩
    · intro h
      split at h
      · rename_i hfits
        cases h
        exact ⟨⟨content, rfl⟩, hfits, rfl⟩
      · cases h
    · intro h
      rcases h with ⟨-, hfits, rfl⟩
      exact if_pos hfits

/-- **Writing one payload**: it succeeds exactly when the payload can be written and the block has
the room planned for it. -/
theorem writeBlock_eq_ok_iff {files : FileSystem} {order : ByteOrder} {block out : Bytes}
    {p : Payload} {u : Unit} :
    (writeBlock files order p).on block = (.ok u, out) ↔
      p.Writable files ∧ Payload.headerBytes + p.paddedSize ≤ block.length ∧
        out = blockOver files order block p := by
  have hheader : Payload.headerBytes = 8 := rfl
  simp only [writeBlock, InPlace.on_bind_eq_ok_iff, InPlace.on_edit_eq_ok_iff,
    InPlace.on_check_eq_ok_iff]
  constructor
  · intro h
    rcases h with ⟨-, tagged, htag, _, _, ⟨hsize, rfl⟩, _, _, ⟨hcount, rfl⟩, -, sized, hsized, h⟩
    obtain ⟨-, rfl⟩ := ByteOrder.put_eq_ok_iff.1 htag
    obtain ⟨-, rfl⟩ := Payload.headerSize_eq_ok_iff.1 hsize
    obtain ⟨hcounted, rfl⟩ := Size.to32_eq_ok_iff.1 hcount
    -- The two header fields do not change the length that the room is measured against.
    have hlen : sized.length = block.length := by
      rw [ByteOrder.length_of_put hsized, ByteOrder.length_of_put htag]
    obtain ⟨-, rfl⟩ := ByteOrder.put_eq_ok_iff.1 hsized
    split at h
    · simp at h
    · rename_i hroom
      rw [hlen] at hroom
      obtain ⟨havailable, hfits, rfl⟩ := contentStep_eq_ok_iff.1 h
      refine ⟨⟨havailable, hfits, hcounted⟩, by omega, ?_⟩
      rw [overlay_block, blockOver, header]
  · intro h
    rcases h with ⟨⟨havailable, hfits, hcounted⟩, hroom, rfl⟩
    have hbound : Size.bound32 < Size.bound := by decide
    have hlen : (block.overlay 0 (order.encode 4 p.kind.tag)).length = block.length :=
      Bytes.length_overlay (by rw [ByteOrder.length_encode]; omega)
    -- Tag, size and content, each with the check in front of it.
    refine ⟨(), _, ByteOrder.put_eq_ok_iff.2 ⟨by omega, rfl⟩, _, _,
      ⟨Payload.headerSize_eq_ok_iff.2 ⟨by omega, rfl⟩, rfl⟩, _, _,
      ⟨Size.to32_eq_ok_iff.2 ⟨hcounted, rfl⟩, rfl⟩, (), _,
      ByteOrder.put_eq_ok_iff.2 ⟨by omega, rfl⟩, ?_⟩
    have hlen' : ((block.overlay 0 (order.encode 4 p.kind.tag)).overlay 4
        (order.encode 4 p.headerValue)).length = block.length := by
      rw [Bytes.length_overlay (by rw [ByteOrder.length_encode]; omega), hlen]
    rw [if_neg (by omega), blockOver, header, ← overlay_block]
    exact contentStep_eq_ok_iff.2 ⟨havailable, hfits, rfl⟩

/-- **Writing payloads one behind the other.** -/
theorem writeBlocks_eq_ok_iff {files : FileSystem} {order : ByteOrder} {offset finish : Nat}
    {bytes out : Bytes} {ps : List Payload} :
    (writeBlocks files order offset ps).on bytes = (.ok finish, out) ↔
      (∀ p ∈ ps, p.Writable files) ∧ extent ps ≤ bytes.length ∧ finish = offset + extent ps ∧
        out = blocksOver files order bytes ps := by
  -- By induction on the payloads; the first takes its share of the bytes, the others the rest.
  induction ps generalizing offset bytes finish out with
  | nil =>
    rw [writeBlocks, InPlace.on_pure, Prod.mk.injEq, Except.ok.injEq, extent_nil, Nat.add_zero,
      blocksOver]
    constructor
    · intro h
      rcases h with ⟨rfl, rfl⟩
      exact ⟨fun p hp => absurd hp List.not_mem_nil, Nat.zero_le _, rfl, rfl⟩
    · intro h
      rcases h with ⟨-, -, rfl, rfl⟩
      exact ⟨rfl, rfl⟩
  | cons p ps ih =>
    simp only [writeBlocks, InPlace.on_bind_eq_ok_iff, InPlace.on_within_eq_ok_iff,
      InPlace.on_behind_eq_ok_iff, List.forall_mem_cons, extent_cons, blocksOver, writeBlock_eq_ok_iff,
      ih, List.take_zero, List.nil_append, Nat.zero_add, Bytes.slice_zero, List.length_take]
    constructor
    · intro h
      rcases h with ⟨-, _, ⟨_, ⟨hp, hroom, rfl⟩, rfl⟩, _, ⟨hps, hextent, rfl, rfl⟩, rfl⟩
      -- The first block keeps its size, so the others start behind it.
      have hblock := length_firstBlock order bytes hp.fits (Nat.le_trans hroom (Nat.min_le_right ..))
      rw [List.drop_left' hblock] at hextent ⊢
      rw [List.take_left' hblock]
      rw [List.length_drop] at hextent
      exact ⟨⟨hp, hps⟩, by omega, by omega, rfl⟩
    · intro h
      rcases h with ⟨⟨hp, hps⟩, hextent, rfl, rfl⟩
      have hblock := length_firstBlock order bytes hp.fits (by omega)
      refine ⟨(), _, ⟨_, ⟨hp, by omega, rfl⟩, rfl⟩, _, ⟨hps, ?_, by omega, rfl⟩, ?_⟩
      · rw [List.drop_left' hblock, List.length_drop]
        omega
      · rw [List.take_left' hblock, List.drop_left' hblock]

/-! ## §3 The info record -/

/-- The info record of a region of `total` bytes. The 64-bit record keeps what `region` held in its
pad word. -/
def infoRecord (format : WordFormat) (region : Bytes) (total : Nat) : Bytes :=
  match format.word with
  | .w32 =>
    (format.order.encode 4 infoMagic ++ format.order.encode 4 WordWidth.w32.infoSize) ++
      format.order.encode 4 total
  | .w64 =>
    (format.order.encode 4 infoMagic ++ region.slice 4 4) ++
      (format.order.encode 8 WordWidth.w64.infoSize ++ format.order.encode 8 total)

/-- A record has the length of its word width, also where it takes its pad word from the region. -/
theorem length_infoRecord {format : WordFormat} {region : Bytes} {total : Nat}
    (h : format.word.infoSize ≤ region.length) :
    (infoRecord format region total).length = format.word.infoSize := by
  cases hword : format.word with
  | w32 =>
    simp only [infoRecord, hword, List.length_append, ByteOrder.length_encode]
    rfl
  | w64 =>
    -- The pad word has its four bytes because the region reaches behind the record.
    have hpad : (region.slice 4 4).length = 4 := by
      refine Bytes.length_slice_of_le (Nat.le_trans ?_ h)
      rw [hword]
      decide
    simp only [infoRecord, hword, List.length_append, ByteOrder.length_encode, hpad]
    rfl

/-- The wide record, put together from the numbers written into a region. -/
theorem overlay_info_w64 {order : ByteOrder} {region : Bytes} {magic offset total : Nat}
    (h : 24 ≤ region.length) :
    ((region.overlay 0 (order.encode 4 magic)).overlay 8 (order.encode 8 offset)).overlay 16
        (order.encode 8 total) =
      (order.encode 4 magic ++ region.slice 4 4) ++ (order.encode 8 offset ++ order.encode 8 total) ++
        region.drop 24 := by
  have hpad : (region.slice 4 4).length = 4 := Bytes.length_slice_of_le (by omega)
  -- The pad word is not written, so it is what the region held behind the magic number.
  have hmagic : region.overlay 0 (order.encode 4 magic) =
      (order.encode 4 magic ++ region.slice 4 4) ++ region.drop 8 := by
    have hover : region.overlay 0 (order.encode 4 magic) = order.encode 4 magic ++ region.drop 4 := by
      simpa using Bytes.overlay_append [] region (order.encode 4 magic)
    have hsplit : region.drop 4 = region.slice 4 4 ++ region.drop 8 := by
      rw [Bytes.slice, ← List.drop_drop (i := 4) (j := 4), List.take_append_drop]
    rw [hover, hsplit, List.append_assoc]
  have hoffset := Bytes.overlay_append (order.encode 4 magic ++ region.slice 4 4) (region.drop 8)
    (order.encode 8 offset)
  have htotal := Bytes.overlay_append
    ((order.encode 4 magic ++ region.slice 4 4) ++ order.encode 8 offset) (region.drop 16)
    (order.encode 8 total)
  simp only [List.length_append, ByteOrder.length_encode, hpad, List.drop_drop] at hoffset htotal
  rw [hmagic, hoffset, ← List.append_assoc, htotal]
  simp only [List.append_assoc]

/-- The narrow record has the shape of a block, with the total size for a content. -/
theorem overlay_info_w32 {order : ByteOrder} {region : Bytes} {magic offset total : Nat} :
    ((region.overlay 0 (order.encode 4 magic)).overlay 4 (order.encode 4 offset)).overlay 8
        (order.encode 4 total) =
      (order.encode 4 magic ++ order.encode 4 offset) ++ order.encode 4 total ++ region.drop 12 := by
  have h := overlay_block order region (order.encode 4 total) magic offset
  rw [ByteOrder.length_encode, ← List.append_assoc] at h
  exact h

theorem takes_word {value : Nat} : ByteOrder.Takes 4 value ↔ value < Size.bound32 := by
  have hlimit : ByteOrder.limit 4 = Size.bound32 := by decide
  simp [ByteOrder.Takes, hlimit]

/-- **Writing the info record**: a narrow one has to be able to count the region. -/
theorem Plan.writeInfo_eq_ok_iff {plan : Plan} {region out : Bytes} {u : Unit} :
    plan.writeInfo.on region = (.ok u, out) ↔
      plan.format.word.infoSize ≤ region.length ∧
        (plan.format.word = .w32 → plan.totalSize < Size.bound32) ∧
        out = infoRecord plan.format region plan.totalSize ++
          region.drop plan.format.word.infoSize := by
  -- Every number is measured against the buffer that the one before it left.
  have hlen₁ : 4 ≤ region.length →
      (region.overlay 0 (plan.format.order.encode 4 infoMagic)).length = region.length := fun h =>
    Bytes.length_overlay (by rw [ByteOrder.length_encode]; omega)
  simp only [writeInfo, InPlace.on_bind_eq_ok_iff, InPlace.on_edit_eq_ok_iff,
    WordFormat.putAt_eq_ok_iff]
  -- One case for each record; the three numbers lie one behind the other in both.
  cases hword : plan.format.word with
  | w32 =>
    have hlen₂ : 8 ≤ region.length → ((region.overlay 0 (plan.format.order.encode 4 infoMagic)).overlay
        4 (plan.format.order.encode 4 WordWidth.w32.infoSize)).length = region.length := fun h => by
      rw [Bytes.length_overlay (by rw [ByteOrder.length_encode, hlen₁ (by omega)]; omega),
        hlen₁ (by omega)]
    simp only [WordWidth.infoPlace, infoRecord, hword, Nat.zero_add, forall_const, takes_word]
    constructor
    · intro h
      rcases h with ⟨-, _, ⟨-, -, h₁, rfl⟩, -, _, ⟨-, -, h₂, rfl⟩, -, hcount, h₃, rfl⟩
      rw [hlen₁ h₁] at h₂
      rw [hlen₂ h₂] at h₃
      exact ⟨h₃, hcount, overlay_info_w32⟩
    · intro h
      rcases h with ⟨hlen, hcount, rfl⟩
      have h₃ : 12 ≤ region.length := hlen
      refine ⟨(), _, ⟨by decide, by decide, by omega, rfl⟩, (), _, ⟨by decide, by decide, ?_, rfl⟩,
        by decide, hcount, ?_, overlay_info_w32.symm⟩
      · rw [hlen₁ (by omega)]
        omega
      · rw [hlen₂ (by omega)]
        omega
  | w64 =>
    have hlen₂ : 16 ≤ region.length → ((region.overlay 0 (plan.format.order.encode 4
        infoMagic)).overlay 8 (plan.format.order.encode 8 WordWidth.w64.infoSize)).length =
          region.length := fun h => by
      rw [Bytes.length_overlay (by rw [ByteOrder.length_encode, hlen₁ (by omega)]; omega),
        hlen₁ (by omega)]
    simp only [WordWidth.infoPlace, infoRecord, hword, Nat.zero_add]
    constructor
    · intro h
      rcases h with ⟨-, _, ⟨-, -, h₁, rfl⟩, -, _, ⟨-, -, h₂, rfl⟩, -, -, h₃, rfl⟩
      rw [hlen₁ h₁] at h₂
      rw [hlen₂ h₂] at h₃
      exact ⟨h₃, by simp, overlay_info_w64 h₃⟩
    · intro h
      rcases h with ⟨hlen, -, rfl⟩
      have h₃ : 24 ≤ region.length := hlen
      refine ⟨(), _, ⟨by decide, takes_word.2 (by decide), by omega, rfl⟩, (), _,
        ⟨by decide, .inr (.inr rfl), ?_, rfl⟩, by decide, .inr (.inr rfl), ?_, (overlay_info_w64 h₃).symm⟩
      · rw [hlen₁ (by omega)]
        omega
      · rw [hlen₂ (by omega)]
        omega

/-! ## §4 Regions -/

/-- What a plan leaves of a region. -/
def Plan.regionOver (plan : Plan) (files : FileSystem) (region : Bytes) : Bytes :=
  infoRecord plan.format region plan.totalSize ++
    blocksOver files plan.format.order (region.drop plan.format.word.infoSize)
      (plan.entries.map (·.payload))

/-- **Writing a region**: the room has to suffice, every payload has to be writable, and a narrow
info record has to be able to count the region. -/
theorem Plan.write_eq_ok_iff {plan : Plan} {files : FileSystem} {region out : Bytes} {finish : Nat} :
    plan.write files region = .ok (finish, out) ↔
      plan.totalSize ≤ region.length ∧
        plan.format.word.infoSize + extent (plan.entries.map (·.payload)) ≤ region.length ∧
        (plan.format.word = .w32 → plan.totalSize < Size.bound32) ∧
        (∀ p ∈ plan.entries.map (·.payload), p.Writable files) ∧
        finish = plan.format.word.infoSize + extent (plan.entries.map (·.payload)) ∧
        out = plan.regionOver files region := by
  -- Behind the record, the region is what it was.
  have hrecord : ∀ rest : Bytes, plan.format.word.infoSize ≤ region.length →
      (infoRecord plan.format region plan.totalSize ++ rest).take plan.format.word.infoSize =
        infoRecord plan.format region plan.totalSize ∧
      (infoRecord plan.format region plan.totalSize ++ rest).drop plan.format.word.infoSize = rest :=
    fun rest h => ⟨List.take_left' (length_infoRecord h), List.drop_left' (length_infoRecord h)⟩
  rw [write, InPlace.outcome_eq_ok_iff, writing]
  simp only [InPlace.on_bind_eq_ok_iff, InPlace.on_check_eq_ok_iff, guard_eq_ok_iff,
    InPlace.on_behind_eq_ok_iff, writeInfo_eq_ok_iff, writeBlocks_eq_ok_iff]
  -- The room is checked first, then the record is written, and the blocks behind it.
  constructor
  · intro h
    rcases h with ⟨-, _, ⟨⟨hroom, -⟩, rfl⟩, -, _, ⟨hsize, hcount, rfl⟩, _,
      ⟨hwritable, hextent, rfl, rfl⟩, rfl⟩
    obtain ⟨htake, hdrop⟩ := hrecord (region.drop plan.format.word.infoSize) hsize
    rw [hdrop, List.length_drop] at hextent
    refine ⟨by omega, by omega, hcount, hwritable, rfl, ?_⟩
    rw [htake, hdrop]
    rfl
  · intro h
    rcases h with ⟨hroom, hextent, hcount, hwritable, rfl, rfl⟩
    obtain ⟨htake, hdrop⟩ := hrecord (region.drop plan.format.word.infoSize) (by omega)
    refine ⟨(), _, ⟨⟨by omega, trivial⟩, rfl⟩, (), _, ⟨by omega, hcount, rfl⟩, _,
      ⟨hwritable, ?_, rfl, rfl⟩, ?_⟩
    · rw [hdrop, List.length_drop]
      omega
    · rw [htake, hdrop]
      rfl

theorem Plan.length_regionOver {plan : Plan} {files : FileSystem} {region : Bytes}
    (hfits : ∀ p ∈ plan.entries.map (·.payload), (p.content files).length ≤ p.paddedSize)
    (h : plan.format.word.infoSize + extent (plan.entries.map (·.payload)) ≤ region.length) :
    (plan.regionOver files region).length = region.length := by
  rw [regionOver, List.length_append, length_infoRecord (by omega),
    length_blocksOver hfits (by rw [List.length_drop]; omega), List.length_drop]
  omega

/-! ## §5 Placement -/

/-- The bytes that the region is written over: zeros where the modules go first, else what the
kernel image holds behind the kernel. -/
def Plan.ground (plan : Plan) (t : Target) (image : Bytes) (kernelSize : Nat) : Bytes :=
  if t.modulesFirst then Bytes.zeros plan.totalSize else image.slice kernelSize plan.totalSize

theorem Plan.length_ground {plan : Plan} (t : Target) {image : Bytes} {kernelSize : Nat}
    (h : kernelSize + plan.totalSize ≤ image.length) :
    (plan.ground t image kernelSize).length = plan.totalSize := by
  rw [ground]
  split
  · exact Bytes.length_zeros _
  · exact Bytes.length_slice_of_le h

/-- The kernel image with the region where the target wants it. -/
def assemble (t : Target) (kernel region : Bytes) : Bytes :=
  if t.modulesFirst then region ++ kernel else kernel ++ region

theorem length_assemble (t : Target) (kernel region : Bytes) :
    (assemble t kernel region).length = kernel.length + region.length := by
  rw [assemble]
  split
  · rw [List.length_append, Nat.add_comm]
  · rw [List.length_append]

/-- The kernel moved up behind the room for the region, and the room set to zero. The kernel is copied
as it was, also where it is longer than the room and the copy starts inside of it. -/
theorem overlay_moved {image : Bytes} {kernelSize room : Nat}
    (h : kernelSize + room ≤ image.length) :
    (image.overlay room (image.slice 0 kernelSize)).overlay 0 (Bytes.zeros room) =
      Bytes.zeros room ++ (image.take kernelSize ++ image.drop (kernelSize + room)) := by
  have hfront : (image.take room).length = room := by
    rw [List.length_take]
    omega
  have hkernel : (image.take kernelSize).length = kernelSize := by
    rw [List.length_take]
    omega
  -- The kernel is copied as a whole, before the zeros go over what it leaves in front.
  rw [Bytes.slice_zero, Bytes.overlay, Bytes.overlay, List.take_zero, List.nil_append, Nat.zero_add,
    Bytes.length_zeros, hkernel, List.drop_left' hfront, Nat.add_comm room]

/-- What placing makes of an image that has room for the region. The region is written over the ground,
and goes where the target wants it, whether the writing succeeds or not. -/
theorem Plan.on_placing {plan : Plan} (files : FileSystem) (t : Target) {image : Bytes}
    {kernelSize : Nat} (hbound : kernelSize + plan.totalSize < Size.bound)
    (hroom : kernelSize + plan.totalSize ≤ image.length) :
    (plan.placing files t kernelSize).on image =
      (((plan.writing files).on (plan.ground t image kernelSize)).1.map fun _ => (),
        assemble t (image.take kernelSize)
            ((plan.writing files).on (plan.ground t image kernelSize)).2 ++
          image.drop (kernelSize + plan.totalSize)) := by
  rw [placing, InPlace.on_bind, InPlace.on_check, Size.add_of_lt hbound]
  dsimp only
  rw [InPlace.on_bind, InPlace.on_check, if_neg (Nat.not_lt.2 hroom)]
  dsimp only
  rw [ground, assemble]
  -- Only a region in front of the kernel moves anything.
  cases t.modulesFirst with
  | true =>
    have hkernel : (image.slice 0 kernelSize).length = kernelSize :=
      Bytes.length_slice_of_le (by omega)
    have hclear : plan.totalSize ≤
        (image.overlay plan.totalSize (image.slice 0 kernelSize)).length := by
      rw [Bytes.length_overlay (by omega)]
      omega
    have hzeros : (Bytes.zeros plan.totalSize).length = plan.totalSize := Bytes.length_zeros _
    simp only [if_true]
    rw [InPlace.on_bind, InPlace.on_copyWithin (by omega) (by omega)]
    dsimp only
    rw [InPlace.on_bind, InPlace.on_clear hclear, overlay_moved hroom]
    dsimp only
    -- The region takes the room in front of the moved kernel.
    rw [InPlace.on_bind, InPlace.on_within, Bytes.slice_zero, List.take_left' hzeros, Nat.zero_add,
      List.drop_left' hzeros, List.take_zero, List.nil_append, ← List.append_assoc]
    cases ((plan.writing files).on (Bytes.zeros plan.totalSize)).1 <;> rfl
  | false =>
    simp only [Bool.false_eq_true, if_false]
    rw [InPlace.on_bind, InPlace.on_within, ← List.append_assoc]
    cases ((plan.writing files).on (image.slice kernelSize plan.totalSize)).1 <;> rfl

/-- **Placing a region**: it succeeds exactly when the image has room for it and it can be written
there. -/
theorem Plan.place_eq_ok_iff {plan : Plan} {files : FileSystem} {t : Target} {image out : Bytes}
    {kernelSize : Nat} :
    plan.place files t image kernelSize = .ok out ↔
      kernelSize + plan.totalSize < Size.bound ∧ kernelSize + plan.totalSize ≤ image.length ∧
        ∃ finish region, plan.write files (plan.ground t image kernelSize) = .ok (finish, region) ∧
          out = assemble t (image.take kernelSize) region ++
            image.drop (kernelSize + plan.totalSize) := by
  rw [place, bind_eq_ok_iff]
  constructor
  · intro h
    rcases h with ⟨⟨u, placed⟩, hplaced, h⟩
    cases h
    rw [InPlace.outcome_eq_ok_iff] at hplaced
    -- The two checks come first, so the image has room for the region.
    obtain ⟨hbound, hroom⟩ : kernelSize + plan.totalSize < Size.bound ∧
        kernelSize + plan.totalSize ≤ image.length := by
      simp only [placing, InPlace.on_bind_eq_ok_iff, InPlace.on_check_eq_ok_iff, Size.add_eq_ok_iff,
        guard_eq_ok_iff] at hplaced
      rcases hplaced with ⟨_, _, ⟨⟨hbound, rfl⟩, rfl⟩, _, _, ⟨⟨hroom, -⟩, rfl⟩, -⟩
      exact ⟨hbound, by omega⟩
    rw [on_placing files t hbound hroom, Prod.mk.injEq] at hplaced
    obtain ⟨hwrite, rfl⟩ := hplaced
    obtain ⟨finish, hwrite, -⟩ := map_eq_ok_iff.1 hwrite
    exact ⟨hbound, hroom, finish, _, InPlace.outcome_eq_ok_iff.2 (Prod.ext hwrite rfl), rfl⟩
  · intro h
    rcases h with ⟨hbound, hroom, finish, region, hwrite, rfl⟩
    refine ⟨((), _), InPlace.outcome_eq_ok_iff.2 ?_, rfl⟩
    rw [on_placing files t hbound hroom, InPlace.outcome_eq_ok_iff.1 hwrite]
    rfl

end ModuleRegion

end BootImage
