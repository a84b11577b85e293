import BootImage.Proofs.ModuleRegion.Agreement
import BootImage.Proofs.Patches

/-!
# What writing a module region changes

The plan of a region places its payloads with one cursor, and the region is written with another one.
Both go through the same sizes, so each payload is written where it was planned. Over bytes that may hold
anything, nothing is written but the numbers of the info record, the two numbers of each header, and the
contents.

- `Payload.MadeFor`: the payloads that can be made for a target.
- `Plan.LaidOut`: the layout of a plan.
- `Plan.patches`, `Plan.regionOver_eq_patched`: a written region as patches over what was there.
- `Plan.Wrote`: what a written region holds, and what it keeps.
- `Plan.write_of_ofPayloads`: when a plan is written, and what is written.
-/

namespace BootImage

/-! ## §1 Payloads made for a target -/

/-- The payloads that can be made for a target: of a file, of a prefix, or of given bytes. -/
inductive Payload.MadeFor (files : FileSystem) (t : Target) : Payload → Prop where
  /-- The payload of a file. -/
  | ofFile {kind : PayloadKind} {path : Path} {p : Payload} :
      Payload.ofFile files t kind path = .ok p → MadeFor files t p
  /-- The payload of a prefix. -/
  | ofPrefix {text : String} {p : Payload} : Payload.ofPrefix t text = .ok p → MadeFor files t p
  /-- The payload of given bytes. -/
  | ofBytes {kind : PayloadKind} {content : Bytes} {p : Payload} :
      Payload.make t kind (.bytes content) content.length = .ok p → MadeFor files t p

/-- A payload whose sizes are those of its content, in whole words. -/
structure Payload.Measured (files : FileSystem) (word : WordWidth) (p : Payload) : Prop where
  available : ∃ content, p.source.content? files = some content ∧ content.length = p.rawSize
  fits : p.rawSize ≤ p.paddedSize
  whole : word.bytes ∣ p.paddedSize

/-- Padding ends at a whole word. -/
theorem PayloadKind.dvd_paddedSize (word : WordWidth) (kind : PayloadKind) (size : Nat) :
    word.bytes ∣ kind.paddedSize word size := by
  cases kind <;> exact Alignment.dvd_roundUp _ _

section Measured

variable {files : FileSystem} {t : Target} {word : WordWidth} {p : Payload}

/-- Planning measures the content it will find. -/
theorem Input.measured_payload {input : Input} (h : input.Plannable files word) :
    (input.payload files word).Measured files word := by
  obtain ⟨⟨content, hcontent⟩, -⟩ := h
  refine ⟨⟨content, hcontent, ?_⟩, input.kind.le_paddedSize word _, input.kind.dvd_paddedSize word _⟩
  show content.length = (input.content files).length
  rw [Input.content_eq hcontent]

/-- However a payload was made, its sizes are those of its content. -/
theorem Payload.MadeFor.measured (h : Payload.MadeFor files t p) :
    p.Measured files t.format.word := by
  -- One case for each way to make a payload, all of which come down to its content.
  cases h with
  | ofFile h =>
    obtain ⟨hplannable, rfl⟩ := Payload.ofFile_eq_ok_iff.1 h
    exact Input.measured_payload hplannable
  | ofPrefix h =>
    obtain ⟨hplannable, rfl⟩ := (@Payload.ofPrefix_eq_ok_iff files _ _ _).1 h
    exact Input.measured_payload hplannable
  | @ofBytes kind content p h =>
    obtain ⟨-, rfl⟩ := Payload.make_eq_ok_iff.1 h
    exact ⟨⟨content, rfl, rfl⟩, kind.le_paddedSize _ _, kind.dvd_paddedSize _ _⟩

/-- The raw size is the length of the content. -/
theorem Payload.Measured.length_content (h : p.Measured files word) :
    (p.content files).length = p.rawSize := by
  obtain ⟨content, hcontent, hlength⟩ := h.available
  rw [Payload.content, hcontent]
  exact hlength

/-- A content never reaches into the next block. -/
theorem Payload.Measured.content_le (h : p.Measured files word) :
    (p.content files).length ≤ p.paddedSize := by
  rw [h.length_content]
  exact h.fits

/-- A measured payload can be written exactly where its header can count it. -/
theorem Payload.Measured.writable_iff (h : p.Measured files word) :
    p.Writable files ↔ ∃ size, p.headerSize = .ok size ∧ size < Size.bound32 := by
  rw [counted_iff]
  constructor
  · exact fun hp => hp.counted
  · intro hcounted
    obtain ⟨content, hcontent, -⟩ := h.available
    exact ⟨⟨content, hcontent⟩, h.content_le, hcounted⟩

end Measured

namespace ModuleRegion

/-! ## §2 The layout of a plan -/

/-- The offset behind an entry. -/
def Entry.finish (entry : Entry) : Nat :=
  entry.offset + (Payload.headerBytes + entry.payload.paddedSize)

/-- A plan that places some payloads in their order: the first behind the info record, each of the others
where the one before it ends, all of them at whole words, and the last one ends the region. -/
structure Plan.LaidOut (plan : Plan) (ps : List Payload) : Prop where
  order : plan.entries.map (·.payload) = ps
  first : ∀ entry ∈ plan.entries.head?, entry.offset = plan.format.word.infoSize
  next : plan.entries.IsChain fun entry later => later.offset = entry.finish
  aligned : ∀ entry ∈ plan.entries, plan.format.word.bytes ∣ entry.offset
  total : plan.totalSize = (plan.entries.getLast?.map Entry.finish).getD plan.format.word.infoSize

section Spread

variable {start : Nat} {ps : List Payload}

/-- Each payload starts where the one before it ends. -/
theorem isChain_spread :
    (spread start ps).IsChain fun entry later => later.offset = entry.finish := by
  induction ps generalizing start with
  | nil => exact .nil
  | cons p ps ih =>
    cases ps with
    | nil => exact .singleton _
    | cons q qs => exact .cons_cons rfl ih

/-- The last payload ends behind all that they take up together. -/
theorem finish_getLast_spread :
    ((spread start ps).getLast?.map Entry.finish).getD start = start + extent ps := by
  induction ps generalizing start with
  | nil => rfl
  | cons p ps ih =>
    -- The last entry is the last of the later ones, or the first one if there are no others.
    have hlast := @ih (start + (Payload.headerBytes + p.paddedSize))
    rw [extent_cons, ← Nat.add_assoc start (Payload.headerBytes + p.paddedSize), ← hlast, spread,
      List.getLast?_cons]
    cases (spread (start + (Payload.headerBytes + p.paddedSize)) ps).getLast? <;> rfl

/-- From an aligned offset on, payloads of whole words are aligned. -/
theorem dvd_offset_of_mem_spread {word : WordWidth} (hstart : word.bytes ∣ start)
    (hwhole : ∀ p ∈ ps, word.bytes ∣ p.paddedSize) :
    ∀ entry ∈ spread start ps, word.bytes ∣ entry.offset := by
  have hheader : word.bytes ∣ Payload.headerBytes := by cases word <;> decide
  -- By induction on the payloads; a header and whole words lead from one aligned offset to the next.
  induction ps generalizing start with
  | nil => simp [spread]
  | cons p ps ih =>
    rw [List.forall_mem_cons] at hwhole
    rw [spread, List.forall_mem_cons]
    exact ⟨hstart, ih (Nat.dvd_add hstart (Nat.dvd_add hheader hwhole.1)) hwhole.2⟩

end Spread

theorem dvd_infoSize (word : WordWidth) : word.bytes ∣ word.infoSize := by cases word <;> decide

/-- **Planning lays payloads out** one behind the other. -/
theorem Plan.laidOut_of_ofPayloads {format : WordFormat} {ps : List Payload} {plan : Plan}
    (hwhole : ∀ p ∈ ps, format.word.bytes ∣ p.paddedSize)
    (h : Plan.ofPayloads format ps = .ok plan) : plan.LaidOut ps := by
  obtain ⟨-, rfl⟩ := ofPayloads_eq_ok_iff.1 h
  refine ⟨map_payload_spread _ _, ?_, isChain_spread, ?_, finish_getLast_spread.symm⟩
  · intro entry hentry
    cases ps with
    | nil => cases hentry
    | cons p ps =>
      cases hentry
      rfl
  · exact dvd_offset_of_mem_spread (dvd_infoSize format.word) hwhole

/-! ## §3 A written region as patches -/

/-- The value of a field of the info record. -/
def Plan.infoValue (plan : Plan) : InfoField → Nat
  | .magic => infoMagic
  | .offset => plan.format.word.infoSize
  | .size => plan.totalSize

/-- The fields of the info record, in their order. -/
def infoFields : List InfoField := [.magic, .offset, .size]

/-- The numbers of the info record. -/
def Plan.infoPatches (plan : Plan) : List Patch :=
  infoFields.map fun field =>
    let place := plan.format.word.infoPlace field
    ⟨place.offset, plan.format.order.encode place.width (plan.infoValue field)⟩

/-- The two numbers in the header of an entry, and its content. -/
def Entry.patches (files : FileSystem) (order : ByteOrder) (entry : Entry) : List Patch := [
  ⟨entry.offset, order.encode 4 entry.payload.kind.tag⟩,
  ⟨entry.offset + 4, order.encode 4 entry.payload.headerValue⟩,
  ⟨entry.offset + Payload.headerBytes, entry.payload.content files⟩]

/-- Everything that a plan writes. -/
def Plan.patches (plan : Plan) (files : FileSystem) : List Patch :=
  plan.infoPatches ++ plan.entries.flatMap (·.patches files plan.format.order)

section Patches

variable {files : FileSystem} {order : ByteOrder} {plan : Plan} {front bytes region : Bytes}
  {start : Nat} {ps : List Payload}

/-- The info record is three patches. -/
theorem infoRecord_eq_patched (h : plan.format.word.infoSize ≤ region.length) :
    infoRecord plan.format region plan.totalSize ++ region.drop plan.format.word.infoSize =
      region.patched plan.infoPatches := by
  rw [Plan.infoPatches, infoRecord]
  cases hword : plan.format.word with
  | w32 =>
    simp only [infoFields, List.map_cons, List.map_nil, Bytes.patched_cons, Bytes.patched_nil,
      WordWidth.infoPlace, Plan.infoValue, hword]
    exact overlay_info_w32.symm
  | w64 =>
    rw [hword] at h
    simp only [infoFields, List.map_cons, List.map_nil, Bytes.patched_cons, Bytes.patched_nil,
      WordWidth.infoPlace, Plan.infoValue, hword]
    exact (overlay_info_w64 h).symm

/-- One payload over everything behind a front part is a payload over its own block. -/
theorem patched_patches {p : Payload} (hfits : (p.content files).length ≤ p.paddedSize)
    (hroom : Payload.headerBytes + p.paddedSize ≤ bytes.length) :
    (front ++ bytes).patched (Entry.patches files order ⟨p, front.length⟩) =
      (front ++ blockOver files order (bytes.take (Payload.headerBytes + p.paddedSize)) p) ++
        bytes.drop (Payload.headerBytes + p.paddedSize) := by
  have hblock : (bytes.take (Payload.headerBytes + p.paddedSize)).length =
      Payload.headerBytes + p.paddedSize := by
    rw [List.length_take]
    omega
  -- What the content leaves of its block and what lies behind the block are one rest.
  have hrest : (bytes.take (Payload.headerBytes + p.paddedSize)).drop
        (Payload.headerBytes + (p.content files).length) ++
          bytes.drop (Payload.headerBytes + p.paddedSize) =
      bytes.drop (Payload.headerBytes + (p.content files).length) := by
    rw [← List.drop_append_of_le_length (by omega), List.take_append_drop]
  simp only [Entry.patches, Bytes.patched_cons, Bytes.patched_nil]
  rw [Bytes.overlay_append_right (Nat.le_refl _), Bytes.overlay_append_right (Nat.le_add_right ..),
    Bytes.overlay_append_right (Nat.le_add_right ..), Nat.sub_self, Nat.add_sub_cancel_left,
    Nat.add_sub_cancel_left, overlay_block, ← hrest, blockOver, header]
  simp only [List.append_assoc]

/-- **Written blocks are patches**: every payload is put where the plan places it. -/
theorem blocksOver_eq_patched (hfits : ∀ p ∈ ps, (p.content files).length ≤ p.paddedSize)
    (hroom : extent ps ≤ bytes.length) (hfront : front.length = start) :
    front ++ blocksOver files order bytes ps =
      (front ++ bytes).patched ((spread start ps).flatMap (·.patches files order)) := by
  -- By induction on the payloads; each block joins the front part of the next ones.
  induction ps generalizing front bytes start with
  | nil => rfl
  | cons p ps ih =>
    rw [List.forall_mem_cons] at hfits
    rw [extent_cons] at hroom
    have hlen := length_firstBlock order bytes hfits.1 (by omega)
    rw [blocksOver, ← List.append_assoc, spread, List.flatMap_cons, Bytes.patched_append, ← hfront,
      patched_patches hfits.1 (by omega)]
    refine ih hfits.2 ?_ ?_
    · rw [List.length_drop]
      omega
    · rw [List.length_append, hlen]

/-- **A written region is its patches over what was there.** -/
theorem Plan.regionOver_eq_patched (hentries : plan.entries = spread plan.format.word.infoSize ps)
    (hfits : ∀ p ∈ ps, (p.content files).length ≤ p.paddedSize)
    (hroom : plan.format.word.infoSize + extent ps ≤ region.length) :
    plan.regionOver files region = region.patched (plan.patches files) := by
  have hrecord : (infoRecord plan.format region plan.totalSize).length = plan.format.word.infoSize :=
    length_infoRecord (by omega)
  rw [regionOver, patches, Bytes.patched_append, ← infoRecord_eq_patched (by omega), hentries,
    map_payload_spread]
  exact blocksOver_eq_patched hfits (by rw [List.length_drop]; omega) hrecord

/-- The patches of a plan lie behind each other. -/
theorem ordered_infoPatches :
    Patch.Ordered plan.format.word.infoSize 0 plan.infoPatches := by
  rw [Plan.infoPatches]
  cases plan.format.word <;> simp [infoFields, WordWidth.infoPlace, WordWidth.infoSize, Patch.Ordered,
    Patch.finish]

/-- The patches of payloads lie behind each other, within what the payloads take up. -/
theorem ordered_patches (hfits : ∀ p ∈ ps, (p.content files).length ≤ p.paddedSize) :
    Patch.Ordered (start + extent ps) start ((spread start ps).flatMap (·.patches files order)) := by
  induction ps generalizing start with
  | nil => exact Nat.le_add_right ..
  | cons p ps ih =>
    rw [List.forall_mem_cons] at hfits
    have hlater := @ih (start + (Payload.headerBytes + p.paddedSize)) hfits.2
    rw [Nat.add_assoc start, ← extent_cons] at hlater
    -- One block: tag, size and content, and then the padding.
    have hblock : Patch.Ordered (start + (Payload.headerBytes + p.paddedSize)) start
        (Entry.patches files order ⟨p, start⟩) := by
      have hp := hfits.1
      have hheader : Payload.headerBytes = 8 := rfl
      simp only [Entry.patches, Patch.Ordered, Patch.finish, ByteOrder.length_encode]
      omega
    rw [spread, List.flatMap_cons]
    exact hblock.append hlater

end Patches

/-! ## §4 What is written, and what is kept -/

/-- The ranges of the numbers in the info record. -/
def infoRanges (word : WordWidth) : List ByteRange :=
  infoFields.map fun field => ⟨(word.infoPlace field).offset, (word.infoPlace field).width⟩

/-- The ranges of the two numbers in the header of an entry, and of its content. -/
def Entry.writtenRanges (entry : Entry) : List ByteRange := [
  ⟨entry.offset, 4⟩, ⟨entry.offset + 4, 4⟩,
  ⟨entry.offset + Payload.headerBytes, entry.payload.rawSize⟩]

/-- The ranges that are written. -/
def Plan.writtenRanges (plan : Plan) : List ByteRange :=
  infoRanges plan.format.word ++ plan.entries.flatMap Entry.writtenRanges

/-- The block of an entry: its header counts the payload, its content is that of the source, and its
padding is what was there before. -/
structure Entry.Wrote (entry : Entry) (files : FileSystem) (order : ByteOrder) (region out : Bytes) :
    Prop where
  tag : order.get? out entry.offset 4 = some entry.payload.kind.tag
  size : ∃ size, entry.payload.headerSize = .ok size ∧ order.get? out (entry.offset + 4) 4 = some size
  content : ∃ content, entry.payload.source.content? files = some content ∧
    content.length = entry.payload.rawSize ∧
    out.slice (entry.offset + Payload.headerBytes) content.length = content
  padding : ∀ off len, entry.offset + Payload.headerBytes + entry.payload.rawSize ≤ off →
    off + len ≤ entry.finish → out.slice off len = region.slice off len

/-- A region that was written over bytes: it holds the numbers of the info record and the blocks of all
entries. Outside of the numbers and the contents it is what it was, also in the pad word of the wide
record and behind the last entry. -/
structure Plan.Wrote (plan : Plan) (files : FileSystem) (region out : Bytes) : Prop where
  info : ∀ field, plan.format.order.get? out (plan.format.word.infoPlace field).offset
    (plan.format.word.infoPlace field).width = some (plan.infoValue field)
  entries : ∀ entry ∈ plan.entries, entry.Wrote files plan.format.order region out
  frame : Bytes.AgreeOff plan.writtenRanges region out
  padWord : plan.format.word = .w64 → out.slice 4 4 = region.slice 4 4
  rest : out.drop plan.totalSize = region.drop plan.totalSize

theorem infoRanges_within (word : WordWidth) :
    ∀ range ∈ infoRanges word, range.offset + range.size ≤ word.infoSize := by
  cases word <;> decide

theorem mem_infoFields (field : InfoField) : field ∈ infoFields := by cases field <;> decide

section Written

variable {files : FileSystem} {order : ByteOrder} {plan : Plan} {region out : Bytes} {word : WordWidth}
  {start finish : Nat} {ps : List Payload}

/-- The patches of entries cover exactly the ranges that are meant. -/
theorem map_range_patches {entries : List Entry}
    (h : ∀ entry ∈ entries, entry.payload.Measured files word) :
    (entries.flatMap (·.patches files order)).map Patch.range =
      entries.flatMap Entry.writtenRanges := by
  rw [List.map_flatMap]
  refine List.flatMap_congr fun entry hentry => ?_
  simp [Entry.patches, Entry.writtenRanges, Patch.range, (h entry hentry).length_content]

/-- Entries keep what is known of their payloads. -/
theorem measured_of_mem_spread (hps : ∀ p ∈ ps, p.Measured files word) :
    ∀ entry ∈ spread start ps, entry.payload.Measured files word := by
  intro entry hentry
  apply hps
  rw [← map_payload_spread start ps]
  exact List.mem_map_of_mem hentry

/-- What is written of the entries lies between the start and the end of all. -/
theorem bounds_of_mem_writtenRanges (hps : ∀ p ∈ ps, p.Measured files word) :
    ∀ range ∈ (spread start ps).flatMap Entry.writtenRanges,
      start ≤ range.offset ∧ range.offset + range.size ≤ start + extent ps := by
  rw [← @map_range_patches files .little word _ (measured_of_mem_spread hps), List.forall_mem_map]
  exact (ordered_patches fun p hp => (hps p hp).content_le).bounds

/-- Nothing is written of an entry behind its content. -/
theorem Entry.finish_of_mem_writtenRanges {entry : Entry} :
    ∀ range ∈ entry.writtenRanges,
      range.offset + range.size ≤ entry.offset + Payload.headerBytes + entry.payload.rawSize := by
  have hheader : Payload.headerBytes = 8 := rfl
  simp only [writtenRanges, List.forall_mem_cons]
  refine ⟨by omega, by omega, Nat.le_refl _, fun _ h => absurd h List.not_mem_nil⟩

/-- **Padding is not written**: what lies behind the content of an entry and in front of its end is apart
from everything that is written. -/
theorem apart_of_padding (hps : ∀ p ∈ ps, p.Measured files word) {off len : Nat} :
    ∀ entry ∈ spread start ps,
      entry.offset + Payload.headerBytes + entry.payload.rawSize ≤ off → off + len ≤ entry.finish →
        ∀ range ∈ (spread start ps).flatMap Entry.writtenRanges, range.Apart off len := by
  -- By induction on the payloads; the first entry ends where the later ones start.
  induction ps generalizing start with
  | nil => simp [spread]
  | cons p ps ih =>
    rw [List.forall_mem_cons] at hps
    have hfits := hps.1.fits
    have hfirst : ∀ range ∈ Entry.writtenRanges ⟨p, start⟩,
        range.offset + range.size ≤ start + Payload.headerBytes + p.rawSize :=
      Entry.finish_of_mem_writtenRanges
    have hlater := @bounds_of_mem_writtenRanges files word
      (start + (Payload.headerBytes + p.paddedSize)) ps hps.2
    rw [spread, List.forall_mem_cons, List.flatMap_cons]
    -- Padding of the first entry lies behind its content and in front of the others.
    refine ⟨fun hlow hhigh => ?_, fun entry hentry hlow hhigh => ?_⟩
    · replace hhigh : off + len ≤ start + (Payload.headerBytes + p.paddedSize) := hhigh
      rw [List.forall_mem_append]
      refine ⟨fun range hrange => .inl ?_, fun range hrange => .inr ?_⟩
      · exact Nat.le_trans (hfirst range hrange) hlow
      · exact Nat.le_trans hhigh (hlater range hrange).1
    · have hbehind := (bounds_of_mem_spread entry hentry).1
      rw [List.forall_mem_append]
      refine ⟨fun range hrange => .inl ?_, ih hps.2 entry hentry hlow hhigh⟩
      have := hfirst range hrange
      omega

/-- The numbers of the record fit their fields. -/
theorem infoValue_lt (hnarrow : plan.format.word = .w32 → plan.totalSize < Size.bound32)
    (htotal : plan.totalSize < Size.bound) (field : InfoField) :
    plan.infoValue field < ByteOrder.limit (plan.format.word.infoPlace field).width := by
  have hlimit : ByteOrder.limit 4 = Size.bound32 := by decide
  have hlimit' : ByteOrder.limit 8 = Size.bound := by decide
  -- The total size is the only value that is not fixed.
  cases hword : plan.format.word <;> cases field <;>
    simp only [Plan.infoValue, WordWidth.infoPlace, WordWidth.infoSize, hword, hlimit, hlimit']
  case w32.size => exact hnarrow hword
  case w64.size => exact htotal
  all_goals decide

end Written

/-! ## §5 Plans of measured payloads -/

/-- The plan of some payloads, with exact numbers, where the sizes of the payloads are those of their
contents. -/
structure Plan.Measured (plan : Plan) (files : FileSystem) (ps : List Payload) : Prop where
  entries : plan.entries = spread plan.format.word.infoSize ps
  total : plan.totalSize = plan.format.word.infoSize + extent ps
  payloads : ∀ p ∈ ps, p.Measured files plan.format.word

namespace Plan.Measured

variable {files : FileSystem} {plan : Plan} {ps : List Payload} {region : Bytes}

theorem mem_payloads (h : plan.Measured files ps) {entry : Entry} (hentry : entry ∈ plan.entries) :
    entry.payload ∈ ps := by
  rw [← map_payload_spread plan.format.word.infoSize ps, ← h.entries]
  exact List.mem_map_of_mem hentry

theorem measured (h : plan.Measured files ps) :
    ∀ entry ∈ plan.entries, entry.payload.Measured files plan.format.word :=
  fun _ hentry => h.payloads _ (h.mem_payloads hentry)

/-- All patches of a plan lie behind each other, and the last one ends within the total size. -/
theorem ordered (h : plan.Measured files ps) :
    Patch.Ordered plan.totalSize 0 (plan.patches files) := by
  rw [patches, h.entries, h.total]
  exact ordered_infoPatches.append (ordered_patches fun p hp => (h.payloads p hp).content_le)

/-- The patches change nothing but the ranges that are meant. -/
theorem agreeOff (h : plan.Measured files ps) (hroom : plan.totalSize ≤ region.length) :
    Bytes.AgreeOff plan.writtenRanges region (region.patched (plan.patches files)) := by
  have hranges : (plan.patches files).map Patch.range = plan.writtenRanges := by
    rw [patches, writtenRanges, List.map_append, map_range_patches h.measured]
    simp [infoPatches, infoRanges, Patch.range]
  rw [← hranges]
  exact Bytes.agreeOff_patched h.ordered hroom

/-- What is written of the entries lies behind the info record and in front of the end. -/
theorem bounds (h : plan.Measured files ps) :
    ∀ range ∈ plan.entries.flatMap Entry.writtenRanges,
      plan.format.word.infoSize ≤ range.offset ∧ range.offset + range.size ≤ plan.totalSize := by
  rw [h.entries, h.total]
  exact bounds_of_mem_writtenRanges h.payloads

/-- Padding is apart from the numbers of the record too. -/
theorem apart_of_padding (h : plan.Measured files ps) {entry : Entry} (hentry : entry ∈ plan.entries)
    {off len : Nat} (hlow : entry.offset + Payload.headerBytes + entry.payload.rawSize ≤ off)
    (hhigh : off + len ≤ entry.finish) : ∀ range ∈ plan.writtenRanges, range.Apart off len := by
  rw [writtenRanges, List.forall_mem_append, h.entries]
  rw [h.entries] at hentry
  refine ⟨fun range hrange => .inl ?_, ModuleRegion.apart_of_padding h.payloads entry hentry hlow hhigh⟩
  -- The record ends in front of all entries.
  have hrecord := infoRanges_within plan.format.word range hrange
  have hstart := (bounds_of_mem_spread entry hentry).1
  omega

/-- The pad word of the wide record lies between two of its numbers. -/
theorem apart_of_padWord (h : plan.Measured files ps) (hword : plan.format.word = .w64) :
    ∀ range ∈ plan.writtenRanges, range.Apart 4 4 := by
  have hbounds := h.bounds
  rw [hword] at hbounds
  rw [writtenRanges, List.forall_mem_append, hword]
  refine ⟨?_, fun range hrange => .inr ?_⟩
  · simp [infoRanges, infoFields, WordWidth.infoPlace, ByteRange.Apart]
  · exact Nat.le_trans (by decide) (hbounds range hrange).1

/-- No range reaches behind the total size. -/
theorem finish_le (h : plan.Measured files ps) :
    ∀ range ∈ plan.writtenRanges, range.offset + range.size ≤ plan.totalSize := by
  have hsize : plan.format.word.infoSize ≤ plan.totalSize := by
    rw [h.total]
    exact Nat.le_add_right ..
  rw [writtenRanges, List.forall_mem_append]
  refine ⟨fun range hrange => ?_, fun range hrange => (h.bounds range hrange).2⟩
  exact Nat.le_trans (infoRanges_within plan.format.word range hrange) hsize

/-- **One entry**: its numbers and its content are read back, and its padding is kept. -/
theorem entry_wrote (h : plan.Measured files ps) (hroom : plan.totalSize ≤ region.length)
    {entry : Entry} (hentry : entry ∈ plan.entries) (hcounted : entry.payload.headerValue < Size.bound32) :
    entry.Wrote files plan.format.order region (region.patched (plan.patches files)) := by
  have hlimit : ByteOrder.limit 4 = Size.bound32 := by decide
  have hmem : ∀ patch ∈ entry.patches files plan.format.order, patch ∈ plan.patches files :=
    fun patch hpatch => List.mem_append_right _ (List.mem_flatMap.2 ⟨entry, hentry, hpatch⟩)
  simp only [Entry.patches, List.forall_mem_cons] at hmem
  obtain ⟨htag, hsize, hcontent, -⟩ := hmem
  obtain ⟨content, hsource, hlength⟩ := (h.measured entry hentry).available
  refine ⟨?tag, ⟨_, Payload.headerSize_of_counted hcounted, ?size⟩,
    ⟨content, hsource, hlength, ?content⟩, ?padding⟩
  case tag => exact Bytes.get?_patched h.ordered hroom htag (tag_lt_limit _)
  case size => exact Bytes.get?_patched h.ordered hroom hsize (by rwa [hlimit])
  case content =>
    have hslice := Bytes.slice_patched h.ordered hroom _ hcontent
    rwa [show entry.payload.content files = content by rw [Payload.content, hsource]; rfl] at hslice
  case padding =>
    intro off len hlow hhigh
    exact ((h.agreeOff hroom).slice_eq (h.apart_of_padding hentry hlow hhigh)).symm

/-- **A written region** holds what was planned, and nothing else of it changed. -/
theorem wrote (h : plan.Measured files ps) (hbound : plan.totalSize < Size.bound)
    (hwritable : ∀ p ∈ ps, p.Writable files)
    (hnarrow : plan.format.word = .w32 → plan.totalSize < Size.bound32)
    (hroom : plan.totalSize ≤ region.length) :
    plan.Wrote files region (region.patched (plan.patches files)) := by
  have hagree := h.agreeOff hroom
  refine ⟨?info, ?entries, hagree, ?padWord, ?rest⟩
  case info =>
    intro field
    refine Bytes.get?_patched h.ordered hroom (List.mem_append_left _ ?_)
      (infoValue_lt hnarrow hbound field)
    exact List.mem_map.2 ⟨field, mem_infoFields field, rfl⟩
  case entries =>
    intro entry hentry
    exact h.entry_wrote hroom hentry (hwritable _ (h.mem_payloads hentry)).counted
  case padWord =>
    intro hword
    exact (hagree.slice_eq (h.apart_of_padWord hword)).symm
  case rest =>
    apply List.ext_getElem?
    intro i
    -- Behind the total size no range holds an offset.
    rw [List.getElem?_drop, List.getElem?_drop]
    refine (hagree.outside _ fun range hrange hholds => ?_).symm
    have hfinish := h.finish_le range hrange
    rw [ByteRange.Holds] at hholds
    omega

end Plan.Measured

section Planned

variable {files : FileSystem} {t : Target} {plan : Plan} {ps : List Payload}

/-- **Planning and writing stay in step.** A plan of payloads that were made for a target places them in
their order without gaps, each of them at whole words. It can be written over any bytes that have its
size, if every header can count its payload and, for narrow words, the record can count the region. Then
the record and the blocks hold what was planned, each where the plan says, and every other byte is what
it was. -/
theorem Plan.write_of_ofPayloads (hmade : ∀ p ∈ ps, Payload.MadeFor files t p)
    (h : Plan.ofPayloads t.format ps = .ok plan) :
    plan.format = t.format ∧ plan.LaidOut ps ∧ ∀ region : Bytes,
      ((∃ finish out, plan.write files region = .ok (finish, out)) ↔
        plan.totalSize ≤ region.length ∧
          (∀ p ∈ ps, ∃ size, p.headerSize = .ok size ∧ size < Size.bound32) ∧
          (t.format.word = .w32 → plan.totalSize < Size.bound32)) ∧
      ∀ finish out, plan.write files region = .ok (finish, out) →
        finish = plan.totalSize ∧ plan.Wrote files region out := by
  have hps := fun p hp => (hmade p hp).measured
  have hlaid := laidOut_of_ofPayloads (fun p hp => (hps p hp).whole) h
  obtain ⟨hbound, rfl⟩ := ofPayloads_eq_ok_iff.1 h
  refine ⟨rfl, hlaid, fun region => ⟨⟨?_, ?_⟩, ?_⟩⟩
  · -- Of a plan of measured payloads, all but the headers and the record is known to be writable.
    intro hwrite
    rcases hwrite with ⟨finish, out, hwrite⟩
    obtain ⟨hroom, -, hnarrow, hwritable, -⟩ := write_eq_ok_iff.1 hwrite
    rw [map_payload_spread] at hwritable
    exact ⟨hroom, fun p hp => (hps p hp).writable_iff.1 (hwritable p hp), hnarrow⟩
  · intro hwrite
    rcases hwrite with ⟨hroom, hcounted, hnarrow⟩
    refine ⟨_, _, write_eq_ok_iff.2 ⟨hroom, ?_, hnarrow, ?_, rfl, rfl⟩⟩
    · rwa [map_payload_spread]
    · rw [map_payload_spread]
      exact fun p hp => (hps p hp).writable_iff.2 (hcounted p hp)
  · intro finish out hwrite
    obtain ⟨hroom, -, hnarrow, hwritable, rfl, rfl⟩ := write_eq_ok_iff.1 hwrite
    rw [map_payload_spread] at hwritable ⊢
    refine ⟨rfl, ?_⟩
    rw [regionOver_eq_patched rfl (fun p hp => (hps p hp).content_le) hroom]
    exact Measured.wrote ⟨rfl, rfl, hps⟩ hbound hwritable hnarrow hroom

end Planned

/-! ### A region over bytes that are not zero -/

namespace Dirty

/-- A file system in which every file holds the same three bytes. -/
def files : FileSystem := ⟨fun _ => .ok (.regular [1, 2, 3])⟩

/-- A public key, a prefix and an early configuration, each of a way to make payloads. -/
def payloads : List Payload := [
  ⟨.publicKey, .file ⟨"k"⟩, 3, 8⟩,
  ⟨.pathPrefix, .bytes [0x2f, 0x70, 0], 3, 8⟩,
  ⟨.config, .bytes [4, 5], 2, 8⟩]

/-- The bytes that are written over, eight more than the region has. -/
def ground : Bytes := List.replicate 80 0xff

/-- Each payload is what its maker gives for a content of two or three bytes. -/
theorem madeFor : ∀ p ∈ payloads, Payload.MadeFor files .efiAmd64 p := by
  have hkey : Payload.ofFile files .efiAmd64 .publicKey ⟨"k"⟩ =
      .ok ⟨.publicKey, .file ⟨"k"⟩, 3, 8⟩ := toOption_eq_some_iff.1 (by decide +kernel)
  have hprefix : Payload.ofPrefix .efiAmd64 "/p" = .ok ⟨.pathPrefix, .bytes [0x2f, 0x70, 0], 3, 8⟩ :=
    toOption_eq_some_iff.1 (by decide +kernel)
  have hconfig : Payload.make .efiAmd64 .config (.bytes [4, 5]) [4, 5].length =
      .ok ⟨.config, .bytes [4, 5], 2, 8⟩ := toOption_eq_some_iff.1 (by decide +kernel)
  simp only [payloads, List.forall_mem_cons]
  exact ⟨.ofFile hkey, .ofPrefix hprefix, .ofBytes hconfig, fun _ h => absurd h List.not_mem_nil⟩

end Dirty

theorem Plan.write_of_ofPayloads_dirty :
    ∃ plan, Plan.ofPayloads Target.efiAmd64.format Dirty.payloads = .ok plan ∧
      plan.LaidOut Dirty.payloads ∧
      ∃ out, plan.write Dirty.files Dirty.ground = .ok (72, out) ∧
        plan.Wrote Dirty.files Dirty.ground out := by
  obtain ⟨plan, hplan⟩ : ∃ plan, Plan.ofPayloads Target.efiAmd64.format Dirty.payloads = .ok plan :=
    ⟨_, ofPayloads_eq_ok_iff.2 ⟨by decide, rfl⟩⟩
  obtain ⟨-, hlaid, hwrite⟩ := write_of_ofPayloads Dirty.madeFor hplan
  obtain ⟨hexists, hwrote⟩ := hwrite Dirty.ground
  have htotal : plan.totalSize = 72 := by
    obtain ⟨-, rfl⟩ := ofPayloads_eq_ok_iff.1 hplan
    rfl
  -- Headers of a few bytes, and words that count any region.
  have hcounted : ∀ p ∈ Dirty.payloads, ∃ size, p.headerSize = .ok size ∧ size < Size.bound32 := by
    simp only [Dirty.payloads, List.forall_mem_cons]
    exact ⟨⟨11, rfl, by decide⟩, ⟨16, rfl, by decide⟩, ⟨16, rfl, by decide⟩,
      fun _ h => absurd h List.not_mem_nil⟩
  obtain ⟨finish, out, hout⟩ := hexists.2 ⟨by rw [htotal]; decide, hcounted, fun hword => nomatch hword⟩
  obtain ⟨rfl, hwritten⟩ := hwrote finish out hout
  rw [htotal] at hout
  exact ⟨plan, hplan, hlaid, out, hout, hwritten⟩

end ModuleRegion

end BootImage
