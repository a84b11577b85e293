import BootImage.Proofs.ModuleRegion.Frame
import BootImage.Proofs.ModuleRegion.ReadBack

/-!
# Files that change behind a plan

A plan keeps the sizes that files had when it was made. When it is written, a file may be longer or
shorter, and it is only checked that it fits the padded size. What was left for a zero byte behind a
configuration is part of the padding, and the header of a public key counts the bytes of the old file.

- `slice_blocksOver`: the block of an entry in a written region.
- `failsWith_writeBlocks`: for which causes the writing of payloads is refused.
- `Entry.Embeds`: what a region holds of the file that an entry finds.
- `Plan.write_of_changed`: when a plan is written for other files, and what is written.
-/

namespace BootImage.ModuleRegion

section Later

variable {files planned later : FileSystem} {order : ByteOrder} {t : Target} {p : Payload}
  {ps : List Payload} {front bytes out : Bytes} {start : Nat}

/-! ## §1 The block of an entry -/

/-- **The block of an entry** is its payload over what was there. -/
theorem slice_blocksOver (hfits : ∀ p ∈ ps, (p.content files).length ≤ p.paddedSize)
    (hroom : extent ps ≤ bytes.length) (hfront : front.length = start) :
    ∀ entry ∈ spread start ps,
      (front ++ blocksOver files order bytes ps).slice entry.offset
          (Payload.headerBytes + entry.payload.paddedSize) =
        blockOver files order ((front ++ bytes).slice entry.offset
          (Payload.headerBytes + entry.payload.paddedSize)) entry.payload := by
  -- By induction on the payloads; each block joins the front part of the next ones.
  induction ps generalizing front bytes start with
  | nil => simp [spread]
  | cons p ps ih =>
    rw [List.forall_mem_cons] at hfits
    rw [extent_cons] at hroom
    have hblock := length_firstBlock order bytes hfits.1 (Nat.le_trans (Nat.le_add_right ..) hroom)
    rw [spread, List.forall_mem_cons, blocksOver]
    constructor
    · -- The block of the first payload starts where the front part ends.
      have hslice := Bytes.slice_append_self front
        (blockOver files order (bytes.take (Payload.headerBytes + p.paddedSize)) p)
        (blocksOver files order (bytes.drop (Payload.headerBytes + p.paddedSize)) ps)
      rw [hblock, hfront] at hslice
      rw [hslice, Bytes.slice_append_right (Nat.le_of_eq hfront), hfront, Nat.sub_self, Bytes.slice_zero]
    · -- The other entries lie behind the first block, which joins the front part for them.
      intro entry hentry
      have hbehind := (bounds_of_mem_spread entry hentry).1
      have hlen : (front ++ blockOver files order
          (bytes.take (Payload.headerBytes + p.paddedSize)) p).length =
            start + (Payload.headerBytes + p.paddedSize) := by
        rw [List.length_append, hblock, hfront]
      have hrest : extent ps ≤ (bytes.drop (Payload.headerBytes + p.paddedSize)).length := by
        rw [List.length_drop]
        exact Nat.le_sub_of_add_le' hroom
      -- What lies behind the first block is what was there before.
      have hsame : (front ++ blockOver files order (bytes.take (Payload.headerBytes + p.paddedSize)) p ++
          bytes.drop (Payload.headerBytes + p.paddedSize)).slice entry.offset
            (Payload.headerBytes + entry.payload.paddedSize) =
          (front ++ bytes).slice entry.offset (Payload.headerBytes + entry.payload.paddedSize) := by
        rw [Bytes.slice_append_right (hlen.symm ▸ hbehind), hlen, Bytes.slice_drop,
          Bytes.slice_append_right (by omega), hfront]
        congr 1
        omega
      rw [← List.append_assoc, ih hfits.2 hrest hlen entry hentry, hsame]

/-! ## §2 Refusals -/

/-- A payload of a file is refused for the file alone, where its header can count it and its block has
the room planned for it. -/
theorem failsWith_writeBlock {path : Path} {block : Bytes} (hsource : p.source = .file path)
    (hcounted : p.headerValue < Size.bound32) (hroom : Payload.headerBytes + p.paddedSize ≤ block.length) :
    FailsWith .resource ((writeBlock files order p).on block).1 := by
  have hheader : Payload.headerBytes = 8 := rfl
  have hput : ∀ buf : Bytes, buf.length = block.length → ∀ offset ≤ 4, ∀ value,
      FailsWith .resource (order.put buf offset 4 value) := by
    intro buf hlen offset hoffset value
    rw [ByteOrder.put_eq_ok_iff.2 ⟨by omega, rfl⟩]
    exact failsWith_ok _ _
  -- Four steps that cannot fail here, and the content behind them.
  unfold writeBlock
  apply InPlace.failsWith_on_bind
  · exact InPlace.failsWith_on_edit (hput block rfl 0 (Nat.zero_le _) _)
  intro _ tagged htag
  have htagged := ByteOrder.length_of_put (InPlace.on_edit_eq_ok_iff.1 htag)
  rw [Payload.headerSize_of_counted hcounted]
  apply InPlace.failsWith_on_bind
  · exact failsWith_ok _ _
  rintro _ _ ⟨⟩
  apply InPlace.failsWith_on_bind
  · rw [InPlace.on_check, Size.to32_eq_ok_iff.2 ⟨hcounted, rfl⟩]
    exact failsWith_ok _ _
  intro size counted hcount
  obtain ⟨-, rfl⟩ := InPlace.on_check_eq_ok_iff.1 hcount
  apply InPlace.failsWith_on_bind
  · exact InPlace.failsWith_on_edit (hput tagged htagged 4 (Nat.le_refl _) _)
  intro _ sized hsize
  have hsized := ByteOrder.length_of_put (InPlace.on_edit_eq_ok_iff.1 hsize)
  -- The file is what is left to fail.
  apply InPlace.failsWith_on_edit
  rw [if_neg (by omega), hsource]
  exact (files.failsWith_readWithin path p.paddedSize).bind fun content _ => failsWith_ok _ _

/-- **Payloads of files** are refused for the files alone. -/
theorem failsWith_writeBlocks {offset : Nat} (hsource : ∀ p ∈ ps, ∃ path, p.source = .file path)
    (hcounted : ∀ p ∈ ps, p.headerValue < Size.bound32) (hroom : extent ps ≤ bytes.length) :
    FailsWith .resource ((writeBlocks files order offset ps).on bytes).1 := by
  induction ps generalizing offset bytes with
  | nil => exact failsWith_ok _ _
  | cons p ps ih =>
    rw [List.forall_mem_cons] at hsource hcounted
    rw [extent_cons] at hroom
    obtain ⟨path, hpath⟩ := hsource.1
    have hblock : (bytes.slice 0 (Payload.headerBytes + p.paddedSize)).length =
        Payload.headerBytes + p.paddedSize := by
      rw [Bytes.slice_zero, List.length_take]
      exact Nat.min_eq_left (Nat.le_trans (Nat.le_add_right ..) hroom)
    -- By induction on the payloads: the first is refused for its file, or the others are written behind
    -- it.
    rw [writeBlocks]
    apply InPlace.failsWith_on_bind
    · rw [InPlace.on_within]
      exact failsWith_writeBlock hpath hcounted.1 (Nat.le_of_eq hblock.symm)
    · intro _ mid hmid
      obtain ⟨block, hblock, rfl⟩ := InPlace.on_within_eq_ok_iff.1 hmid
      obtain ⟨hp, -, rfl⟩ := writeBlock_eq_ok_iff.1 hblock
      have hlen := length_firstBlock order bytes hp.fits (Nat.le_trans (Nat.le_add_right ..) hroom)
      rw [InPlace.on_behind]
      apply ih hsource.2 hcounted.2
      -- The first block keeps its size, so the others have the rest of the room.
      rw [List.take_zero, List.nil_append, Nat.zero_add, Bytes.slice_zero, List.drop_left' hlen,
        List.length_drop]
      exact Nat.le_sub_of_add_le' hroom

/-- **A plan with payloads of files** is refused for the files alone, where the region has room for it and
its numbers fit their fields. -/
theorem Plan.failsWith_write {plan : Plan} {region : Bytes}
    (hsource : ∀ p ∈ plan.entries.map (·.payload), ∃ path, p.source = .file path)
    (hcounted : ∀ p ∈ plan.entries.map (·.payload), p.headerValue < Size.bound32)
    (hnarrow : plan.format.word = .w32 → plan.totalSize < Size.bound32)
    (hroom : plan.totalSize ≤ region.length)
    (hextent : plan.format.word.infoSize + extent (plan.entries.map (·.payload)) ≤ region.length) :
    FailsWith .resource (plan.write files region) := by
  have hinfo : plan.format.word.infoSize ≤ region.length := Nat.le_trans (Nat.le_add_right ..) hextent
  apply InPlace.failsWith_outcome
  -- The room and the record are known to be fine, so it is left to the blocks.
  unfold Plan.writing
  apply InPlace.failsWith_on_bind
  · rw [InPlace.on_check, if_neg (Nat.not_lt.2 hroom)]
    exact failsWith_ok _ _
  intro _ checked hchecked
  obtain ⟨-, rfl⟩ := InPlace.on_check_eq_ok_iff.1 hchecked
  apply InPlace.failsWith_on_bind
  · rw [Plan.writeInfo_eq_ok_iff.2 ⟨hinfo, hnarrow, rfl⟩]
    exact failsWith_ok _ ()
  intro _ informed hinformed
  obtain ⟨-, -, rfl⟩ := Plan.writeInfo_eq_ok_iff.1 hinformed
  rw [InPlace.on_behind]
  apply failsWith_writeBlocks hsource hcounted
  rw [List.drop_left' (length_infoRecord hinfo), List.length_drop]
  exact Nat.le_sub_of_add_le' hextent

/-! ## §3 What is embedded -/

/-- What a region holds of the file that an entry finds: the file, with zeros up to the padded size, behind
a header that counts the payload as it was planned. -/
structure Entry.Embeds (entry : Entry) (files : FileSystem) (order : ByteOrder) (out content : Bytes) :
    Prop where
  found : entry.payload.source.content? files = some content
  fits : content.length ≤ entry.payload.paddedSize
  size : ∃ size, entry.payload.headerSize = .ok size ∧ order.get? out (entry.offset + 4) 4 = some size
  padded : out.slice (entry.offset + Payload.headerBytes) entry.payload.paddedSize =
    content.resize entry.payload.paddedSize

/-- A block of a region that is a payload over zeros embeds the content of the payload. -/
theorem Entry.embeds_of_slice {entry : Entry} (hwritable : entry.payload.Writable files)
    (hfit : entry.finish ≤ out.length)
    (hblock : out.slice entry.offset (Payload.headerBytes + entry.payload.paddedSize) =
      header order entry.payload ++ (blockOf files entry.payload).body) :
    entry.Embeds files order out (entry.payload.content files) := by
  have hheader := length_header order entry.payload
  have hbody := length_body hwritable.fits
  -- All three are read from the block alone.
  refine ⟨?found, hwritable.fits, ⟨_, Payload.headerSize_of_counted hwritable.counted, ?size⟩, ?padded⟩
  case found =>
    obtain ⟨content, hcontent⟩ := hwritable.available
    rw [Payload.content, hcontent]
    rfl
  case size =>
    have hinside : 4 + 4 ≤ Payload.headerBytes + entry.payload.paddedSize := Nat.le_add_right ..
    rw [← ByteOrder.get?_slice hinside hfit, hblock]
    exact (get?_header hwritable.counted _).2
  case padded =>
    rw [← Bytes.slice_slice out (Nat.le_refl _), hblock,
      Bytes.slice_append_right (Nat.le_of_eq hheader), hheader, Nat.sub_self, Bytes.slice_zero,
      List.take_of_length_le (Nat.le_of_eq hbody), body_blockOf hwritable.fits]

/-- **What is written over zeros**: every entry embeds the file it finds. -/
theorem Plan.embeds_of_write {plan : Plan} {n finish : Nat}
    (hentries : plan.entries = spread plan.format.word.infoSize ps)
    (hwrite : plan.write files (Bytes.zeros n) = .ok (finish, out)) :
    ∀ entry ∈ plan.entries,
      entry.Embeds files plan.format.order out (entry.payload.content files) := by
  obtain ⟨-, hextent, -, hwritable, -, rfl⟩ := Plan.write_eq_ok_iff.1 hwrite
  have hfits := fun p hp => (hwritable p hp).fits
  have hlen := Plan.length_regionOver hfits hextent
  rw [hentries, map_payload_spread] at hextent hwritable hfits
  rw [Bytes.length_zeros] at hextent hlen
  have hrecord : (infoRecord plan.format (Bytes.zeros n) plan.totalSize).length =
      plan.format.word.infoSize := by
    apply length_infoRecord
    rw [Bytes.length_zeros]
    exact Nat.le_trans (Nat.le_add_right ..) hextent
  have hroom : extent ps ≤ (Bytes.zeros (n - plan.format.word.infoSize)).length := by
    rw [Bytes.length_zeros]
    exact Nat.le_sub_of_add_le' hextent
  rw [hentries]
  intro entry hentry
  obtain ⟨hlow, hhigh⟩ := bounds_of_mem_spread entry hentry
  have hp : entry.payload ∈ ps := by
    rw [← map_payload_spread plan.format.word.infoSize ps]
    exact List.mem_map_of_mem hentry
  apply Entry.embeds_of_slice (hwritable _ hp)
  · rw [hlen]
    exact Nat.le_trans hhigh hextent
  · -- Behind the record there were zeros, and so there were in the block of the entry.
    rw [regionOver, hentries, map_payload_spread, Bytes.drop_zeros,
      slice_blocksOver hfits hroom hrecord entry hentry, Bytes.slice_append_right (hrecord ▸ hlow), hrecord,
      Bytes.slice_zeros (by omega), blockOver_zeros]

/-- Zeros are left behind a content that does not fill its room. -/
theorem zero_mem_resize_iff {content : Bytes} {room : Nat} (h : content.length ≤ room) :
    0 ∈ content.resize room ↔ 0 ∈ content ∨ content.length < room := by
  rw [Bytes.resize_of_length_le h, List.mem_append, Bytes.zeros, List.mem_replicate]
  simp [Nat.sub_ne_zero_iff_lt]

/-! ## §4 Plans of files that changed -/

/-- Payloads that were made of files. -/
def OfFiles (planned : FileSystem) (t : Target) (ps : List Payload) : Prop :=
  ∀ p ∈ ps, ∃ kind path, Payload.ofFile planned t kind path = .ok p

/-- A payload that was made of a file has that file for its source. -/
theorem OfFiles.exists_source (h : OfFiles planned t ps) : ∀ p ∈ ps, ∃ path, p.source = .file path := by
  intro p hp
  obtain ⟨kind, path, hfile⟩ := h p hp
  obtain ⟨-, rfl⟩ := Payload.ofFile_eq_ok_iff.1 hfile
  exact ⟨path, rfl⟩

/-- A configuration was planned with room for a zero byte. -/
theorem OfFiles.rawSize_lt (h : OfFiles planned t ps) :
    ∀ p ∈ ps, p.kind = .config → p.rawSize < p.paddedSize := by
  intro p hp hkind
  obtain ⟨kind, path, hfile⟩ := h p hp
  obtain ⟨-, rfl⟩ := Payload.ofFile_eq_ok_iff.1 hfile
  cases hkind
  exact Alignment.le_roundUp t.format.word.bytes_pos _

/-- Whether a file system has the file of a payload, in a size that fits the padded one. -/
def Fits (later : FileSystem) (p : Payload) : Prop :=
  ∃ content, p.source.content? later = some content ∧ content.length ≤ p.paddedSize

/-- Whether a payload can be written hangs on the later file and on the planned header, each on its own. -/
theorem writable_iff_fits : p.Writable later ↔
    Fits later p ∧ ∃ size, p.headerSize = .ok size ∧ size < Size.bound32 := by
  rw [Payload.counted_iff]
  constructor
  · intro h
    obtain ⟨content, hcontent⟩ := h.available
    have hfits := h.fits
    rw [Payload.content, hcontent] at hfits
    exact ⟨⟨content, hcontent, hfits⟩, h.counted⟩
  · rintro ⟨⟨content, hcontent, hfits⟩, hcounted⟩
    refine ⟨⟨content, hcontent⟩, ?_, hcounted⟩
    rw [Payload.content, hcontent]
    exact hfits

/-- A plan is written exactly where it has room, its numbers fit their fields and its files fit their
room. -/
theorem Plan.exists_write_iff_fits {plan : Plan} {region : Bytes}
    (hplan : Plan.ofPayloads t.format ps = .ok plan) :
    (∃ finish out, plan.write later region = .ok (finish, out)) ↔
      plan.totalSize ≤ region.length ∧ (t.format.word = .w32 → plan.totalSize < Size.bound32) ∧
        (∀ p ∈ ps, ∃ size, p.headerSize = .ok size ∧ size < Size.bound32) ∧
        ∀ p ∈ ps, Fits later p := by
  obtain ⟨-, rfl⟩ := Plan.ofPayloads_eq_ok_iff.1 hplan
  constructor
  · rintro ⟨finish, out, hwrite⟩
    obtain ⟨hroom, -, hnarrow, hwritable, -⟩ := Plan.write_eq_ok_iff.1 hwrite
    rw [map_payload_spread] at hwritable
    exact ⟨hroom, hnarrow, fun p hp => (writable_iff_fits.1 (hwritable p hp)).2,
      fun p hp => (writable_iff_fits.1 (hwritable p hp)).1⟩
  · rintro ⟨hroom, hnarrow, hcounted, hfits⟩
    refine ⟨_, _, Plan.write_eq_ok_iff.2 ⟨hroom, ?extent, hnarrow, ?writable, rfl, rfl⟩⟩
    case extent => rwa [map_payload_spread]
    case writable =>
      rw [map_payload_spread]
      exact fun p hp => writable_iff_fits.2 ⟨hfits p hp, hcounted p hp⟩

/-- A plan of files that has room and numbers that fit their fields is refused for the files alone. -/
theorem Plan.failsWith_write_of_files {plan : Plan} {region : Bytes} (hps : OfFiles planned t ps)
    (hplan : Plan.ofPayloads t.format ps = .ok plan) (hroom : plan.totalSize ≤ region.length)
    (hnarrow : t.format.word = .w32 → plan.totalSize < Size.bound32)
    (hcounted : ∀ p ∈ ps, ∃ size, p.headerSize = .ok size ∧ size < Size.bound32) :
    FailsWith .resource (plan.write later region) := by
  obtain ⟨-, rfl⟩ := Plan.ofPayloads_eq_ok_iff.1 hplan
  apply Plan.failsWith_write _ _ hnarrow hroom
  · rwa [map_payload_spread]
  · rw [map_payload_spread]
    exact hps.exists_source
  · rw [map_payload_spread]
    exact fun p hp => Payload.counted_iff.1 (hcounted p hp)

/-- The zero byte that the kernel looks for behind a configuration, in what a region embeds. -/
theorem Entry.Embeds.zero_mem_iff {entry : Entry} {content : Bytes}
    (h : entry.Embeds later order out content) :
    0 ∈ out.slice (entry.offset + Payload.headerBytes) entry.payload.paddedSize ↔
      0 ∈ content ∨ content.length < entry.payload.paddedSize := by
  rw [h.padded]
  exact zero_mem_resize_iff h.fits

/-- The header of a public key counts the bytes that were planned. -/
theorem Entry.Embeds.size_of_publicKey {entry : Entry} {content : Bytes}
    (h : entry.Embeds later order out content) (hkind : entry.payload.kind = .publicKey) :
    order.get? out (entry.offset + 4) 4 = some (entry.payload.rawSize + Payload.headerBytes) := by
  obtain ⟨size, hsize, hget⟩ := h.size
  obtain ⟨-, rfl⟩ := Payload.headerSize_eq_ok_iff.1 hsize
  rwa [Payload.headerValue, hkind] at hget

/-- **Writing a plan for files that changed**, over zeros. It is written exactly where the files fit the
padded sizes, and otherwise refused for a file. Behind a configuration there is a zero byte exactly if it
has one itself or does not fill its padded size, so in any case if it did not grow. The header of a public
key counts what is embedded exactly if the file has kept its size. -/
theorem Plan.write_of_changed {plan : Plan} (hps : OfFiles planned t ps)
    (hplan : Plan.ofPayloads t.format ps = .ok plan) (later : FileSystem) (n : Nat) :
    ((∃ finish out, plan.write later (Bytes.zeros n) = .ok (finish, out)) ↔
      plan.totalSize ≤ n ∧ (t.format.word = .w32 → plan.totalSize < Size.bound32) ∧
        (∀ p ∈ ps, ∃ size, p.headerSize = .ok size ∧ size < Size.bound32) ∧ ∀ p ∈ ps, Fits later p) ∧
    (plan.totalSize ≤ n → (t.format.word = .w32 → plan.totalSize < Size.bound32) →
      (∀ p ∈ ps, ∃ size, p.headerSize = .ok size ∧ size < Size.bound32) → (∃ p ∈ ps, ¬ Fits later p) →
      ∃ cause, plan.write later (Bytes.zeros n) = .error (.refused cause) ∧ cause.kind = .resource) ∧
    ∀ finish out, plan.write later (Bytes.zeros n) = .ok (finish, out) → ∀ entry ∈ plan.entries,
      ∃ content, entry.Embeds later t.format.order out content ∧
        (entry.payload.kind = .config →
          (0 ∈ out.slice (entry.offset + Payload.headerBytes) entry.payload.paddedSize ↔
            0 ∈ content ∨ content.length < entry.payload.paddedSize) ∧
          (content.length ≤ entry.payload.rawSize →
            0 ∈ out.slice (entry.offset + Payload.headerBytes) entry.payload.paddedSize)) ∧
        (entry.payload.kind = .publicKey →
          ∃ size, t.format.order.get? out (entry.offset + 4) 4 = some size ∧
            (size - Payload.headerBytes = content.length ↔
              content.length = entry.payload.rawSize)) := by
  have hiff := @Plan.exists_write_iff_fits later t ps plan (Bytes.zeros n) hplan
  rw [Bytes.length_zeros] at hiff
  refine ⟨hiff, ?refused, ?written⟩
  case refused =>
    rintro hroom hnarrow hcounted ⟨p, hp, hunfit⟩
    rw [← @Bytes.length_zeros n] at hroom
    apply (Plan.failsWith_write_of_files hps hplan hroom hnarrow hcounted).exists_refused
    rintro ⟨finish, out⟩ hwrite
    obtain ⟨-, -, -, hfits⟩ := hiff.1 ⟨finish, out, hwrite⟩
    exact hunfit (hfits p hp)
  case written =>
    intro finish out hwrite entry hentry
    obtain ⟨-, rfl⟩ := Plan.ofPayloads_eq_ok_iff.1 hplan
    have hembeds := Plan.embeds_of_write rfl hwrite entry hentry
    have hp : entry.payload ∈ ps := by
      rw [← map_payload_spread t.format.word.infoSize ps]
      exact List.mem_map_of_mem hentry
    refine ⟨_, hembeds, ?config, ?publicKey⟩
    case config =>
      intro hkind
      refine ⟨hembeds.zero_mem_iff, fun hlen => hembeds.zero_mem_iff.2 (.inr ?_)⟩
      -- A configuration that did not grow leaves the zero byte that was planned.
      exact Nat.lt_of_le_of_lt hlen (hps.rawSize_lt _ hp hkind)
    case publicKey =>
      intro hkind
      refine ⟨_, hembeds.size_of_publicKey hkind, ?_⟩
      rw [Nat.add_sub_cancel]
      exact eq_comm

end Later

/-! ### A key that shrinks and a configuration that grows -/

namespace Changed

/-- A file system with a public key and a configuration. -/
def files (key config : Bytes) : FileSystem :=
  ⟨fun path => .ok (.regular (if path = ⟨"k"⟩ then key else config))⟩

/-- The files of the plan, three bytes each. -/
def planned : FileSystem := files [1, 2, 3] [0x61, 0x62, 0x63]

/-- The files of the plan with one more byte in the configuration, and of the key only the first byte. -/
def later : FileSystem := files [1] [0x61, 0x62, 0x63, 0x64]

def payloads : List Payload :=
  [⟨.publicKey, .file ⟨"k"⟩, 3, 4⟩, ⟨.config, .file ⟨"c"⟩, 3, 4⟩]

def plan : Plan :=
  ⟨Target.multiboot.format, spread 12 payloads, 36⟩

theorem ofFiles : OfFiles planned Target.multiboot payloads := by
  have hkey : Payload.ofFile planned Target.multiboot .publicKey ⟨"k"⟩ =
      .ok ⟨.publicKey, .file ⟨"k"⟩, 3, 4⟩ := toOption_eq_some_iff.1 (by decide +kernel)
  have hconfig : Payload.ofFile planned Target.multiboot .config ⟨"c"⟩ =
      .ok ⟨.config, .file ⟨"c"⟩, 3, 4⟩ := toOption_eq_some_iff.1 (by decide +kernel)
  simp only [OfFiles, payloads, List.forall_mem_cons]
  exact ⟨⟨_, _, hkey⟩, ⟨_, _, hconfig⟩, fun _ h => absurd h List.not_mem_nil⟩

theorem ofPayloads : Plan.ofPayloads Target.multiboot.format payloads = .ok plan :=
  Plan.ofPayloads_eq_ok_iff.2 ⟨by decide, rfl⟩

theorem counted : ∀ p ∈ payloads, ∃ size, p.headerSize = .ok size ∧ size < Size.bound32 := by
  simp only [payloads, List.forall_mem_cons]
  exact ⟨⟨11, rfl, by decide⟩, ⟨12, rfl, by decide⟩, fun _ h => absurd h List.not_mem_nil⟩

end Changed

/-- The later files are written. With another byte behind the configuration they are refused. -/
theorem Plan.write_of_changed_multiboot :
    (∃ finish out, Changed.plan.write Changed.later (Bytes.zeros 36) = .ok (finish, out)) ∧
      ∃ cause, Changed.plan.write (Changed.files [] [0x61, 0x62, 0x63, 0x64, 0x65]) (Bytes.zeros 36) =
        .error (.refused cause) ∧ cause.kind = .resource := by
  obtain ⟨hwritten, -⟩ := Plan.write_of_changed Changed.ofFiles Changed.ofPayloads Changed.later 36
  obtain ⟨-, hrefused, -⟩ := Plan.write_of_changed Changed.ofFiles Changed.ofPayloads
    (Changed.files [] [0x61, 0x62, 0x63, 0x64, 0x65]) 36
  have hroom : Changed.plan.totalSize ≤ 36 := Nat.le_refl _
  have hnarrow : Target.multiboot.format.word = .w32 → Changed.plan.totalSize < Size.bound32 :=
    fun _ => by decide
  refine ⟨hwritten.2 ⟨hroom, hnarrow, Changed.counted, ?fits⟩, hrefused hroom hnarrow Changed.counted ?unfit⟩
  case fits =>
    simp only [Changed.payloads, List.forall_mem_cons]
    exact ⟨⟨[1], rfl, by decide⟩, ⟨[0x61, 0x62, 0x63, 0x64], rfl, by decide⟩,
      fun _ h => absurd h List.not_mem_nil⟩
  case unfit =>
    refine ⟨_, List.mem_cons_of_mem _ (List.mem_singleton_self _), ?_⟩
    rintro ⟨content, hcontent, hfits⟩
    cases hcontent
    exact absurd hfits (by decide)

/-- **No zero byte, and not the size of the key**: the grown configuration fills its padded size, and the
header of the key counts three bytes where one is embedded. -/
theorem Plan.write_without_zero :
    OfFiles Changed.planned Target.multiboot Changed.payloads ∧
      Plan.ofPayloads Target.multiboot.format Changed.payloads = .ok Changed.plan ∧
      Changed.plan.entries = [⟨⟨.publicKey, .file ⟨"k"⟩, 3, 4⟩, 12⟩, ⟨⟨.config, .file ⟨"c"⟩, 3, 4⟩, 24⟩] ∧
      ∃ out, Changed.plan.write Changed.later (Bytes.zeros 36) = .ok (36, out) ∧
        0 ∉ out.slice (24 + Payload.headerBytes) 4 ∧
        ByteOrder.little.get? out (12 + 4) 4 = some (3 + Payload.headerBytes) ∧
        Changed.later.read ⟨"k"⟩ = .ok [1] := by
  have hwrite : Changed.plan.write Changed.later (Bytes.zeros 36) = .ok (36,
      [0x6d, 0x69, 0x6d, 0x67, 12, 0, 0, 0, 36, 0, 0, 0] ++ [4, 0, 0, 0, 11, 0, 0, 0, 1, 0, 0, 0] ++
        [2, 0, 0, 0, 12, 0, 0, 0, 0x61, 0x62, 0x63, 0x64]) :=
    toOption_eq_some_iff.1 (by decide +kernel)
  exact ⟨Changed.ofFiles, Changed.ofPayloads, rfl, _, hwrite, by decide, by decide, rfl⟩

end BootImage.ModuleRegion
