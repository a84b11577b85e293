import BootImage.ModuleRegion.Plan
import BootImage.Proofs.Files
import BootImage.Proofs.Rounding
import Mathlib.Algebra.GroupWithZero.Nat

/-!
# What is planned for a module region

The inputs of a build in the order of emission, the exact size that each takes up, and the exact
size of the region that holds them all. Planning computes these numbers, or refuses where they are
no sizes any more.

- `PayloadInputs.listed`, `Input.content`: the inputs and their contents.
- `PayloadKind.paddedSize`, `PayloadInputs.regionSize`: the exact sizes; `PayloadKind.occupied`: what a
  payload takes up before it fills whole words.
- `collect_eq_ok_iff`, `ofPayloads_eq_ok_iff`: when planning succeeds, and what it plans.
-/

namespace BootImage

/-! ## §1 Inputs and their contents -/

/-- An auxiliary input: what it is, and where its content comes from. -/
structure Input where
  /-- What it is. -/
  kind : PayloadKind
  /-- Where its content comes from. -/
  source : PayloadSource
  deriving DecidableEq, Repr

/-- The content of a source. -/
def PayloadSource.content? (files : FileSystem) : PayloadSource → Option Bytes
  | .file path => files.content? path
  | .bytes content => some content

/-- The content of an input, empty where there is none. -/
def Input.content (files : FileSystem) (input : Input) : Bytes :=
  (input.source.content? files).getD []

/-- The inputs of a build in the order of emission: modules, public keys, memory disk, device tree,
font, configuration, prefix. The prefix is followed by a zero byte. -/
def PayloadInputs.listed (inputs : PayloadInputs) : List Input :=
  inputs.modules.map (fun path => ⟨.loadable, .file path⟩) ++
  inputs.publicKeys.map (fun path => ⟨.publicKey, .file path⟩) ++
  inputs.memdisk.toList.map (fun path => ⟨.memdisk, .file path⟩) ++
  inputs.deviceTree.toList.map (fun path => ⟨.deviceTree, .file path⟩) ++
  inputs.font.toList.map (fun path => ⟨.font, .file path⟩) ++
  inputs.config.toList.map (fun path => ⟨.config, .file path⟩) ++
  inputs.pathPrefix.toList.map (fun text => ⟨.pathPrefix, .bytes (Bytes.ofText text ++ [0])⟩)

/-! ## §2 Exact sizes -/

/-- The exact size that content of `size` bytes takes up: whole words, for a memory disk whole
sectors first, for a configuration with room for a zero byte. -/
def PayloadKind.paddedSize (word : WordWidth) (kind : PayloadKind) (size : Nat) : Nat :=
  match kind with
  | .memdisk => Alignment.roundUp word.bytes (Alignment.roundUp Payload.memdiskAlign size)
  | .config => Alignment.roundUp word.bytes (size + 1)
  | _ => Alignment.roundUp word.bytes size

/-- The payload that is planned for an input. -/
def Input.payload (files : FileSystem) (word : WordWidth) (input : Input) : Payload :=
  ⟨input.kind, input.source, (input.content files).length,
    input.kind.paddedSize word (input.content files).length⟩

/-- The exact size of payloads with their headers. -/
def extent (payloads : List Payload) : Nat :=
  (payloads.map fun p => Payload.headerBytes + p.paddedSize).sum

/-- The exact size of the module region of a build. -/
def PayloadInputs.regionSize (files : FileSystem) (word : WordWidth) (inputs : PayloadInputs) : Nat :=
  word.infoSize + extent (inputs.listed.map (·.payload files word))

/-- The size that content of `size` bytes takes up before it fills whole words: whole sectors of a memory
disk, a configuration with its zero byte. -/
def PayloadKind.occupied (kind : PayloadKind) (size : Nat) : Nat :=
  match kind with
  | .memdisk => Alignment.roundUp Payload.memdiskAlign size
  | .config => size + 1
  | _ => size

/-- Words are filled last, whatever the kind. -/
theorem PayloadKind.paddedSize_eq (word : WordWidth) (kind : PayloadKind) (size : Nat) :
    kind.paddedSize word size = Alignment.roundUp word.bytes (kind.occupied size) := by
  cases kind <;> rfl

/-- Whole sectors are a size unless fewer bytes than a sector are left behind the content. -/
theorem Alignment.roundUp_memdiskAlign_lt_iff {size : Nat} :
    roundUp Payload.memdiskAlign size < Size.bound ↔ size + (Payload.memdiskAlign - 1) < Size.bound :=
  roundUp_lt_iff (by decide) (by decide)

/-- Only a memory disk and a configuration can take up more than a size before they fill words. -/
theorem PayloadKind.bound_le_occupied_iff {kind : PayloadKind} {size : Nat} (h : size < Size.bound) :
    Size.bound ≤ kind.occupied size ↔
      (kind = .memdisk ∧ Size.bound < size + Payload.memdiskAlign) ∨
        (kind = .config ∧ size + 1 = Size.bound) := by
  have hsector : 0 < Payload.memdiskAlign := by decide
  cases kind with
  | memdisk =>
    rw [occupied, ← Nat.not_lt, Alignment.roundUp_memdiskAlign_lt_iff]
    simp only [Nat.not_lt, true_and, reduceCtorEq, false_and, or_false]
    omega
  | config =>
    simp only [occupied, reduceCtorEq, false_and, true_and, false_or]
    omega
  | _ => simp [occupied, h]

/-- No content is cut. -/
theorem PayloadKind.le_occupied (kind : PayloadKind) (size : Nat) : size ≤ kind.occupied size := by
  cases kind with
  | memdisk => exact Alignment.le_roundUp (by decide) size
  | config => exact Nat.le_succ size
  | _ => exact Nat.le_refl size

/-- Less than a sector is added before words are filled. -/
theorem PayloadKind.occupied_lt (kind : PayloadKind) (size : Nat) :
    kind.occupied size < size + Payload.memdiskAlign := by
  have hone : 1 < Payload.memdiskAlign := by decide
  cases kind with
  | memdisk => exact Alignment.roundUp_lt (by decide) size
  | config => exact Nat.add_lt_add_left hone size
  | _ => exact Nat.lt_add_of_pos_right (Nat.lt_of_succ_lt hone)

/-- A padded size has room for the whole content. -/
theorem PayloadKind.le_paddedSize (word : WordWidth) (kind : PayloadKind) (size : Nat) :
    size ≤ kind.paddedSize word size := by
  rw [paddedSize_eq]
  exact Nat.le_trans (kind.le_occupied size) (Alignment.le_roundUp word.bytes_pos _)

/-- Padding adds less than a sector and a word together. -/
theorem PayloadKind.paddedSize_lt (word : WordWidth) (kind : PayloadKind) (size : Nat) :
    kind.paddedSize word size < size + Payload.memdiskAlign + Payload.headerBytes := by
  have hword : word.bytes ≤ Payload.headerBytes := by cases word <;> decide
  have hround := Alignment.roundUp_lt word.bytes_pos (kind.occupied size)
  have hoccupied := kind.occupied_lt size
  rw [paddedSize_eq]
  omega

/-- **Padding**: the padded size is the exact one, unless that is no size. -/
theorem Payload.padded_eq_ok_iff {t : Target} {kind : PayloadKind} {size n : Nat} :
    Payload.padded t kind size = .ok n ↔
      kind.paddedSize t.format.word size < Size.bound ∧
        n = kind.paddedSize t.format.word size := by
  -- Words divide the bound, so a size can be rounded exactly when the result is a size.
  have hword : ∀ m, m + (t.format.word.bytes - 1) < Size.bound ↔
      Alignment.roundUp t.format.word.bytes m < Size.bound := fun m =>
    (Alignment.roundUp_lt_iff t.format.word.bytes_pos t.format.word.bytes_dvd_bound).symm
  have hle : ∀ m, m ≤ Alignment.roundUp t.format.word.bytes m := fun m =>
    Alignment.le_roundUp t.format.word.bytes_pos m
  -- Sectors and the zero byte come first, each with a check of its own; the other kinds go straight on.
  cases kind with
  | memdisk =>
    simp only [padded, bind_eq_ok_iff, Alignment.alignUp_eq_ok_iff, Target.alignToWord_eq_ok_iff,
      hword, PayloadKind.paddedSize]
    constructor
    · intro h
      rcases h with ⟨_, ⟨-, -, rfl⟩, h⟩
      exact h
    · intro h
      refine ⟨_, ⟨by decide, ?_, rfl⟩, h⟩
      -- Whole sectors are a size if the words that hold them are.
      rw [← Alignment.roundUp_lt_iff (by decide) (by decide)]
      exact Nat.lt_of_le_of_lt (hle _) h.1
  | config =>
    simp only [padded, bind_eq_ok_iff, Size.add_eq_ok_iff, Target.alignToWord_eq_ok_iff, hword,
      PayloadKind.paddedSize]
    constructor
    · intro h
      rcases h with ⟨_, ⟨-, rfl⟩, h⟩
      exact h
    · intro h
      exact ⟨_, ⟨Nat.lt_of_le_of_lt (hle _) h.1, rfl⟩, h⟩
  | _ => simp only [padded, Target.alignToWord_eq_ok_iff, hword, PayloadKind.paddedSize]

/-- **The padded size at all sizes**: the only fault is that of content that leaves the sizes on its
own. -/
theorem Payload.padded_eq (t : Target) (kind : PayloadKind) {size : Nat} (h : size < Size.bound) :
    padded t kind size =
      if kind.occupied size < Size.bound then t.alignToWord (kind.occupied size)
      else fault .overflow := by
  cases kind with
  | memdisk =>
    rw [padded, PayloadKind.occupied, Alignment.alignUp, Alignment.alignUp?, if_pos (by decide), ok_bind]
    by_cases hdisk : size + (memdiskAlign - 1) < Size.bound
    · rw [if_pos hdisk, if_pos (Alignment.roundUp_memdiskAlign_lt_iff.2 hdisk)]
      rfl
    · rw [if_neg hdisk, if_neg (mt Alignment.roundUp_memdiskAlign_lt_iff.1 hdisk)]
      rfl
  | config =>
    rw [padded, PayloadKind.occupied, Size.add]
    split <;> rfl
  | _ => exact (if_pos h).symm

/-- Content that memory can hold is padded without a fault. -/
theorem Payload.faultFree_padded (t : Target) (kind : PayloadKind) {size : Nat}
    (h : size ≤ Size.bufferBound) : FaultFree (Payload.padded t kind size) := by
  have hbound : Size.bufferBound + memdiskAlign < Size.bound := by decide
  have hone : 1 ≤ memdiskAlign := by decide
  have hsize : size < Size.bound := by omega
  have hoccupied : kind.occupied size < Size.bound := by
    rw [← Nat.not_le, PayloadKind.bound_le_occupied_iff hsize]
    omega
  rw [padded_eq t kind hsize, if_pos hoccupied]
  exact t.faultFree_alignToWord _

/-! ## §3 The payloads of a build -/

/-- An input that can be planned: it has a content, whose padded size is a size. -/
def Input.Plannable (files : FileSystem) (word : WordWidth) (input : Input) : Prop :=
  (∃ content, input.source.content? files = some content) ∧
    (input.payload files word).paddedSize < Size.bound

/-- Where there is a content, it is the one that counts. -/
theorem Input.content_eq {files : FileSystem} {input : Input} {content : Bytes}
    (h : input.source.content? files = some content) : input.content files = content := by
  rw [Input.content, h, Option.getD_some]

/-- A payload is made exactly if its padded size is a size. -/
theorem Payload.make_eq_ok_iff {t : Target} {kind : PayloadKind} {source : PayloadSource}
    {size : Nat} {p : Payload} :
    Payload.make t kind source size = .ok p ↔
      kind.paddedSize t.format.word size < Size.bound ∧
        p = ⟨kind, source, size, kind.paddedSize t.format.word size⟩ := by
  rw [make, bind_eq_ok_iff]
  constructor
  · intro h
    rcases h with ⟨n, hn, h⟩
    obtain ⟨hlt, rfl⟩ := padded_eq_ok_iff.1 hn
    cases h
    exact ⟨hlt, rfl⟩
  · intro h
    rcases h with ⟨hlt, rfl⟩
    exact ⟨_, padded_eq_ok_iff.2 ⟨hlt, rfl⟩, rfl⟩

/-- A file becomes a payload exactly if it can be planned. -/
theorem Payload.ofFile_eq_ok_iff {files : FileSystem} {t : Target} {kind : PayloadKind} {path : Path}
    {p : Payload} :
    Payload.ofFile files t kind path = .ok p ↔
      (⟨kind, .file path⟩ : Input).Plannable files t.format.word ∧
        p = (⟨kind, .file path⟩ : Input).payload files t.format.word := by
  rw [ofFile, bind_eq_ok_iff]
  constructor
  · intro h
    rcases h with ⟨n, hn, h⟩
    -- The size that was measured is that of the content.
    obtain ⟨content, hcontent, rfl⟩ := FileSystem.size_eq_ok_iff_content?.1 hn
    obtain ⟨hlt, rfl⟩ := make_eq_ok_iff.1 h
    have heq : (⟨kind, .file path⟩ : Input).content files = content := Input.content_eq hcontent
    rw [Input.Plannable, Input.payload, heq]
    exact ⟨⟨⟨content, hcontent⟩, hlt⟩, rfl⟩
  · intro h
    rcases h with ⟨⟨⟨content, hcontent⟩, hlt⟩, rfl⟩
    refine ⟨_, FileSystem.size_eq_ok_iff_content?.2 ⟨content, hcontent, rfl⟩, ?_⟩
    have heq : (⟨kind, .file path⟩ : Input).content files = content := Input.content_eq hcontent
    rw [Input.payload, heq] at hlt ⊢
    exact make_eq_ok_iff.2 ⟨hlt, rfl⟩

/-- So does a text, which always has a content. -/
theorem Payload.ofPrefix_eq_ok_iff {files : FileSystem} {t : Target} {text : String} {p : Payload} :
    Payload.ofPrefix t text = .ok p ↔
      (⟨.pathPrefix, .bytes (Bytes.ofText text ++ [0])⟩ : Input).Plannable files t.format.word ∧
        p = (⟨.pathPrefix, .bytes (Bytes.ofText text ++ [0])⟩ : Input).payload files t.format.word := by
  rw [ofPrefix, make_eq_ok_iff]
  exact and_congr_left fun _ => (and_iff_right ⟨_, rfl⟩).symm

/-- The two groups that `collect` goes through, the files and the prefix. -/
theorem PayloadInputs.listed_eq (inputs : PayloadInputs) :
    inputs.listed = inputs.files.map (fun input => ⟨input.1, .file input.2⟩) ++
      inputs.pathPrefix.toList.map (fun text => ⟨.pathPrefix, .bytes (Bytes.ofText text ++ [0])⟩) := by
  simp [listed, files, Function.comp_def]

/-- **Collecting**: every input has to be plannable, and their payloads keep their order. -/
theorem PayloadInputs.collect_eq_ok_iff {inputs : PayloadInputs} {files : FileSystem} {t : Target}
    {payloads : List Payload} :
    inputs.collect files t = .ok payloads ↔
      (∀ input ∈ inputs.listed, input.Plannable files t.format.word) ∧
        payloads = inputs.listed.map (·.payload files t.format.word) := by
  have hfile := fun (input : PayloadKind × Path) (p : Payload) =>
    @Payload.ofFile_eq_ok_iff files t input.1 input.2 p
  have htext := fun (text : String) (p : Payload) => @Payload.ofPrefix_eq_ok_iff files t text p
  -- The list falls into the files and the text, as collecting does.
  rw [collect, bind_eq_ok_iff, listed_eq, List.forall_mem_append, List.forall_mem_map,
    List.forall_mem_map, List.map_append, List.map_map, List.map_map]
  constructor
  · intro h
    rcases h with ⟨ofFiles, hof, h⟩
    obtain ⟨ofTexts, hot, h⟩ := bind_eq_ok_iff.1 h
    obtain ⟨hplan, rfl⟩ := (mapM_eq_ok_iff hfile).1 hof
    obtain ⟨hplan', rfl⟩ := (mapM_eq_ok_iff htext).1 hot
    cases h
    exact ⟨⟨hplan, hplan'⟩, rfl⟩
  · intro h
    rcases h with ⟨⟨hplan, hplan'⟩, rfl⟩
    exact ⟨_, (mapM_eq_ok_iff hfile).2 ⟨hplan, rfl⟩, bind_eq_ok_iff.2
      ⟨_, (mapM_eq_ok_iff htext).2 ⟨hplan', rfl⟩, rfl⟩⟩

/-- Inputs that memory can hold are collected without a fault. -/
theorem PayloadInputs.faultFree_collect {inputs : PayloadInputs} {files : FileSystem} {t : Target}
    (h : ∀ input ∈ inputs.listed, (input.content files).length ≤ Size.bufferBound) :
    FaultFree (inputs.collect files t) := by
  -- The files come first, the prefix last.
  refine FaultFree.bind (FaultFree.mapM fun input hinput => ?_) fun ofFiles _ => ?_
  · refine (files.faultFree_size input.2).bind fun size hsize => ?_
    obtain ⟨content, hcontent, rfl⟩ := FileSystem.size_eq_ok_iff_content?.1 hsize
    have hlen := h ⟨input.1, .file input.2⟩ (by
      rw [listed_eq]
      exact List.mem_append_left _ (List.mem_map_of_mem hinput))
    have heq : (⟨input.1, .file input.2⟩ : Input).content files = content := Input.content_eq hcontent
    rw [heq] at hlen
    exact (Payload.faultFree_padded t input.1 hlen).bind fun _ _ => faultFree_ok _
  · refine FaultFree.bind (FaultFree.mapM fun text htext => ?_) fun ofTexts _ => faultFree_ok _
    have hlen := h ⟨.pathPrefix, .bytes (Bytes.ofText text ++ [0])⟩
      (List.mem_append_right _ (List.mem_map_of_mem htext))
    exact (Payload.faultFree_padded t .pathPrefix hlen).bind fun _ _ => faultFree_ok _

/-! ## §4 Offsets -/

namespace ModuleRegion

/-- Payloads one behind the other, each with the offset of its header. -/
def spread : Nat → List Payload → List Entry
  | _, [] => []
  | start, p :: ps => ⟨p, start⟩ :: spread (start + (Payload.headerBytes + p.paddedSize)) ps

@[simp] theorem extent_nil : extent [] = 0 := rfl

@[simp] theorem extent_cons (p : Payload) (ps : List Payload) :
    extent (p :: ps) = Payload.headerBytes + p.paddedSize + extent ps := rfl

/-- Each payload lies in what all of them take up. -/
theorem paddedSize_le_extent {p : Payload} {ps : List Payload} (h : p ∈ ps) :
    Payload.headerBytes + p.paddedSize ≤ extent ps := by
  induction ps with
  | nil => exact absurd h List.not_mem_nil
  | cons q qs ih =>
    rw [extent_cons]
    rcases List.mem_cons.1 h with rfl | hq
    · omega
    · have := ih hq
      omega

/-- Offsets are added to payloads, which keep their order. -/
@[simp] theorem map_payload_spread (start : Nat) (ps : List Payload) :
    (spread start ps).map (·.payload) = ps := by
  induction ps generalizing start with
  | nil => rfl
  | cons p ps ih => simp [spread, ih]

/-- The running offsets are the exact ones, as long as they are sizes. -/
theorem Plan.lay_eq_ok_iff {start finish : Nat} {ps : List Payload} {entries : List Entry}
    (hstart : start < Size.bound) :
    Plan.lay start ps = .ok (entries, finish) ↔
      start + extent ps < Size.bound ∧ entries = spread start ps ∧ finish = start + extent ps := by
  -- By induction on the payloads, for every offset that the first of them may start at.
  induction ps generalizing start entries finish with
  | nil =>
    rw [lay, Except.ok.injEq, Prod.mk.injEq, extent_nil, Nat.add_zero, spread]
    constructor
    · intro h
      rcases h with ⟨rfl, rfl⟩
      exact ⟨hstart, rfl, rfl⟩
    · intro h
      rcases h with ⟨-, rfl, rfl⟩
      exact ⟨rfl, rfl⟩
  | cons p ps ih =>
    rw [lay, bind_eq_ok_iff, extent_cons, ← Nat.add_assoc, spread]
    constructor
    · intro h
      -- The size with its header, then the offset behind it, and then the payloads from there on.
      rcases h with ⟨n, hn, h⟩
      obtain ⟨-, rfl⟩ := Size.add_eq_ok_iff.1 hn
      split at h
      · simp at h
      · rename_i next hnext
        obtain ⟨hlt, rfl⟩ := Size.add?_eq_some_iff.1 hnext
        obtain ⟨⟨later, last⟩, hlater, h⟩ := bind_eq_ok_iff.1 h
        obtain ⟨hsum, rfl, rfl⟩ := (ih hlt).1 hlater
        cases h
        exact ⟨hsum, rfl, rfl⟩
    · intro h
      rcases h with ⟨hsum, rfl, rfl⟩
      -- The next offset is at most the end, which is a size.
      have hlt : start + (Payload.headerBytes + p.paddedSize) < Size.bound := by omega
      refine ⟨_, Size.add_eq_ok_iff.2 ⟨by omega, rfl⟩, ?_⟩
      rw [Size.add?_eq_some_iff.2 ⟨hlt, rfl⟩]
      exact bind_eq_ok_iff.2 ⟨_, (ih hlt).2 ⟨hsum, rfl, rfl⟩, rfl⟩

/-- Laying out faults at most for a payload that leaves no room for its header. -/
theorem Plan.faultFree_lay {start : Nat} {ps : List Payload}
    (h : ∀ p ∈ ps, Payload.headerBytes + p.paddedSize < Size.bound) :
    FaultFree (Plan.lay start ps) := by
  induction ps generalizing start with
  | nil => exact faultFree_ok _
  | cons p ps ih =>
    have hp : p.footprint = .ok (Payload.headerBytes + p.paddedSize) :=
      Size.add_eq_ok_iff.2 ⟨h p (List.mem_cons_self ..), rfl⟩
    rw [lay, hp, ok_bind]
    -- An offset that is no size is refused; it does not overflow.
    split
    · exact faultFree_refuse _
    · exact (ih fun q hq => h q (List.mem_cons_of_mem _ hq)).bind fun _ _ => faultFree_ok _

/-- The record in front is far smaller than the sizes. -/
theorem infoSize_lt_bound (word : WordWidth) : word.infoSize < Size.bound := by
  cases word <;> decide

/-- **Planning**: the plan has the exact offsets and the exact total size, unless that is no size. -/
theorem Plan.ofPayloads_eq_ok_iff {format : WordFormat} {ps : List Payload} {plan : Plan} :
    Plan.ofPayloads format ps = .ok plan ↔
      format.word.infoSize + extent ps < Size.bound ∧
        plan = ⟨format, spread format.word.infoSize ps, format.word.infoSize + extent ps⟩ := by
  rw [ofPayloads, bind_eq_ok_iff]
  constructor
  · intro h
    rcases h with ⟨⟨entries, finish⟩, hlay, h⟩
    obtain ⟨hsum, rfl, rfl⟩ := (lay_eq_ok_iff (infoSize_lt_bound _)).1 hlay
    cases h
    exact ⟨hsum, rfl⟩
  · intro h
    rcases h with ⟨hsum, rfl⟩
    exact ⟨_, (lay_eq_ok_iff (infoSize_lt_bound _)).2 ⟨hsum, rfl, rfl⟩, rfl⟩

end ModuleRegion

end BootImage
