import BootImage.Kernel
import BootImage.Proofs.Agreement
import BootImage.Proofs.Files
import BootImage.Proofs.Rounding

/-!
# Kernels that can be used

What a loader gives is used if it keeps to its own report and leaves memory for the modules. A kernel
that is flat already always does.

- `Loaded.Usable`, `Loaded.fitTo_eq_ok_iff`: the kernels that are used, and what is kept of them.
- `Loader.flat_eq_ok_iff`: what the loader of flat kernels gives; `usable_ofFlat`: it can be used.
- `Layout.Alike`, `Loaded.Alike`, `AnswersAlike`: kernels of the same sizes, whatever their bytes are.
-/

namespace BootImage.Kernel

/-! ## §1 Any kernel -/

/-- A blob that is as long as its report says, and leaves room for `reserved` more bytes. -/
structure Loaded.Usable (loaded : Loaded) (reserved : Nat) : Prop where
  executable : loaded.layout.executableSize ≤ loaded.layout.kernelSize
  complete : loaded.layout.kernelSize ≤ loaded.image.length
  allocatable : loaded.layout.kernelSize + reserved < Size.bufferBound

/-- The blob of a loaded kernel, without what the loader left behind it. -/
def Loaded.blob (loaded : Loaded) : Bytes := loaded.image.take loaded.layout.kernelSize

/-- A kernel with zeros for the modules behind its blob. -/
def Loaded.fitted (loaded : Loaded) (reserved : Nat) : Loaded :=
  ⟨loaded.blob ++ Bytes.zeros reserved, loaded.layout⟩

/-- **Fitting a kernel** succeeds exactly for usable kernels, and cuts off what the loader left behind. -/
theorem Loaded.fitTo_eq_ok_iff {loaded kernel : Loaded} {reserved : Nat} :
    loaded.fitTo reserved = .ok kernel ↔
      loaded.Usable reserved ∧ kernel = loaded.fitted reserved := by
  have hbound : Size.bufferBound ≤ Size.bound := by decide
  -- The two guards come first, then the memory for kernel and modules.
  rw [fitTo, guard_eq_ok_iff, guard_eq_ok_iff, bind_eq_ok_iff]
  refine ⟨?_, ?_⟩
  · intro h
    rcases h with ⟨hexecutable, hcomplete, fullSize, hfull, h⟩
    obtain ⟨-, rfl⟩ := Size.add_eq_ok_iff.1 hfull
    obtain ⟨_, hallocatable, h⟩ := bind_eq_ok_iff.1 h
    obtain ⟨hlt, rfl⟩ := Size.allocatable_eq_ok_iff.1 hallocatable
    cases h
    exact ⟨⟨by omega, by omega, hlt⟩, rfl⟩
  · intro h
    rcases h with ⟨⟨hexecutable, hcomplete, hlt⟩, rfl⟩
    -- Memory is scarcer than sizes, so the sum that is allocated is a size.
    refine ⟨by omega, by omega, _, Size.add_eq_ok_iff.2 ⟨by omega, rfl⟩, ?_⟩
    exact bind_eq_ok_iff.2 ⟨_, Size.allocatable_eq_ok_iff.2 ⟨hlt, rfl⟩, rfl⟩

theorem Loaded.Usable.length_blob {loaded : Loaded} {reserved : Nat} (h : loaded.Usable reserved) :
    loaded.blob.length = loaded.layout.kernelSize := by
  rw [blob, List.length_take]
  exact Nat.min_eq_left h.complete

theorem Loaded.Usable.length_fitted {loaded : Loaded} {reserved : Nat} (h : loaded.Usable reserved) :
    (loaded.fitted reserved).image.length = loaded.layout.kernelSize + reserved := by
  rw [fitted, List.length_append, Bytes.length_zeros, h.length_blob]

/-! ## §2 Flat kernels -/

/-- The size of a flat kernel: that of its file in whole words. -/
def flatSize (word : WordWidth) (content : Bytes) : Nat := Alignment.roundUp word.bytes content.length

/-- What becomes of a flat kernel with room for `reserved` more bytes. -/
def Loaded.ofFlat (word : WordWidth) (content : Bytes) (reserved : Nat) : Loaded :=
  ⟨content.resize (flatSize word content + reserved),
    { kernelSize := flatSize word content, executableSize := flatSize word content }⟩

section Flat

variable {files : FileSystem} {request : Request} {word : WordWidth} {content : Bytes} {reserved : Nat}

/-- Filling a word adds less than the longest word. -/
theorem flatSize_lt (word : WordWidth) (content : Bytes) :
    flatSize word content < content.length + 8 := by
  have hword : word.bytes ≤ 8 := by cases word <;> decide
  exact Nat.lt_of_lt_of_le (Alignment.roundUp_lt word.bytes_pos _) (Nat.add_le_add_left hword _)

/-- A file of whole words is loaded as it is. -/
theorem flatSize_of_dvd (h : word.bytes ∣ content.length) : flatSize word content = content.length :=
  Alignment.roundUp_eq_self word.bytes_pos h

/-- A kernel of whole words is its own blob. -/
theorem blob_ofFlat_of_dvd (h : word.bytes ∣ content.length) :
    (Loaded.ofFlat word content reserved).blob = content := by
  rw [Loaded.blob, Loaded.ofFlat, flatSize_of_dvd h, Bytes.resize_of_length_le (Nat.le_add_right _ _)]
  exact List.take_left' rfl

/-- **Loading a flat kernel**: it has to be a file, and there has to be memory for it. -/
theorem Loader.flat_eq_ok_iff {loaded : Loaded} :
    (Loader.flat files).load request = .ok loaded ↔
      ∃ content, files.content? request.path = some content ∧
        flatSize request.target.format.word content + request.reserved < Size.bufferBound ∧
        loaded = .ofFlat request.target.format.word content request.reserved := by
  have hbound : Size.bufferBound ≤ Size.bound := by decide
  simp only [Loader.flat, bind_eq_ok_iff, FileSystem.read_eq_ok_iff_content?,
    Target.alignToWord_eq_ok_iff, Size.add_eq_ok_iff, Size.allocatable_eq_ok_iff]
  refine exists_congr fun content => and_congr_right fun _ => ⟨?_, ?_⟩
  · intro h
    rcases h with ⟨_, ⟨-, rfl⟩, _, ⟨-, rfl⟩, _, ⟨hlt, rfl⟩, h⟩
    cases h
    exact ⟨hlt, rfl⟩
  · intro h
    rcases h with ⟨hlt, rfl⟩
    -- The sum that rounding starts from is a size, since the rounded size is one.
    have hround := (Alignment.roundUp_lt_iff request.target.format.word.bytes_pos
      request.target.format.word.bytes_dvd_bound).1
        (show flatSize request.target.format.word content < Size.bound by omega)
    exact ⟨_, ⟨hround, rfl⟩, _, ⟨by rw [flatSize] at hlt; omega, rfl⟩, _, ⟨hlt, rfl⟩, rfl⟩

/-- Loading a flat kernel is free of faults where there is memory for it. -/
theorem Loader.faultFree_flat
    (h : ∀ content, files.content? request.path = some content →
      flatSize request.target.format.word content + request.reserved < Size.bufferBound) :
    FaultFree ((Loader.flat files).load request) := by
  have hbound : Size.bufferBound ≤ Size.bound := by decide
  refine (files.faultFree_read request.path).bind fun content hcontent => ?_
  have hlt := h content (FileSystem.read_eq_ok_iff_content?.1 hcontent)
  refine (request.target.faultFree_alignToWord content.length).bind fun size hsize => ?_
  obtain ⟨-, rfl⟩ := Target.alignToWord_eq_ok_iff.1 hsize
  rw [flatSize] at hlt
  -- What could fault is the sum, and the memory for it.
  refine (Size.faultFree_add (by omega)).bind fun full hfull => ?_
  obtain ⟨-, rfl⟩ := Size.add_eq_ok_iff.1 hfull
  rw [Size.allocatable, if_pos hlt, ok_bind]
  exact faultFree_ok _

/-- **A flat kernel can be used**, since its loader reports what it gives. -/
theorem usable_ofFlat (h : flatSize word content + reserved < Size.bufferBound) :
    (Loaded.ofFlat word content reserved).Usable reserved := by
  refine ⟨Nat.le_refl _, ?_, h⟩
  rw [Loaded.ofFlat, Bytes.length_resize]
  exact Nat.le_add_right _ _

end Flat

/-! ## §3 Alike kernels -/

/-- Reports of the same sizes and the same start. -/
structure Layout.Alike (layout other : Layout) : Prop where
  kernelSize : layout.kernelSize = other.kernelSize
  executableSize : layout.executableSize = other.executableSize
  bssSize : layout.bssSize = other.bssSize
  startAddress : layout.startAddress = other.startAddress
  relocationSize : layout.relocationSize = other.relocationSize

theorem Layout.Alike.symm {layout other : Layout} (h : layout.Alike other) :
    other.Alike layout :=
  ⟨h.kernelSize.symm, h.executableSize.symm, h.bssSize.symm, h.startAddress.symm, h.relocationSize.symm⟩

/-- Kernels of one length with alike reports. -/
structure Loaded.Alike (loaded other : Loaded) : Prop where
  length : loaded.image.length = other.image.length
  layout : loaded.layout.Alike other.layout

/-- Answers of two loaders: two failures, or alike kernels. -/
inductive AnswersAlike : Result Loaded → Result Loaded → Prop where
  /-- Neither loader gives a kernel. -/
  | failed {failure other : Failure} : AnswersAlike (.error failure) (.error other)
  /-- The kernels are alike. -/
  | loaded {loaded other : Loaded} : loaded.Alike other → AnswersAlike (.ok loaded) (.ok other)

theorem Loaded.Alike.symm {loaded other : Loaded} (h : loaded.Alike other) : other.Alike loaded :=
  ⟨h.length.symm, h.layout.symm⟩

theorem AnswersAlike.symm {answer other : Result Loaded} (h : AnswersAlike answer other) :
    AnswersAlike other answer := by
  cases h with
  | failed => exact .failed
  | loaded h => exact .loaded h.symm

/-- Where one loader gives a kernel, the other one gives one that is alike. -/
theorem AnswersAlike.exists_ok {answer other : Result Loaded} {loaded : Loaded}
    (h : AnswersAlike answer other) (hanswer : answer = .ok loaded) :
    ∃ kernel, other = .ok kernel ∧ loaded.Alike kernel := by
  cases h with
  | failed => cases hanswer
  | loaded h =>
    cases hanswer
    exact ⟨_, rfl, h⟩

/-- Whether a kernel can be used hangs on its sizes alone. -/
theorem Loaded.Alike.usable {loaded other : Loaded} {reserved : Nat} (h : loaded.Alike other)
    (husable : loaded.Usable reserved) : other.Usable reserved := by
  obtain ⟨hlength, hlayout⟩ := h
  obtain ⟨hexecutable, hcomplete, hallocatable⟩ := husable
  rw [hlayout.kernelSize] at hexecutable hcomplete hallocatable
  rw [hlayout.executableSize] at hexecutable
  exact ⟨hexecutable, hlength ▸ hcomplete, hallocatable⟩

/-- Answers of which each one follows the other are alike. -/
theorem AnswersAlike.of_ok {answer other : Result Loaded}
    (hleft : ∀ loaded, answer = .ok loaded → ∃ kernel, other = .ok kernel ∧ loaded.Alike kernel)
    (hright : ∀ kernel, other = .ok kernel → ∃ loaded, answer = .ok loaded) :
    AnswersAlike answer other := by
  cases answer with
  | ok loaded =>
    obtain ⟨kernel, rfl, h⟩ := hleft loaded rfl
    exact .loaded h
  | error failure =>
    cases other with
    | error => exact .failed
    | ok kernel =>
      obtain ⟨loaded, h⟩ := hright kernel rfl
      cases h

section Flat

variable {files₁ files₂ : FileSystem} {request : Request}

/-- A flat kernel of the same length is alike, whatever its bytes are. -/
theorem Loader.flat_alike_ok {loaded : Loaded}
    (hfiles : Bytes.SameLength (files₁.content? request.path) (files₂.content? request.path))
    (h : (Loader.flat files₁).load request = .ok loaded) :
    ∃ kernel, (Loader.flat files₂).load request = .ok kernel ∧ loaded.Alike kernel := by
  obtain ⟨content, hcontent, hroom, rfl⟩ := Loader.flat_eq_ok_iff.1 h
  obtain ⟨other, hother, hlength⟩ := hfiles.exists_some hcontent
  have hsize : flatSize request.target.format.word content =
      flatSize request.target.format.word other := by rw [flatSize, flatSize, hlength]
  refine ⟨_, Loader.flat_eq_ok_iff.2 ⟨other, hother, hsize ▸ hroom, rfl⟩, ?_, ?_⟩
  · rw [Loaded.ofFlat, Loaded.ofFlat, Bytes.length_resize, Bytes.length_resize, hsize]
  · exact ⟨hsize, hsize, rfl, rfl, rfl⟩

/-- **Flat kernels**: loaders of flat kernels answer alike wherever the files have one length. -/
theorem Loader.flat_alike
    (hfiles : Bytes.SameLength (files₁.content? request.path) (files₂.content? request.path)) :
    AnswersAlike ((Loader.flat files₁).load request) ((Loader.flat files₂).load request) := by
  -- Having the same length goes both ways, so one direction is enough.
  refine .of_ok (fun loaded h => flat_alike_ok hfiles h) fun kernel h => ?_
  obtain ⟨loaded, hloaded, -⟩ := flat_alike_ok hfiles.symm h
  exact ⟨loaded, hloaded⟩

end Flat

end BootImage.Kernel
