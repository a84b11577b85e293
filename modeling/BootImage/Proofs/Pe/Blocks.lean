import BootImage.Proofs.Pe.Capacity
import Mathlib.Algebra.GroupWithZero.Nat

/-!
# Kernels that end inside a block

The kernel and the modules lie in the core image in a row, but the executable part of the kernel and the
rest of it are sections of their own, each rounded up to whole blocks of the file. Far below the limits
of 32 bits this is all that can keep a core image from being planned: where the two sections take one
block more than the core image has, the section of the modules would have to end before it starts.

- `Cursor.fits_of_sum`: sections that are small enough all together.
- `Cramped`: the kernels whose sections take one block too many.
- `Plan.make_eq_of_moderate`: planning a core image of moderate size.
-/

namespace BootImage.Pe

/-! ## §1 Small sections -/

/-- Sections fit if their sizes do all together, with one alignment more for each of them. -/
theorem Cursor.fits_of_sum {sectionAlign : Nat} {cursor : Cursor} {parts : List Part}
    (hpos : 0 < sectionAlign)
    (haddress : cursor.address + (parts.map (·.size + sectionAlign)).sum ≤ Size.bound32)
    (hoffset : cursor.offset + (parts.map (·.size + Target.peFileAlign)).sum ≤ Size.bound32) :
    cursor.Fits sectionAlign parts := by
  have hblock : 0 < Target.peFileAlign := by decide
  -- Rounding moves the cursor by less than the room that the section has for it.
  -- By induction on the parts. What is left of the sum is the room for the parts behind the cursor.
  induction parts generalizing cursor with
  | nil => trivial
  | cons part parts ih =>
    rw [List.map_cons, List.sum_cons] at haddress hoffset
    refine ⟨⟨by omega, by omega⟩, ih ?_ ?_⟩
    · have hnext := Alignment.roundUp_lt hpos (cursor.address + part.size)
      simp only [behind]
      omega
    · have hnext := Alignment.roundUp_lt hblock (cursor.offset + part.size)
      simp only [behind]
      omega

/-! ## §2 One block too many -/

/-- A kernel whose executable part and whose rest both leave a part of a block over, with so few modules
that one block holds both parts and the modules. -/
def Cramped (layout : Kernel.Layout) (modulesSize : Nat) : Prop :=
  layout.executableSize % Target.peFileAlign ≠ 0 ∧
    (layout.kernelSize - layout.executableSize) % Target.peFileAlign ≠ 0 ∧
      layout.executableSize % Target.peFileAlign +
        (layout.kernelSize - layout.executableSize) % Target.peFileAlign + modulesSize ≤
          Target.peFileAlign

instance (layout : Kernel.Layout) (modulesSize : Nat) : Decidable (Cramped layout modulesSize) :=
  inferInstanceAs (Decidable (_ ∧ _ ∧ _))

section Sizes

variable {t : Target} {layout : Kernel.Layout} {modulesSize : Nat} {metadata : Option Nat}

/-- There is room for the modules behind the kernel unless the kernel is cramped: the two rounded parts
are then no longer than the rounded whole. -/
theorem modulesStart_le_iff (word : WordWidth) (h : layout.executableSize ≤ layout.kernelSize) :
    modulesStart word layout ≤ modulesEnd word (layout.kernelSize + modulesSize) ↔
      ¬ Cramped layout modulesSize := by
  have hpos : 0 < Target.peFileAlign := by decide
  have hcore : layout.kernelSize + modulesSize =
      layout.executableSize + (layout.kernelSize - layout.executableSize) + modulesSize := by omega
  -- The headers end at a multiple of the block and drop out on both sides.
  rw [modulesStart, modulesEnd, dataRoom, Alignment.roundUp_add hpos (dvd_headerSize word),
    Nat.add_assoc, Nat.add_le_add_iff_left, hcore]
  exact Alignment.roundUp_add_roundUp_le_iff hpos _ _ _

/-- A core image that holds its kernel and its modules and stays below half of the 32-bit limit, with
the headers, the secure-boot metadata and the relocation table. -/
structure Moderate (t : Target) (layout : Kernel.Layout) (modulesSize : Nat) (metadata : Option Nat) :
    Prop where
  aligned : t.sectionAlign = Target.peSectionAlign
  executable : layout.executableSize ≤ layout.kernelSize
  small : headerSize t.format.word + (layout.kernelSize + modulesSize) + metadata.getD 0 +
    layout.relocationSize < 0x80000000

namespace Moderate

theorem isPowerOfTwo (h : Moderate t layout modulesSize metadata) : t.sectionAlign.isPowerOfTwo := by
  rw [h.aligned]
  decide

/-- What rounding adds to the parts of a core image of moderate size stays far below the 32-bit limit. -/
theorem bounds (h : Moderate t layout modulesSize metadata) :
    modulesEnd t.format.word (layout.kernelSize + modulesSize) +
        Alignment.roundUp Target.peFileAlign layout.relocationSize +
          (metadata.map (metadataSpace t.format.word)).getD 0 < 0x80001000 ∧
      Plan.exactDataSize t.format.word layout modulesSize metadata < 0x80001000 := by
  have hpos : 0 < Target.peFileAlign := by decide
  have hblock : Target.peFileAlign = 0x200 := rfl
  have hsmall := h.small
  have hspace := space_le t.format.word metadata
  have hend := Alignment.roundUp_lt hpos (headerSize t.format.word + (layout.kernelSize + modulesSize))
  have htable := Alignment.roundUp_lt hpos layout.relocationSize
  have hdata := Alignment.roundUp_lt hpos (layout.kernelSize - layout.executableSize)
  have hmodules := Alignment.roundUp_lt hpos modulesSize
  -- Every rounding adds less than a block.
  rw [modulesEnd, Plan.exactDataSize, dataRoom]
  exact ⟨by omega, by omega⟩

theorem fits (h : Moderate t layout modulesSize metadata)
    (hholds : modulesStart t.format.word layout ≤
      modulesEnd t.format.word (layout.kernelSize + modulesSize)) :
    (Cursor.start t.format.word).Fits t.sectionAlign
      (parts t.format.word (layout.kernelSize + modulesSize) layout metadata ++
        [⟨.relocations, layout.relocationSize⟩]) := by
  have hpos : 0 < Target.peFileAlign := by decide
  have hblock : Target.peFileAlign = 0x200 := rfl
  have halign : t.sectionAlign = 0x1000 := h.aligned
  have hbound : Size.bound32 = 0x100000000 := rfl
  obtain ⟨himage, -⟩ := h.bounds
  have hcode := Alignment.le_roundUp hpos layout.executableSize
  have htable := Alignment.le_roundUp hpos layout.relocationSize
  rw [modulesStart] at hholds
  -- The sections of the core image end where it does, and there are at most two more.
  apply Cursor.fits_of_sum
  · omega
  · cases metadata <;> simp [parts, coreParts, metadataParts, Cursor.start, modulesStart] at himage ⊢ <;>
      omega
  · cases metadata <;> simp [parts, coreParts, metadataParts, Cursor.start, modulesStart] at himage ⊢ <;>
      omega

/-- Without a kernel that is cramped, nothing is left that could refuse a core image of moderate size. -/
theorem feasible (h : Moderate t layout modulesSize metadata) (hroom : ¬ Cramped layout modulesSize) :
    Plan.Feasible t (layout.kernelSize + modulesSize) layout modulesSize metadata := by
  have hholds := (modulesStart_le_iff t.format.word h.executable).2 hroom
  have hbound : Size.bound32 = 0x100000000 := rfl
  obtain ⟨-, hdata⟩ := h.bounds
  exact ⟨h.isPowerOfTwo, h.executable, hholds, by omega, h.fits hholds⟩

/-- The sections of the kernel fit, whether or not there is room for modules behind them. -/
theorem takes_kernel (h : Moderate t layout modulesSize metadata) :
    (Cursor.start t.format.word).Takes t.sectionAlign layout.executableSize ∧
      ((Cursor.start t.format.word).behind t.sectionAlign layout.executableSize).Takes t.sectionAlign
        (dataRoom layout) := by
  have hpos : 0 < Target.peFileAlign := by decide
  have hblock : Target.peFileAlign = 0x200 := rfl
  have halign : t.sectionAlign = 0x1000 := h.aligned
  have hbound : Size.bound32 = 0x100000000 := rfl
  have hsmall := h.small
  have hexecutable := h.executable
  have haddress := Alignment.roundUp_lt (show 0 < t.sectionAlign by omega)
    (headerSize t.format.word + layout.executableSize)
  have hoffset := Alignment.roundUp_lt hpos (headerSize t.format.word + layout.executableSize)
  have hdata := Alignment.roundUp_lt hpos (layout.kernelSize - layout.executableSize)
  -- Both alignments are known numbers, so all that remains is arithmetic.
  simp only [Cursor.Takes, Cursor.behind, Cursor.start, dataRoom]
  omega

/-- A kernel whose sections take one block too many is refused, and nothing is found wrong before. -/
theorem make_of_cramped (h : Moderate t layout modulesSize metadata)
    (hcramped : Cramped layout modulesSize) :
    Plan.make t (layout.kernelSize + modulesSize) layout modulesSize metadata =
      refuse (.coreSmallerThanKernel (layout.kernelSize + modulesSize)) := by
  have hblock : Target.peFileAlign = 0x200 := rfl
  have hbound : Size.bound32 = 0x100000000 := rfl
  have hsize : Size.bound = 0x10000000000000000 := rfl
  have hsmall := h.small
  have hexecutable := h.executable
  -- The sections of the kernel end behind the core image.
  have hshort : modulesEnd t.format.word (layout.kernelSize + modulesSize) <
      modulesStart t.format.word layout :=
    Nat.lt_of_not_le fun hle => (modulesStart_le_iff t.format.word hexecutable).1 hle hcramped
  obtain ⟨himage, hdata⟩ := h.bounds
  obtain ⟨htext, hrest⟩ := h.takes_kernel
  rw [Plan.exactDataSize] at hdata
  rw [Plan.make]
  -- All sums and sizes are far below the limits, so it is the check behind the kernel that fails.
  simp (disch := omega) only [metadataRooms_eq_ok, ok_bind, alignToFile_of_lt, Size.add_of_lt,
    headerValue_of_lt, if_neg, ← modulesEnd.eq_def, ← dataRoom.eq_def,
    ← Cursor.start.eq_def]
  rw [Cursor.append_of_takes h.isPowerOfTwo htext, ok_bind,
    Cursor.append_of_takes h.isPowerOfTwo hrest, ok_bind, offset_after_kernel, if_pos hshort]

end Moderate

/-- **Planning a core image of moderate size**: the exact layout, unless the sections of the kernel
take one block too many. -/
theorem Plan.make_eq_of_moderate (h : Moderate t layout modulesSize metadata) :
    Plan.make t (layout.kernelSize + modulesSize) layout modulesSize metadata =
      if Cramped layout modulesSize then
        refuse (.coreSmallerThanKernel (layout.kernelSize + modulesSize))
      else .ok (Plan.exact t (layout.kernelSize + modulesSize) layout modulesSize metadata) := by
  split
  · next hroom => exact h.make_of_cramped hroom
  · next hroom => exact Plan.make_of_feasible (h.feasible hroom)

end Sizes

/-! ### Two kernels with data behind their code -/

namespace TwoParts

/-- A target like one of the registry, in the other byte order. -/
def target : Target :=
  { Target.efiI386 with format := ⟨.w32, .big⟩ }

/-- A kernel both parts of which end inside a block. -/
def layout : Kernel.Layout where
  kernelSize := 0x303
  executableSize := 0x101
  relocations := [0x10, 0x20, 0x30]
  startAddress := 0x400

/-- A kernel of two words, one of them code. -/
def words : Kernel.Layout where
  kernelSize := 8
  executableSize := 4

theorem moderate : Moderate target layout 0x210 (some 5) := ⟨rfl, by decide, by decide⟩

end TwoParts

theorem Plan.make_eq_of_moderate_twoParts :
    Plan.make TwoParts.target (0x303 + 0x210) TwoParts.layout 0x210 (some 5) =
      .ok (Plan.exact TwoParts.target (0x303 + 0x210) TwoParts.layout 0x210 (some 5)) :=
  (Plan.make_eq_of_moderate TwoParts.moderate).trans (if_neg (by decide))

/-- Of a kernel of two words and modules of three, all twenty bytes are there, and yet the core image is
refused as smaller than the sections of the kernel. -/
theorem Plan.make_of_two_words :
    Moderate Target.efiI386 TwoParts.words 12 none ∧
      Plan.make Target.efiI386 (8 + 12) TwoParts.words 12 none =
        refuse (.coreSmallerThanKernel 20) := by
  have hmoderate : Moderate Target.efiI386 TwoParts.words 12 none :=
    ⟨rfl, by decide, by decide⟩
  exact ⟨hmoderate, hmoderate.make_of_cramped (by decide)⟩

end BootImage.Pe
