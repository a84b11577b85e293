import BootImage.Proofs.Pe.Blocks
import Mathlib.Data.List.Chain

/-!
# The sections of a planned PE image

Sections are laid out one behind the other, in memory and in the file, and the size of the image is
fixed before the first of them has a place. What one section hands to the next gives the whole table:
no two sections overlap, and the last one ends where the image does.

- `Section.Follows`: a section right behind another one; `Cursor.isChain_lay`: sections laid out by a
  cursor follow one another.
- `Section.Before`: a section that ends before another one starts.
- `Plan.sections_of_make`: the section table of a plan.
-/

namespace BootImage.Pe

/-! ## §1 One section and the next -/

/-- The second section starts at the first place behind the other one that is aligned, in memory and in
the file. -/
structure Section.Follows (sectionAlign : Nat) (s next : Section) : Prop where
  address : IsLeast {n | sectionAlign ∣ n ∧ s.virtualAddress + s.virtualSize ≤ n} next.virtualAddress
  offset : IsLeast {n | Target.peFileAlign ∣ n ∧ s.rawOffset + s.rawSize ≤ n} next.rawOffset

/-- The first section ends before the other one starts, in memory and in the file. -/
structure Section.Before (s other : Section) : Prop where
  address : s.virtualAddress + s.virtualSize ≤ other.virtualAddress
  offset : s.rawOffset + s.rawSize ≤ other.rawOffset

/-- A section that follows another one does not overlap it. -/
theorem Section.Follows.before {sectionAlign : Nat} {s next : Section}
    (h : s.Follows sectionAlign next) : s.Before next :=
  ⟨h.address.1.2, h.offset.1.2⟩

instance : Trans Section.Before Section.Before Section.Before where
  trans {s u v} hsu huv := by
    obtain ⟨haddress, hoffset⟩ := hsu
    obtain ⟨haddress', hoffset'⟩ := huv
    exact ⟨by omega, by omega⟩

namespace Cursor

variable {sectionAlign : Nat} {cursor : Cursor} {parts : List Part}

/-- **One step of the layout**: what is put behind a section follows it. -/
theorem follows_behind (hpos : 0 < sectionAlign) (cursor : Cursor) (part next : Part) :
    Section.Follows sectionAlign ⟨part.role, part.size, cursor.address, part.size, cursor.offset⟩
      ⟨next.role, next.size, (cursor.behind sectionAlign part.size).address, next.size,
        (cursor.behind sectionAlign part.size).offset⟩ :=
  ⟨Alignment.isLeast_roundUp hpos _, Alignment.isLeast_roundUp (by decide) _⟩

/-- **The whole layout**: each section follows the one before it. -/
theorem isChain_lay (hpos : 0 < sectionAlign) :
    (cursor.lay sectionAlign parts).IsChain (Section.Follows sectionAlign) := by
  -- By induction on the parts, from the cursor that the first of them leaves.
  induction parts generalizing cursor with
  | nil => exact .nil
  | cons part parts ih =>
    cases parts with
    | nil => exact .singleton _
    | cons next parts => exact .cons_cons (follows_behind hpos cursor part next) ih

/-- Laying parts out keeps their order. -/
theorem map_name_lay :
    (cursor.lay sectionAlign parts).map (·.role.name) = parts.map (·.role.name) := by
  induction parts generalizing cursor with
  | nil => rfl
  | cons part parts ih => simp [lay, ih]

/-- From an aligned offset on, all offsets are aligned. -/
theorem dvd_rawOffset_of_mem_lay (h : Target.peFileAlign ∣ cursor.offset) :
    ∀ s ∈ cursor.lay sectionAlign parts, Target.peFileAlign ∣ s.rawOffset := by
  induction parts generalizing cursor with
  | nil => simp [lay]
  | cons part parts ih =>
    rw [lay, List.forall_mem_cons]
    -- Behind every section the cursor is rounded, whatever the size of the section.
    exact ⟨h, ih (Alignment.dvd_roundUp _ _)⟩

end Cursor

/-! ## §2 The section table -/

section Planned

variable {t : Target} {coreSize modulesSize : Nat} {layout : Kernel.Layout} {metadata : Option Nat}

/-- The names of the sections in their order, with metadata or without. -/
theorem names_exact :
    (Plan.exact t coreSize layout modulesSize metadata).sections.map (·.role.name) =
      [".text", ".data", "mods"] ++ (if metadata.isSome then [".sbat"] else []) ++ [".reloc"] := by
  rw [Plan.exact, Cursor.map_name_lay]
  cases metadata <;> rfl

/-- **The sections of a plan.** They are those of the kernel, that of the modules, that of the
secure-boot metadata exactly when there is any, and that of the relocation table. The first one starts
behind the headers and each of the others follows the one before, so no two of them overlap; all offsets
are aligned, all numbers have 32 bits, and the image ends where the last section does, rounded up. -/
theorem Plan.sections_of_make {plan : Plan}
    (h : Plan.make t coreSize layout modulesSize metadata = .ok plan) :
    plan.headerSize = Pe.headerSize t.format.word ∧
      plan.sections.map (·.role.name) =
        [".text", ".data", "mods"] ++ (if metadata.isSome then [".sbat"] else []) ++ [".reloc"] ∧
      (∀ s ∈ plan.sections.head?,
        s.virtualAddress = plan.headerSize ∧ s.rawOffset = plan.headerSize) ∧
      plan.sections.IsChain (Section.Follows t.sectionAlign) ∧
      plan.sections.Pairwise Section.Before ∧
      (∀ s ∈ plan.sections, Target.peFileAlign ∣ s.rawOffset) ∧
      plan.Counted ∧
      ∀ s ∈ plan.sections.getLast?,
        IsLeast {n | Target.peFileAlign ∣ n ∧ s.rawOffset + s.rawSize ≤ n} plan.imageSize := by
  obtain ⟨hfeasible, rfl⟩ := Plan.make_eq_ok_iff.1 h
  have hchain : (Plan.exact t coreSize layout modulesSize metadata).sections.IsChain
      (Section.Follows t.sectionAlign) :=
    Cursor.isChain_lay (Nat.pos_of_isPowerOfTwo hfeasible.aligned)
  refine ⟨rfl, names_exact, ?_, hchain, ?_, ?_, hfeasible.counted_exact, ?_⟩
  · intro s hs
    cases hs
    exact ⟨rfl, rfl⟩
  · -- Ending before the next one starts carries over from neighbours to all pairs.
    exact (hchain.imp fun _ _ => Section.Follows.before).pairwise
  · exact Cursor.dvd_rawOffset_of_mem_lay (dvd_headerSize t.format.word)
  · intro s hs
    rw [sections_exact, List.getLast?_concat, Option.mem_some_iff] at hs
    rw [← hs, Plan.imageSize_exact hfeasible.holdsKernel]
    exact Alignment.isLeast_roundUp (by decide) _

end Planned

/-- A kernel that is executable in part, with metadata and a relocation table. -/
theorem Plan.sections_of_make_twoParts :
    ∃ plan, Plan.make TwoParts.target (0x303 + 0x210) TwoParts.layout 0x210 (some 5) = .ok plan ∧
      plan.headerSize = 0x400 ∧
      plan.sections.map (·.role.name) = [".text", ".data", "mods", ".sbat", ".reloc"] ∧
      (∀ s ∈ plan.sections.head?,
        s.virtualAddress = plan.headerSize ∧ s.rawOffset = plan.headerSize) ∧
      plan.sections.IsChain (Section.Follows 0x1000) ∧
      plan.sections.Pairwise Section.Before ∧
      (∀ s ∈ plan.sections, Target.peFileAlign ∣ s.rawOffset) ∧
      plan.Counted ∧
      ∀ s ∈ plan.sections.getLast?,
        IsLeast {n | Target.peFileAlign ∣ n ∧ s.rawOffset + s.rawSize ≤ n} plan.imageSize := by
  have h := Plan.make_of_feasible (TwoParts.moderate.feasible (by decide))
  exact ⟨_, h, Plan.sections_of_make h⟩

end BootImage.Pe
