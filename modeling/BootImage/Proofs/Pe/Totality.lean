import BootImage.Proofs.Pe.Contents

/-!
# What planning leaves to refuse

A plan was checked against the sizes of everything that goes into its image, so an image with those
sizes can be written. Planning only passes the address of the first instruction on; it is the one number
that can turn out too large for its field when the headers are written.

- `Plan.Feasible.headers_of_large_entry`: an address that its field cannot hold.
- `supplied_of_fits`: metadata that is given exactly where it was planned.
- `Plan.write_of_make`: when an image of a plan is written, and what is refused otherwise.
-/

namespace BootImage.Pe

section Writing

variable {files : FileSystem} {t : Target} {machine : Machine} {coreSize modulesSize : Nat}
  {layout : Kernel.Layout} {metadata : Option Nat} {path : Option Path} {core : Bytes}

/-! ## §1 The address of the first instruction -/

/-- The address has no part in the layout of the sections. -/
theorem Plan.Feasible.startAt (h : Plan.Feasible t coreSize layout modulesSize metadata)
    (address : Nat) :
    Plan.Feasible t coreSize { layout with startAddress := address } modulesSize metadata :=
  ⟨h.aligned, h.executable, h.holdsKernel, h.counted, h.fits⟩

theorem optionalPlace?_entryAddress (word : WordWidth) :
    optionalPlace? word .entryAddress = some ⟨16, 4⟩ := rfl

/-- The optional header is refused for the address of the first instruction, where that is its only
number of more than 32 bits. -/
theorem putFields_of_large_entry {plan : Plan} {dataBase : Nat} {buf : Bytes}
    (hplaced : ∀ field ∈ plan.optionalFields layout dataBase, field.Placed optionalOffset buf.length)
    (hvalues : ∀ name, name ≠ .entryAddress → plan.optionalValue layout dataBase name < Size.bound32)
    (hentry : Size.bound32 ≤ plan.entryAddress) :
    putFields plan.format optionalOffset buf (plan.optionalFields layout dataBase) =
      refuse (.valueTooLarge plan.entryAddress) := by
  have hlimit : ByteOrder.limit 4 = Size.bound32 := by decide
  rcases putFields_of_placed hplaced with hout | ⟨field, hfield, htakes, hrefuse⟩
  · -- A header that was written would hold the address.
    have hwritable := exists_putFields_iff.1 hout _
      (mem_optionalFields layout dataBase (optionalPlace?_entryAddress plan.format.word))
    rcases hwritable.2.1 with ⟨hwidth, -⟩ | ⟨-, hvalue⟩ | hwidth
    · cases hwidth
    · rw [hlimit] at hvalue
      exact absurd hvalue (Nat.not_lt.2 hentry)
    · cases hwidth
  · -- The value that is reported is in the one field that does not take its value.
    obtain ⟨name, -, hname⟩ := List.mem_filterMap.1 hfield
    obtain ⟨place, hplace, rfl⟩ := Option.map_eq_some_iff.1 hname
    by_cases hother : name = .entryAddress
    · rw [hrefuse, hother]
      rfl
    · exact absurd (takes_optionalValue hplace (hvalues name hother)) htakes

/-- **A large address**: the headers of a feasible layout are refused for the address of the first
instruction, where 32 bits do not suffice for it. -/
theorem Plan.Feasible.headers_of_large_entry
    (h : Plan.Feasible t coreSize layout modulesSize metadata)
    (hentry : Size.bound32 ≤ layout.startAddress) :
    (Plan.exact t coreSize layout modulesSize metadata).headers machine layout =
      refuse (.valueTooLarge layout.startAddress) := by
  have hbound : Size.bound32 ≤ Size.bound := by decide
  have hroomy := @roomy_exact t coreSize modulesSize layout metadata
  have hcount := @length_sections_exact t coreSize modulesSize layout metadata
  have hsize := h.counted_exact.headerSize
  have hbase := h.dataBase_lt
  have hvalues := fun name hname => @optionalValue_lt t coreSize modulesSize layout metadata h name hname
  have hlarge : Size.bound32 ≤ (Plan.exact t coreSize layout modulesSize metadata).entryAddress := hentry
  have haddress : layout.startAddress =
    (Plan.exact t coreSize layout modulesSize metadata).entryAddress := rfl
  rw [haddress]
  -- From here on only these facts about the plan matter.
  generalize Plan.exact t coreSize layout modulesSize metadata = plan at *
  have hblank := Plan.HeaderSteps.length_blank hroomy
  have htable : tableOffset plan.format.word ≤ plan.headerSize :=
    Nat.le_trans (Nat.le_add_right ..) hroomy
  have hoptional : optionalOffset ≤ tableOffset plan.format.word := Nat.le_add_right ..
  -- The file header holds no address, so it is written.
  obtain ⟨filed, hfiled⟩ : ∃ filed, putFields plan.format fileHeaderOffset plan.blank
      (plan.fileFields machine) = .ok filed :=
    exists_putFields_iff.2 (writable_fileFields (Nat.lt_of_le_of_lt hcount (by decide)) (by omega))
  have hlen := length_of_putFields hfiled
  rw [hblank] at hlen
  have hrefuse := putFields_of_large_entry
    (placed_optionalFields (by rwa [hlen]) (by omega)) hvalues hlarge
  rw [blank] at hfiled
  simp only [headers, hfiled, ok_bind, Size.add_of_lt (Nat.lt_of_lt_of_le hbase hbound), hrefuse]
  rfl

/-! ## §2 Writing what was planned -/

/-- Metadata that is given exactly where it was planned, as a file that fits its room. -/
theorem supplied_of_fits {word : WordWidth} (hgiven : path.isSome = metadata.isSome)
    (hfits : ∀ room ∈ metadata.map (metadataSpace word), ∀ p ∈ path, ∃ content,
      files.content? p = some content ∧ content.length ≤ room) :
    Supplied files word metadata path (path.map files.contentAt) := by
  -- It is given and planned, or neither.
  cases metadata with
  | none =>
    cases path with
    | none => trivial
    | some path => cases hgiven
  | some size =>
    cases path with
    | none => cases hgiven
    | some path =>
      obtain ⟨content, hcontent, hroom⟩ := hfits _ rfl path rfl
      rw [Option.map_some, FileSystem.contentAt_eq hcontent]
      exact ⟨hcontent, hroom⟩

/-- **Planning finds every problem but one.** A plan is written for a core image of the planned size, the
layout it was made for, and secure-boot metadata that is given exactly when it was planned and is a file
that fits its room. No step faults. There is an image exactly when the address of the first instruction
has 32 bits, and otherwise the plan is refused for its capacity. -/
theorem Plan.write_of_make {plan : Plan}
    (h : Plan.make t core.length layout modulesSize metadata = .ok plan)
    (hgiven : path.isSome = plan.metadataSize.isSome)
    (hfits : ∀ room ∈ plan.metadataSize, ∀ p ∈ path, ∃ content,
      files.content? p = some content ∧ content.length ≤ room) :
    FaultFree (plan.write files machine core layout path) ∧
      ((∃ image, plan.write files machine core layout path = .ok image) ↔
        layout.startAddress < Size.bound32) ∧
      (Size.bound32 ≤ layout.startAddress → ∃ cause,
        plan.write files machine core layout path = .error (.refused cause) ∧
          cause.kind = .capacity) := by
  obtain ⟨hfeasible, rfl⟩ := Plan.make_eq_ok_iff.1 h
  have hsupplied : Supplied files t.format.word metadata path (path.map files.contentAt) := by
    refine supplied_of_fits ?_ hfits
    rw [hgiven]
    exact Option.isSome_map
  rcases Nat.lt_or_ge layout.startAddress Size.bound32 with hsmall | hlarge
  case inl =>
    obtain ⟨headers, hheaders⟩ := hfeasible.exists_headers hsmall
    have hwrite := (Plan.write_exact_eq_ok_iff hfeasible.holdsKernel).2
      ⟨headers, _, hheaders, hsupplied, rfl⟩
    refine ⟨faultFree_of_eq_ok hwrite, ⟨fun _ => hsmall, fun _ => ⟨_, hwrite⟩⟩, fun hlarge => ?_⟩
    exact absurd hsmall (Nat.not_lt.2 hlarge)
  case inr =>
    have hroom : ¬ (Plan.exact t core.length layout modulesSize metadata).imageSize <
        (Plan.exact t core.length layout modulesSize metadata).headerSize + core.length := by
      have hend := le_modulesEnd t.format.word core.length
      have hheader : (Plan.exact t core.length layout modulesSize metadata).headerSize =
        Pe.headerSize t.format.word := rfl
      rw [imageSize_exact_eq]
      omega
    -- Nothing in front of the headers refuses the plan, and nothing behind them is reached.
    have hwrite : (Plan.exact t core.length layout modulesSize metadata).write files machine core layout
        path = refuse (.valueTooLarge layout.startAddress) := by
      rw [Plan.write, if_neg hroom, hfeasible.headers_of_large_entry hlarge]
      rfl
    refine ⟨?_, ⟨?_, fun hsmall => absurd hsmall (Nat.not_lt.2 hlarge)⟩, fun _ => ⟨_, hwrite, rfl⟩⟩
    · rw [hwrite]
      exact faultFree_refuse _
    · intro himage
      rcases himage with ⟨image, himage⟩
      rw [hwrite] at himage
      cases himage

end Writing

/-! ### An address of 33 bits -/

namespace TwoParts

/-- The layout of the two parts, with the first instruction behind the 32-bit addresses. -/
def farLayout : Kernel.Layout := { layout with startAddress := 0x100000000 }

end TwoParts

theorem Plan.write_of_make_twoParts :
    (∃ plan image, Plan.make TwoParts.target TwoParts.core.length TwoParts.layout 0x210 (some 5) =
        .ok plan ∧
      plan.write TwoParts.files .i386 TwoParts.core TwoParts.layout (some ⟨"sbat.csv"⟩) = .ok image) ∧
    ∃ plan cause, Plan.make TwoParts.target TwoParts.core.length TwoParts.farLayout 0x210 (some 5) =
        .ok plan ∧
      plan.write TwoParts.files .i386 TwoParts.core TwoParts.farLayout (some ⟨"sbat.csv"⟩) =
        .error (.refused cause) ∧ cause.kind = .capacity := by
  have hfits : ∀ room ∈ some (metadataSpace .w32 5), ∀ p ∈ some (⟨"sbat.csv"⟩ : Path), ∃ content,
      TwoParts.files.content? p = some content ∧ content.length ≤ room := by
    intro room hroom p _
    cases hroom
    exact ⟨[1, 2, 3, 4, 5], rfl, by decide⟩
  have hnear := Plan.make_of_feasible TwoParts.feasible
  have hfar := Plan.make_of_feasible (TwoParts.feasible.startAt 0x100000000)
  refine ⟨?_, ?_⟩
  · obtain ⟨image, himage⟩ := (Plan.write_of_make hnear rfl hfits).2.1.2 (by decide)
    exact ⟨_, image, hnear, himage⟩
  · obtain ⟨cause, hcause⟩ := (Plan.write_of_make hfar rfl hfits).2.2 (Nat.le_refl _)
    exact ⟨_, cause, hfar, hcause⟩

end BootImage.Pe
