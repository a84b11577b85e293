import BootImage.Proofs.Pe.Contents
import BootImage.Proofs.Pe.Coverage

/-!
# How much memory a PE image says it needs

The size in the headers of an image is that of its file. In memory the sections are laid out by another
alignment, so the same size covers them only where the two layouts agree, or where the alignment in
memory is no coarser than that of the file.

- `Cursor.address_le_offset_of_mem_lay`: with a fine alignment no section lies further in memory than
  in the file.
- `Cursor.Ahead`, `Cursor.Ahead.after`: with a coarse one the memory is ahead of the file by whole
  blocks, and never falls back.
- `Headers.CoversMemory`: whether the stated size covers the image in memory.
- `covers_memory_iff`: when it does.
-/

namespace BootImage

namespace Pe

/-! ## §1 Sections in the file and in memory -/

namespace Cursor

variable {sectionAlign : Nat} {cursor : Cursor} {parts : List Part}

theorem offset_le_behind (cursor : Cursor) (sectionAlign size : Nat) :
    cursor.offset + size ≤ (cursor.behind sectionAlign size).offset :=
  Alignment.le_roundUp (by decide) _

theorem offset_le_after : cursor.offset ≤ (cursor.after sectionAlign parts).offset := by
  -- By induction on the parts; no section moves the cursor back.
  induction parts generalizing cursor with
  | nil => exact Nat.le_refl _
  | cons part parts ih =>
    have hbehind := offset_le_behind cursor sectionAlign part.size
    exact Nat.le_trans (Nat.le_trans (Nat.le_add_right _ _) hbehind) ih

/-- In the file, sections lie between the cursor they are laid out from and the cursor behind them. -/
theorem mem_lay_offset :
    ∀ s ∈ cursor.lay sectionAlign parts, cursor.offset ≤ s.rawOffset ∧
      s.rawOffset + s.rawSize ≤ (cursor.after sectionAlign parts).offset := by
  -- By induction on the parts: the first section starts at the cursor, and the others behind its end.
  induction parts generalizing cursor with
  | nil => simp [lay]
  | cons part parts ih =>
    have hbehind := offset_le_behind cursor sectionAlign part.size
    rw [lay, List.forall_mem_cons]
    refine ⟨⟨Nat.le_refl _, Nat.le_trans hbehind offset_le_after⟩, fun s hs => ?_⟩
    obtain ⟨hlow, hhigh⟩ := ih s hs
    exact ⟨by omega, hhigh⟩

/-- In memory a section has the size that it has in the file. -/
theorem virtualSize_of_mem_lay :
    ∀ s ∈ cursor.lay sectionAlign parts, s.virtualSize = s.rawSize := by
  induction parts generalizing cursor with
  | nil => simp [lay]
  | cons part parts ih =>
    rw [lay, List.forall_mem_cons]
    exact ⟨rfl, ih⟩

/-! ### A fine alignment in memory -/

theorem behind_address_le_offset (hpos : 0 < sectionAlign) (hfine : sectionAlign ∣ Target.peFileAlign)
    {size : Nat} (h : cursor.address ≤ cursor.offset) :
    (cursor.behind sectionAlign size).address ≤ (cursor.behind sectionAlign size).offset := by
  have hround := offset_le_behind cursor sectionAlign size
  -- What is aligned for the file is aligned for the memory.
  exact Alignment.roundUp_le hpos (Nat.dvd_trans hfine (Alignment.dvd_roundUp _ _)) (by omega)

/-- With an alignment no coarser than that of the file, no section lies further in memory than in the
file. -/
theorem address_le_offset_of_mem_lay (hpos : 0 < sectionAlign)
    (hfine : sectionAlign ∣ Target.peFileAlign) (h : cursor.address ≤ cursor.offset) :
    ∀ s ∈ cursor.lay sectionAlign parts, s.virtualAddress ≤ s.rawOffset := by
  -- By induction on the parts. That the address is no further than the offset is kept by each section.
  induction parts generalizing cursor with
  | nil => simp [lay]
  | cons part parts ih =>
    rw [lay, List.forall_mem_cons]
    exact ⟨h, ih (behind_address_le_offset hpos hfine h)⟩

/-! ### A coarse alignment in memory -/

/-- A cursor that is at least as far in memory as in the file, by whole blocks of the file. -/
structure Ahead (cursor : Cursor) : Prop where
  address : Target.peFileAlign ∣ cursor.address
  offset : Target.peFileAlign ∣ cursor.offset
  ahead : cursor.offset ≤ cursor.address

/-- **One section**: with an alignment no finer than that of the file, the memory stays ahead, by no less
than before. -/
theorem Ahead.behind (h : cursor.Ahead) (hpos : 0 < sectionAlign)
    (hcoarse : Target.peFileAlign ∣ sectionAlign) (size : Nat) :
    (cursor.behind sectionAlign size).Ahead ∧
      cursor.address + (cursor.behind sectionAlign size).offset ≤
        (cursor.behind sectionAlign size).address + cursor.offset := by
  have hfile : 0 < Target.peFileAlign := by decide
  have haddress := Alignment.roundUp_add hfile h.address size
  have hoffset := Alignment.roundUp_add hfile h.offset size
  -- A multiple of the coarse alignment is one of the fine alignment, so it is no smaller.
  have hle : Alignment.roundUp Target.peFileAlign (cursor.address + size) ≤
      Alignment.roundUp sectionAlign (cursor.address + size) :=
    Alignment.roundUp_le hfile (Nat.dvd_trans hcoarse (Alignment.dvd_roundUp _ _))
      (Alignment.le_roundUp hpos _)
  have hahead := h.ahead
  simp only [Cursor.behind]
  refine ⟨⟨Nat.dvd_trans hcoarse (Alignment.dvd_roundUp _ _), Alignment.dvd_roundUp _ _, ?_⟩, ?_⟩
  · show Alignment.roundUp _ _ ≤ Alignment.roundUp _ _
    omega
  · omega

/-- **All sections**: the memory stays ahead, and no section is further ahead than the end is. -/
theorem Ahead.after (h : cursor.Ahead) (hpos : 0 < sectionAlign)
    (hcoarse : Target.peFileAlign ∣ sectionAlign) :
    (cursor.after sectionAlign parts).Ahead ∧
      cursor.address + (cursor.after sectionAlign parts).offset ≤
        (cursor.after sectionAlign parts).address + cursor.offset ∧
      ∀ s ∈ cursor.lay sectionAlign parts, s.rawOffset ≤ s.virtualAddress ∧
        s.virtualAddress + (cursor.after sectionAlign parts).offset ≤
          (cursor.after sectionAlign parts).address + s.rawOffset := by
  -- By induction on the parts. Each step adds to how far the memory is ahead, so the last cursor is
  -- furthest.
  induction parts generalizing cursor with
  | nil => exact ⟨h, Nat.le_refl _, by simp [lay]⟩
  | cons part parts ih =>
    obtain ⟨hbehind, hstep⟩ := h.behind hpos hcoarse part.size
    obtain ⟨hafter, hrest, hsections⟩ := ih hbehind
    -- The cursor behind the first section leads to the same end.
    have hend : cursor.after sectionAlign (part :: parts) =
        (cursor.behind sectionAlign part.size).after sectionAlign parts := rfl
    rw [hend, lay, List.forall_mem_cons]
    have hfirst : cursor.address + ((cursor.behind sectionAlign part.size).after sectionAlign
        parts).offset ≤ ((cursor.behind sectionAlign part.size).after sectionAlign parts).address +
          cursor.offset := by omega
    exact ⟨hafter, hfirst, ⟨h.ahead, hfirst⟩, hsections⟩

end Cursor

/-! ## §2 Written images -/

/-- Pieces behind a front part leave that part and the length alone. -/
theorem foldl_overlay_front {front rest : Bytes} {pieces : List Piece}
    (h : ∀ p ∈ pieces, front.length ≤ p.offset ∧ p.finish ≤ (front ++ rest).length) :
    ∃ later, pieces.foldl (fun image p => image.overlay p.offset p.content) (front ++ rest) =
      front ++ later ∧ later.length = rest.length := by
  -- By induction on the pieces, each of which is put over what lies behind the front part.
  induction pieces generalizing rest with
  | nil => exact ⟨rest, rfl, rfl⟩
  | cons p pieces ih =>
    rw [List.forall_mem_cons] at h
    obtain ⟨⟨hfront, hfit⟩, hpieces⟩ := h
    rw [Piece.finish, List.length_append] at hfit
    have hlen : (Bytes.overlay rest (p.offset - front.length) p.content).length = rest.length :=
      Bytes.length_overlay (by omega)
    rw [List.foldl_cons, Bytes.overlay_append_right hfront]
    obtain ⟨later, hlater, hlength⟩ := @ih (Bytes.overlay rest (p.offset - front.length) p.content)
      (by simpa [hlen] using hpieces)
    exact ⟨later, hlater, hlength.trans hlen⟩

section Written

variable {files : FileSystem} {t : Target} {plan : Plan} {machine : Machine} {core image : Bytes}
  {layout written : Kernel.Layout} {coreSize modulesSize : Nat} {metadata : Option Nat}
  {path : Option Path}

theorem mem_of_section? {role : SectionRole} {s : Section} (h : plan.section? role = some s) :
    s ∈ plan.sections :=
  List.mem_of_find?_eq_some h

/-- Every piece of secure-boot metadata goes to the start of a section and ends inside the image. -/
theorem metadataPieces_within {pieces : List Piece}
    (h : plan.metadataPieces files path = .ok pieces) :
    ∀ p ∈ pieces, (∃ s ∈ plan.sections, p.offset = s.rawOffset) ∧ p.finish ≤ plan.imageSize := by
  -- There is a piece only where metadata was planned and is given.
  unfold Plan.metadataPieces at h
  split at h
  · rename_i s room path hsection _
    split at h
    · simp at h
    · rename_i hroom
      simp only [bind_eq_ok_iff, FileSystem.readWithin_eq_ok_iff] at h
      obtain ⟨content, ⟨-, hlen⟩, h⟩ := h
      cases h
      rw [List.forall_mem_singleton]
      refine ⟨⟨s, mem_of_section? hsection, rfl⟩, ?_⟩
      exact Nat.le_trans (Nat.add_le_add_left hlen _) (Nat.le_of_not_lt hroom)
  · cases h
    simp
  · simp at h

/-- The relocation table goes to the start of its section and ends inside the image. -/
theorem relocationPieces_within {pieces : List Piece}
    (h : plan.relocationPieces written = .ok pieces) :
    (∀ s ∈ plan.section? .relocations, s.rawOffset + written.relocationSize ≤ plan.imageSize) ∧
      ∀ p ∈ pieces, (∃ s ∈ plan.sections, p.offset = s.rawOffset) ∧ p.finish ≤ plan.imageSize := by
  -- Without a section for it, no table is written.
  unfold Plan.relocationPieces at h
  split at h
  · rename_i hsection
    cases h
    simp [hsection]
  · rename_i s hsection
    rw [guard_eq_ok_iff] at h
    obtain ⟨hroom, h⟩ := h
    cases h
    have hend : s.rawOffset + written.relocations.length ≤ plan.imageSize := Nat.le_of_not_lt hroom
    rw [hsection, List.forall_mem_singleton]
    refine ⟨?_, ⟨s, mem_of_section? hsection, rfl⟩, hend⟩
    rintro _ ⟨⟩
    exact hend

/-- What is written by an exact plan, for any core image and any layout that it accepts: headers, behind
them anything, in all as many bytes as planned. -/
theorem Plan.headers_of_write_exact
    (h : (Plan.exact t coreSize layout modulesSize metadata).write files machine core written path =
      .ok image) :
    ∃ headers rest, (Plan.exact t coreSize layout modulesSize metadata).headers machine written =
        .ok headers ∧ image = headers ++ rest ∧
      image.length = (Plan.exact t coreSize layout modulesSize metadata).imageSize ∧
      ∀ s ∈ (Plan.exact t coreSize layout modulesSize metadata).section? .relocations,
        s.rawOffset + written.relocationSize ≤
          (Plan.exact t coreSize layout modulesSize metadata).imageSize := by
  rw [Plan.write, guard_eq_ok_iff] at h
  obtain ⟨hroom, h⟩ := h
  obtain ⟨headers, hheaders, h⟩ := bind_eq_ok_iff.1 h
  obtain ⟨metadataPieces, hmetadata, h⟩ := bind_eq_ok_iff.1 h
  obtain ⟨relocationPieces, hrelocations, h⟩ := bind_eq_ok_iff.1 h
  obtain ⟨htable, hwithin⟩ := relocationPieces_within hrelocations
  have hlen : headers.length = (Plan.exact t coreSize layout modulesSize metadata).headerSize :=
    length_headers_exact hheaders
  have htotal : (headers ++ (core ++ Bytes.zeros
      ((Plan.exact t coreSize layout modulesSize metadata).imageSize -
        ((Plan.exact t coreSize layout modulesSize metadata).headerSize + core.length)))).length =
      (Plan.exact t coreSize layout modulesSize metadata).imageSize := by
    rw [List.length_append, List.length_append, Bytes.length_zeros]
    omega
  -- All sections lie behind the headers, so the pieces do.
  have hpieces : ∀ p ∈ metadataPieces ++ relocationPieces, headers.length ≤ p.offset ∧ p.finish ≤
      (Plan.exact t coreSize layout modulesSize metadata).imageSize := by
    intro p hp
    obtain ⟨⟨s, hs, hoffset⟩, hfinish⟩ := (List.forall_mem_append.2
      ⟨metadataPieces_within hmetadata, hwithin⟩) p hp
    refine ⟨?_, hfinish⟩
    rw [hlen, hoffset]
    exact (Cursor.mem_lay_offset s hs).1
  obtain ⟨later, hlater, hlength⟩ := foldl_overlay_front (htotal.symm ▸ hpieces)
  cases h
  refine ⟨headers, later, hheaders, hlater, ?_, htable⟩
  rw [hlater, List.length_append, hlength, ← List.length_append, htotal]

/-! ## §3 The size in the headers -/

/-- Whether the size that headers state covers the image in memory: every section, and the table that
the directory of base relocations names. -/
structure Headers.CoversMemory (headers : Headers) : Prop where
  sections : ∀ entry ∈ headers.sections,
    entry.virtualAddress + entry.virtualSize ≤ headers.optional.imageSize
  relocations : ∀ table ∈ headers.optional.directories[relocationDirectory]?,
    table.address + table.size ≤ headers.optional.imageSize

/-- The image ends in the file where the cursor behind the last section is. -/
theorem imageSize_exact_after (h : modulesStart t.format.word layout ≤ modulesEnd t.format.word coreSize) :
    (Plan.exact t coreSize layout modulesSize metadata).imageSize =
      ((Cursor.start t.format.word).after t.sectionAlign (parts t.format.word coreSize layout metadata ++
        [⟨.relocations, layout.relocationSize⟩])).offset := by
  rw [Plan.imageSize_exact h, Cursor.after_append]
  rfl

/-- No section reaches behind the end of the file. -/
theorem rawEnd_le_imageSize (h : modulesStart t.format.word layout ≤ modulesEnd t.format.word coreSize) :
    ∀ s ∈ (Plan.exact t coreSize layout modulesSize metadata).sections,
      s.rawOffset + s.rawSize ≤ (Plan.exact t coreSize layout modulesSize metadata).imageSize := by
  intro s hs
  rw [imageSize_exact_after h]
  exact (Cursor.mem_lay_offset s hs).2

/-- If no section lies further in memory than in the file, nothing in memory lies behind the end of the
file. -/
theorem coversMemory_of_address_le (hfeasible : Plan.Feasible t coreSize layout modulesSize metadata)
    (htable : ∀ s ∈ (Plan.exact t coreSize layout modulesSize metadata).section? .relocations,
      s.rawOffset + written.relocationSize ≤
        (Plan.exact t coreSize layout modulesSize metadata).imageSize)
    (h : ∀ s ∈ (Plan.exact t coreSize layout modulesSize metadata).sections,
      s.virtualAddress ≤ s.rawOffset) :
    ((Plan.exact t coreSize layout modulesSize metadata).stated machine written).CoversMemory := by
  refine ⟨?sections, ?relocations⟩
  case sections =>
    intro entry hentry
    obtain ⟨s, hs, rfl⟩ := List.mem_map.1 hentry
    have hend := rawEnd_le_imageSize hfeasible.holdsKernel s hs
    have haddress := h s hs
    have hsize := Cursor.virtualSize_of_mem_lay s hs
    show s.virtualAddress + s.virtualSize ≤
      (Plan.exact t coreSize layout modulesSize metadata).imageSize
    omega
  case relocations =>
    have hsection := @section?_relocations_exact t coreSize modulesSize layout metadata
    have hoffset := htable _ hsection
    have haddress := h _ (mem_of_section? hsection)
    -- The table starts where its section does.
    rintro _ ⟨⟩
    exact Nat.le_trans (Nat.add_le_add_right haddress _) hoffset

/-- With a coarse alignment, a size that covers the memory leaves no section further in memory than in
the file. -/
theorem address_eq_of_coversMemory (hfeasible : Plan.Feasible t coreSize layout modulesSize metadata)
    (hcoarse : Target.peFileAlign ∣ t.sectionAlign)
    (h : ((Plan.exact t coreSize layout modulesSize metadata).stated machine written).CoversMemory) :
    ∀ s ∈ (Plan.exact t coreSize layout modulesSize metadata).sections,
      s.virtualAddress = s.rawOffset := by
  have hfile : 0 < Target.peFileAlign := by decide
  have hpos := Nat.pos_of_isPowerOfTwo hfeasible.aligned
  have hstart : (Cursor.start t.format.word).Ahead :=
    ⟨dvd_headerSize _, dvd_headerSize _, Nat.le_refl _⟩
  obtain ⟨hafter, -, hsections⟩ :=
    @Cursor.Ahead.after _ _ (parts t.format.word coreSize layout metadata) hstart hpos hcoarse
  have hsection := @section?_relocations_exact t coreSize modulesSize layout metadata
  -- The relocation table is the last section, and the image has less than a block behind it.
  have hlast : ((Cursor.start t.format.word).after t.sectionAlign
      (parts t.format.word coreSize layout metadata)).address + layout.relocationSize ≤
        (Plan.exact t coreSize layout modulesSize metadata).imageSize :=
    h.sections _ (List.mem_map_of_mem (f := Section.entry) (mem_of_section? hsection))
  rw [Plan.imageSize_exact hfeasible.holdsKernel] at hlast
  have hblock := Alignment.roundUp_lt hfile (((Cursor.start t.format.word).after t.sectionAlign
    (parts t.format.word coreSize layout metadata)).offset + layout.relocationSize)
  have hends : ((Cursor.start t.format.word).after t.sectionAlign
      (parts t.format.word coreSize layout metadata)).address =
        ((Cursor.start t.format.word).after t.sectionAlign
          (parts t.format.word coreSize layout metadata)).offset := by
    have hahead := hafter.ahead
    -- What is ahead by whole blocks and by less than one is not ahead.
    have hzero := Nat.eq_zero_of_dvd_of_lt (Nat.dvd_sub hafter.address hafter.offset)
      (show _ < Target.peFileAlign by omega)
    omega
  intro s hs
  rw [Plan.exact, Cursor.lay_append, List.mem_append] at hs
  -- Nothing is further ahead than the end, which is not ahead at all.
  rcases hs with hs | hs
  · obtain ⟨hlow, hhigh⟩ := hsections s hs
    omega
  · cases List.mem_singleton.1 hs
    exact hends

/-- **The size in the headers of a PE image** is that of its file, and covers what the file holds of every
section. It covers the image in memory, the table of base relocations included, exactly when sections
are aligned in memory no coarser than in the file, or all lie in memory where they lie in the file. -/
theorem covers_memory_iff {plan : Plan}
    (hplan : Plan.make t coreSize layout modulesSize metadata = .ok plan)
    (himage : plan.write files machine core written path = .ok image) :
    ∃ headers, Headers.read? t.format.order image = some headers ∧
      headers.optional.imageSize = image.length ∧
      (∀ entry ∈ headers.sections, entry.rawOffset + entry.rawSize ≤ headers.optional.imageSize) ∧
      (headers.CoversMemory ↔
        t.sectionAlign ≤ Target.peFileAlign ∨
          ∀ entry ∈ headers.sections, entry.virtualAddress = entry.rawOffset) := by
  obtain ⟨hfeasible, rfl⟩ := Plan.make_eq_ok_iff.1 hplan
  obtain ⟨headers, rest, hheaders, rfl, hlen, htable⟩ := Plan.headers_of_write_exact himage
  refine ⟨_, Plan.read?_of_headers roomy_exact hheaders rest, hlen.symm, ?_, ?_, ?_⟩
  · intro entry hentry
    obtain ⟨s, hs, rfl⟩ := List.mem_map.1 hentry
    exact rawEnd_le_imageSize hfeasible.holdsKernel s hs
  · intro hcovers
    rcases Nat.le_total t.sectionAlign Target.peFileAlign with hfine | hcoarse
    · exact .inl hfine
    · have hdvd := Alignment.dvd_of_isPowerOfTwo (by decide) hfeasible.aligned hcoarse
      exact .inr (List.forall_mem_map.2 (address_eq_of_coversMemory hfeasible hdvd hcovers))
  · rintro (hfine | hequal)
    · have hdvd := Alignment.dvd_of_isPowerOfTwo hfeasible.aligned (by decide) hfine
      exact coversMemory_of_address_le hfeasible htable (Cursor.address_le_offset_of_mem_lay
        (Nat.pos_of_isPowerOfTwo hfeasible.aligned) hdvd (Nat.le_refl _))
    · exact coversMemory_of_address_le hfeasible htable fun s hs =>
        Nat.le_of_eq (List.forall_mem_map.1 hequal s hs)

end Written

theorem covers_memory_iff_twoParts :
    ∃ plan image, Plan.make TwoParts.target TwoParts.core.length TwoParts.layout 0x210 (some 5) =
        .ok plan ∧
      plan.write TwoParts.files .i386 TwoParts.core TwoParts.layout (some ⟨"sbat.csv"⟩) = .ok image ∧
      ∃ headers, Headers.read? .big image = some headers ∧
        headers.optional.imageSize = image.length ∧
        (∀ entry ∈ headers.sections, entry.rawOffset + entry.rawSize ≤ headers.optional.imageSize) ∧
        (headers.CoversMemory ↔ ∀ entry ∈ headers.sections, entry.virtualAddress = entry.rawOffset) := by
  have hplan := Plan.make_of_feasible TwoParts.feasible
  obtain ⟨headers, hheaders⟩ := TwoParts.feasible.exists_headers (by decide)
  have himage := (Plan.write_exact_eq_ok_iff TwoParts.feasible.holdsKernel).2 ⟨headers, _, hheaders,
    (show Supplied TwoParts.files .w32 (some 5) (some ⟨"sbat.csv"⟩) (some [1, 2, 3, 4, 5]) from
      ⟨rfl, by decide⟩), rfl⟩
  obtain ⟨headers, hread, hsize, hfile, hcovers⟩ := covers_memory_iff hplan himage
  refine ⟨_, _, hplan, himage, headers, hread, hsize, hfile, hcovers.trans (or_iff_right ?_)⟩
  decide

namespace Aligned

/-- A kernel of one block, all of it code. -/
def layout : Kernel.Layout where
  kernelSize := 512
  executableSize := 512

/-- The kernel, and an info record without modules. -/
def core : Bytes := List.replicate 512 0x90 ++
  [0x6d, 0x69, 0x6d, 0x67, 0, 0, 0, 0, 24, 0, 0, 0, 0, 0, 0, 0, 24, 0, 0, 0, 0, 0, 0, 0]

end Aligned

/-- The section of the modules ends in memory at 0x1200, and the image states 0x800 bytes. -/
theorem not_coversMemory_aligned :
    ∃ plan image headers,
      Plan.make Aligned.configuration.target Aligned.core.length Aligned.layout 24 none = .ok plan ∧
      plan.write Aligned.files .amd64 Aligned.core Aligned.layout none = .ok image ∧
      Headers.read? .little image = some headers ∧
      headers.optional.imageSize = 0x800 ∧
      (∃ entry ∈ headers.sections, entry.virtualAddress + entry.virtualSize = 0x1200) ∧
      ¬ headers.CoversMemory := by
  have hmoderate : Moderate Aligned.configuration.target Aligned.layout 24 none :=
    ⟨rfl, by decide, by decide⟩
  have hlen : Aligned.core.length = 512 + 24 := by
    rw [Aligned.core, List.length_append, List.length_replicate]
    rfl
  have hfeasible : Plan.Feasible Aligned.configuration.target Aligned.core.length Aligned.layout 24
      none := by
    rw [hlen]
    exact hmoderate.feasible (by decide)
  have hwritten : ∃ image, (Plan.exact Aligned.configuration.target Aligned.core.length Aligned.layout 24
      none).write Aligned.files .amd64 Aligned.core Aligned.layout none = .ok image := by
    obtain ⟨headers, hheaders⟩ := hfeasible.exists_headers (by decide)
    exact ⟨_, (Plan.write_exact_eq_ok_iff hfeasible.holdsKernel).2 ⟨headers, none, hheaders,
      (show Supplied Aligned.files .w64 none none none from trivial), rfl⟩⟩
  obtain ⟨image, himage⟩ := hwritten
  obtain ⟨headers, rest, hheaders, rfl, -, -⟩ := Plan.headers_of_write_exact himage
  have hmodules : Section.entry ⟨.modules, 0x200, 0x1000, 0x200, 0x600⟩ ∈
      (Plan.exact Aligned.configuration.target Aligned.core.length Aligned.layout 24
        none).sections.map Section.entry := by decide +kernel
  have hsize : (Plan.exact Aligned.configuration.target Aligned.core.length Aligned.layout 24
      none).imageSize = 0x800 := by decide +kernel
  refine ⟨_, _, _, Plan.make_of_feasible hfeasible, himage,
    Plan.read?_of_headers roomy_exact hheaders rest, hsize, ⟨_, hmodules, rfl⟩, fun hcovers => ?_⟩
  have hend : 0x1000 + 0x200 ≤ (Plan.exact Aligned.configuration.target Aligned.core.length
      Aligned.layout 24 none).imageSize := hcovers.sections _ hmodules
  rw [hsize] at hend
  exact absurd hend (by decide)

end Pe

end BootImage
