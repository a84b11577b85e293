import BootImage.Pe.Header
import BootImage.Pe.Reader
import BootImage.Proofs.Slices

/-!
# Records and tables

Numbers that are put into a record one after the other, and the table of sections, which is one
record behind the other. The fields of a record do not lie over one another, so each is read back as
it was put, and what is no field stays as it was; a number that its field cannot hold stops the
writing.

- `get?_of_putFields`, `slice_of_putFields`: the fields of a record, and all that is not one.
- `exists_putFields_iff`: when a record can be written; `putFields_of_placed`: what stops it.
- `readAll?_of_putSections`, `exists_putSections`: the same for the section table.
-/

namespace BootImage.Pe

/-! ## §1 The fields of a record -/

/-- Each field starts behind the ones before it. -/
def Ascending (places : List FieldPlace) : Prop :=
  places.Pairwise fun p q => p.offset + p.width ≤ q.offset

/-- A range that no field of the record at `base` reaches into. -/
def ClearOf (base : Nat) (places : List FieldPlace) (start len : Nat) : Prop :=
  ∀ place ∈ places, start + len ≤ base + place.offset ∨ base + place.offset + place.width ≤ start

/-- A field that a buffer of `size` bytes has room for, with a value that it takes. -/
def FieldValue.Writable (base size : Nat) (field : FieldValue) : Prop :=
  base + field.place.offset < Size.bound ∧ ByteOrder.Takes field.place.width field.value ∧
    base + field.place.offset + field.place.width ≤ size

/-- A field that a buffer of `size` bytes has room for, whatever its value. -/
structure FieldValue.Placed (base size : Nat) (field : FieldValue) : Prop where
  bound : base + field.place.offset < Size.bound
  width : field.place.width = 2 ∨ field.place.width = 4 ∨ field.place.width = 8
  room : base + field.place.offset + field.place.width ≤ size

section Fields

variable {format : WordFormat} {base : Nat} {buf out : Bytes} {fields : List FieldValue}

theorem putFields_cons {field : FieldValue} :
    putFields format base buf (field :: fields) =
      format.putAt buf base field.place field.value >>= fun next =>
        putFields format base next fields :=
  List.foldlM_cons ..

/-- One field leaves the length of the buffer alone, and every range it does not reach into. -/
theorem frame_of_putAt {place : FieldPlace} {value : Nat}
    (h : format.putAt buf base place value = .ok out) :
    out.length = buf.length ∧ ∀ start len,
      start + len ≤ base + place.offset ∨ base + place.offset + place.width ≤ start →
        out.slice start len = buf.slice start len := by
  -- A field that was written is the buffer with the bytes of its value put over it.
  obtain ⟨-, -, hfit, rfl⟩ := WordFormat.putAt_eq_ok_iff.1 h
  have hroom : base + place.offset + (format.order.encode place.width value).length ≤ buf.length := by
    rwa [ByteOrder.length_encode]
  refine ⟨Bytes.length_overlay hroom, ?_⟩
  intro start len hclear
  apply Bytes.slice_overlay_of_disjoint hroom
  rwa [ByteOrder.length_encode]

/-- Writing fields changes no length, so a buffer has room for later fields as it had for the first. -/
theorem length_of_putFields (h : putFields format base buf fields = .ok out) :
    out.length = buf.length := by
  -- By induction on the fields; each keeps the length.
  induction fields generalizing buf with
  | nil =>
    cases h
    rfl
  | cons field fields ih =>
    rw [putFields_cons, bind_eq_ok_iff] at h
    obtain ⟨next, hnext, h⟩ := h
    rw [ih h, (frame_of_putAt hnext).1]

/-- What no field reaches into stays as it was. -/
theorem slice_of_putFields (h : putFields format base buf fields = .ok out) {start len : Nat}
    (hclear : ClearOf base (fields.map (·.place)) start len) :
    out.slice start len = buf.slice start len := by
  -- By induction on the fields; none of them reaches into the range.
  induction fields generalizing buf with
  | nil =>
    cases h
    rfl
  | cons field fields ih =>
    rw [putFields_cons, bind_eq_ok_iff] at h
    obtain ⟨next, hnext, h⟩ := h
    rw [List.map_cons, ClearOf, List.forall_mem_cons] at hclear
    rw [ih h hclear.2]
    exact (frame_of_putAt hnext).2 start len hclear.1

/-- **Fields are read back**: later ones do not lie over earlier ones. -/
theorem get?_of_putFields (h : putFields format base buf fields = .ok out)
    (hasc : Ascending (fields.map (·.place)))
    (hwide : ∀ field ∈ fields, field.place.width = 8 → field.value < ByteOrder.limit 8)
    {field : FieldValue} (hfield : field ∈ fields) :
    format.order.get? out (base + field.place.offset) field.place.width = some field.value := by
  -- By induction on the fields: the first is read back, or one of the later ones.
  induction fields generalizing buf with
  | nil => exact absurd hfield List.not_mem_nil
  | cons first fields ih =>
    rw [putFields_cons, bind_eq_ok_iff] at h
    obtain ⟨next, hnext, h⟩ := h
    rw [List.map_cons, Ascending, List.pairwise_cons] at hasc
    rcases List.mem_cons.1 hfield with rfl | hlater
    · -- The first field was written, and the later ones start behind it.
      obtain ⟨-, htakes, hfit, rfl⟩ := WordFormat.putAt_eq_ok_iff.1 hnext
      have hvalue : field.value < ByteOrder.limit field.place.width := by
        rcases htakes with ⟨hwidth, hlt⟩ | ⟨hwidth, hlt⟩ | hwidth
        · rwa [hwidth]
        · rwa [hwidth]
        · rw [hwidth]
          exact hwide field (List.mem_cons_self ..) hwidth
      -- All later fields start behind this one, so none of them reaches into it.
      have hclear : ClearOf base (fields.map (·.place)) (base + field.place.offset)
          field.place.width := by
        intro place hplace
        have := hasc.1 place hplace
        omega
      have hlen := length_of_putFields h
      rw [(frame_of_putAt hnext).1] at hlen
      apply ByteOrder.get?_eq_some_of_slice (by omega) hvalue
      rw [slice_of_putFields h hclear]
      have hroom : base + field.place.offset +
          (format.order.encode field.place.width field.value).length ≤ buf.length := by
        rwa [ByteOrder.length_encode]
      have hself := Bytes.slice_overlay_self hroom
      rwa [ByteOrder.length_encode] at hself
    · exact ih h hasc.2 (fun f hf => hwide f (List.mem_cons_of_mem _ hf)) hlater

/-- Fields are written exactly where each of them can be. -/
theorem exists_putFields_iff :
    (∃ out, putFields format base buf fields = .ok out) ↔
      ∀ field ∈ fields, field.Writable base buf.length := by
  -- By induction on the fields. Writing one of them tells whether it is writable, and what is left is
  -- the same question about the others.
  induction fields generalizing buf with
  | nil => exact ⟨fun _ field hfield => absurd hfield List.not_mem_nil, fun _ => ⟨buf, rfl⟩⟩
  | cons field fields ih =>
    rw [List.forall_mem_cons, putFields_cons]
    refine ⟨?_, ?_⟩
    · intro h
      rcases h with ⟨out, h⟩
      obtain ⟨next, hnext, h⟩ := bind_eq_ok_iff.1 h
      obtain ⟨hbound, htakes, hfit, -⟩ := WordFormat.putAt_eq_ok_iff.1 hnext
      have hlater := ih.1 ⟨out, h⟩
      -- The later fields are measured against a buffer of the same length.
      rw [(frame_of_putAt hnext).1] at hlater
      exact ⟨⟨hbound, htakes, hfit⟩, hlater⟩
    · intro h
      rcases h with ⟨⟨hbound, htakes, hfit⟩, hlater⟩
      have hnext : format.putAt buf base field.place field.value = .ok (buf.overlay
          (base + field.place.offset) (format.order.encode field.place.width field.value)) :=
        WordFormat.putAt_eq_ok_iff.2 ⟨hbound, htakes, hfit, rfl⟩
      rw [← (frame_of_putAt hnext).1] at hlater
      obtain ⟨out, h⟩ := ih.2 hlater
      exact ⟨out, bind_eq_ok_iff.2 ⟨_, hnext, h⟩⟩

/-- Where there is room, a value that is too large is all that a field can be refused for. -/
theorem putAt_of_not_takes {field : FieldValue} (hplaced : field.Placed base buf.length)
    (htakes : ¬ ByteOrder.Takes field.place.width field.value) :
    format.putAt buf base field.place field.value = refuse (.valueTooLarge field.value) := by
  rw [WordFormat.putAt, Size.add_of_lt hplaced.bound, ok_bind]
  exact ByteOrder.putField_of_not_takes hplaced.width htakes

/-- **Narrow fields**: where there is room for all fields of a record, it can be written, or one of its
values is too large for its field and is reported. -/
theorem putFields_of_placed (h : ∀ field ∈ fields, field.Placed base buf.length) :
    (∃ out, putFields format base buf fields = .ok out) ∨
      ∃ field ∈ fields, ¬ ByteOrder.Takes field.place.width field.value ∧
        putFields format base buf fields = refuse (.valueTooLarge field.value) := by
  -- By induction on the fields: the first is not taken, or the later ones decide.
  induction fields generalizing buf with
  | nil => exact .inl ⟨buf, rfl⟩
  | cons field fields ih =>
    obtain ⟨hplaced, hlater⟩ := List.forall_mem_cons.1 h
    rw [putFields_cons]
    by_cases htakes : ByteOrder.Takes field.place.width field.value
    case neg =>
      refine .inr ⟨field, List.mem_cons_self .., htakes, ?_⟩
      rw [putAt_of_not_takes hplaced htakes]
      rfl
    case pos =>
      have hnext : format.putAt buf base field.place field.value = .ok (buf.overlay
          (base + field.place.offset) (format.order.encode field.place.width field.value)) :=
        WordFormat.putAt_eq_ok_iff.2 ⟨hplaced.bound, htakes, hplaced.room, rfl⟩
      rw [← (frame_of_putAt hnext).1] at hlater
      rw [hnext, ok_bind]
      rcases ih hlater with hout | ⟨bad, hbad, hnot, hrefuse⟩
      · exact .inl hout
      · exact .inr ⟨bad, List.mem_cons_of_mem _ hbad, hnot, hrefuse⟩

end Fields

/-! ## §2 The section table -/

/-- The entry that the section table should have for a section. -/
def Section.entry (s : Section) : SectionEntry :=
  ⟨(Bytes.ofText s.role.name).resize 8, s.virtualSize, s.virtualAddress, s.rawSize, s.rawOffset,
    s.role.flags⟩

theorem length_name (role : SectionRole) : (Bytes.ofText role.name).length ≤ 8 := by
  cases role <;> decide +kernel

theorem flags_lt (role : SectionRole) : role.flags < Size.bound32 := by cases role <;> decide

/-- The fields of an entry are the same places for every section. -/
theorem places_fields (s : Section) :
    s.fields.map (·.place) = [⟨8, 4⟩, ⟨12, 4⟩, ⟨16, 4⟩, ⟨20, 4⟩, ⟨36, 4⟩] := rfl

theorem ascending_fields (s : Section) : Ascending (s.fields.map (·.place)) := by
  rw [places_fields, Ascending]
  decide

section Table

variable {format : WordFormat} {offset : Nat} {buf out : Bytes} {sections : List Section}

/-- One entry keeps to its forty bytes. -/
theorem clearOf_fields (s : Section) {start len : Nat}
    (h : start + len ≤ offset ∨ offset + sectionHeaderBytes ≤ start) :
    ClearOf offset (s.fields.map (·.place)) start len := by
  -- The places are fixed, so this can be looked up.
  have hwithin : ∀ place ∈ s.fields.map (·.place),
      8 ≤ place.offset ∧ place.offset + place.width ≤ sectionHeaderBytes := by
    rw [places_fields]
    decide
  intro place hplace
  have := hwithin place hplace
  omega

/-- The table is written into the room that the headers leave for it, and makes them no longer. -/
theorem length_of_putSections (hroom : offset + sections.length * sectionHeaderBytes ≤ buf.length)
    (h : putSections format offset buf sections = .ok out) : out.length = buf.length := by
  have hbytes : sectionHeaderBytes = 40 := rfl
  -- By induction on the sections, with the offset forty bytes further on at each step.
  induction sections generalizing offset buf with
  | nil =>
    cases h
    rfl
  | cons s sections ih =>
    rw [putSections, bind_eq_ok_iff] at h
    obtain ⟨next, hnext, h⟩ := h
    rw [List.length_cons, hbytes] at hroom
    -- Neither the name nor the fields reach behind their entry.
    have hname := length_name s.role
    have hlen := length_of_putFields hnext
    rw [Bytes.length_overlay (by omega)] at hlen
    rw [ih (by rw [hbytes, hlen]; omega) h, hlen]

/-- The section table leaves everything in front of it alone. -/
theorem slice_of_putSections (hroom : offset + sections.length * sectionHeaderBytes ≤ buf.length)
    (h : putSections format offset buf sections = .ok out) {start len : Nat}
    (hclear : start + len ≤ offset) : out.slice start len = buf.slice start len := by
  have hbytes : sectionHeaderBytes = 40 := rfl
  -- By induction on the sections; the range stays in front of every entry.
  induction sections generalizing offset buf with
  | nil =>
    cases h
    rfl
  | cons s sections ih =>
    rw [putSections, bind_eq_ok_iff] at h
    obtain ⟨next, hnext, h⟩ := h
    rw [List.length_cons, hbytes] at hroom
    have hname := length_name s.role
    have hlen := length_of_putFields hnext
    rw [Bytes.length_overlay (by omega)] at hlen
    -- The later entries, the fields of this one and its name all lie behind the range.
    rw [ih (by rw [hbytes, hlen]; omega) h (by omega),
      slice_of_putFields hnext (clearOf_fields s (.inl hclear)),
      Bytes.slice_overlay_of_disjoint (by omega) (.inl hclear)]

/-- One entry, written over zeros, is read back. -/
theorem read?_of_putFields {s : Section} (hroom : offset + sectionHeaderBytes ≤ buf.length)
    (hzeros : buf.slice offset 8 = Bytes.zeros 8)
    (h : putFields format offset (buf.overlay offset (Bytes.ofText s.role.name)) s.fields = .ok out) :
    SectionEntry.read? format.order (out.slice offset sectionHeaderBytes) = some s.entry := by
  have hbytes : sectionHeaderBytes = 40 := rfl
  have hname := length_name s.role
  have hlen := length_of_putFields h
  rw [Bytes.length_overlay (by omega)] at hlen
  rw [hbytes] at hroom ⊢
  -- The five numbers of the entry, each read back at its place in the forty bytes.
  have hget : ∀ field ∈ s.fields, format.order.get? (out.slice offset 40) field.place.offset
      field.place.width = some field.value := by
    intro field hfield
    have hwithin : ∀ place ∈ s.fields.map (·.place), place.offset + place.width ≤ 40 ∧
        place.width = 4 := by
      rw [places_fields]
      decide
    have hplace := hwithin field.place (List.mem_map_of_mem hfield)
    rw [ByteOrder.get?_slice hplace.1 (by omega)]
    refine get?_of_putFields h (ascending_fields s) (fun f hf hwidth => ?_) hfield
    have := (hwithin f.place (List.mem_map_of_mem hf)).2
    omega
  -- The name lies in front of all fields, and zeros fill it up.
  have htake : (out.slice offset 40).take 8 = (Bytes.ofText s.role.name).resize 8 := by
    have hclear : ClearOf offset (s.fields.map (·.place)) offset 8 := by
      rw [places_fields, ClearOf]
      simp
    rw [← Bytes.slice_zero, Bytes.slice_slice out (by omega), Nat.add_zero,
      slice_of_putFields h hclear, Bytes.slice_overlay_front hname (by omega), hzeros,
      Bytes.drop_zeros, Bytes.resize, List.take_of_length_le hname]
  -- So a reader finds all six parts of the entry.
  rw [Section.fields] at hget
  simp only [List.forall_mem_cons] at hget
  obtain ⟨hsize, haddress, hrawSize, hrawOffset, hflags, -⟩ := hget
  simp only [SectionEntry.read?, hsize, haddress, hrawSize, hrawOffset, hflags, htake,
    Option.bind_eq_bind, Option.bind_some, Section.entry]

/-- **The section table is read back**, entry by entry, where it was written over zeros. -/
theorem readAll?_of_putSections
    (hroom : offset + sections.length * sectionHeaderBytes ≤ buf.length)
    (hzeros : ∀ start len, offset ≤ start → start + len ≤ buf.length →
      buf.slice start len = Bytes.zeros len)
    (h : putSections format offset buf sections = .ok out) (rest : Bytes) :
    SectionEntry.readAll? format.order sections.length ((out ++ rest).drop offset) =
      some (sections.map Section.entry) := by
  have hbytes : sectionHeaderBytes = 40 := rfl
  -- By induction on the sections; the invariant is that there are zeros from the offset on.
  induction sections generalizing offset buf with
  | nil => rfl
  | cons s sections ih =>
    rw [putSections, bind_eq_ok_iff] at h
    obtain ⟨next, hnext, h⟩ := h
    rw [List.length_cons, hbytes] at hroom
    have hname := length_name s.role
    have hlen := length_of_putFields hnext
    rw [Bytes.length_overlay (by omega)] at hlen
    have hroom' : offset + sectionHeaderBytes + sections.length * sectionHeaderBytes ≤ next.length := by
      rw [hbytes, hlen]
      omega
    -- Behind this entry there are still zeros for the next ones.
    have hzeros' : ∀ start len, offset + sectionHeaderBytes ≤ start → start + len ≤ next.length →
        next.slice start len = Bytes.zeros len := by
      intro start len hstart hend
      rw [hbytes] at hstart
      rw [slice_of_putFields hnext (clearOf_fields s (.inr hstart)),
        Bytes.slice_overlay_of_disjoint (by omega) (.inr (by omega))]
      exact hzeros start len (by omega) (by omega)
    have hlater := ih hroom' hzeros' h
    have houtlen := length_of_putSections hroom' h
    have hentry : (out ++ rest).slice offset sectionHeaderBytes =
        next.slice offset sectionHeaderBytes := by
      rw [Bytes.slice_append_left (by rw [hbytes]; omega)]
      exact slice_of_putSections hroom' h (Nat.le_refl _)
    have hread := read?_of_putFields (by rw [hbytes]; omega)
      (hzeros offset 8 (Nat.le_refl _) (by omega)) hnext
    rw [← hentry] at hread
    -- The reader takes this entry off and goes on behind it.
    rw [List.length_cons, SectionEntry.readAll?, List.drop_drop]
    rw [Bytes.slice, hbytes] at hread
    rw [hread, Option.bind_eq_bind, Option.bind_some, ← hbytes, hlater]
    rfl

/-- The numbers of a section, all of which have fields of 32 bits. -/
def Section.Counted (s : Section) : Prop :=
  s.virtualSize < Size.bound32 ∧ s.virtualAddress < Size.bound32 ∧ s.rawSize < Size.bound32 ∧
    s.rawOffset < Size.bound32

/-- An entry of forty bytes takes every section whose numbers have 32 bits. -/
theorem writable_fields {s : Section} {size : Nat} (hs : s.Counted)
    (hroom : offset + sectionHeaderBytes ≤ size) (hsize : size < Size.bound) :
    ∀ field ∈ s.fields, field.Writable offset size := by
  have hlimit : ByteOrder.limit 4 = Size.bound32 := by decide
  have hbytes : sectionHeaderBytes = 40 := rfl
  have hflags := flags_lt s.role
  obtain ⟨hsize', haddress, hrawSize, hrawOffset⟩ := hs
  have htakes : ∀ field ∈ s.fields, field.value < Size.bound32 := by
    rw [Section.fields]
    simp only [List.forall_mem_cons]
    exact ⟨hsize', haddress, hrawSize, hrawOffset, hflags, fun _ h => absurd h List.not_mem_nil⟩
  have hwithin : ∀ place ∈ s.fields.map (·.place), place.offset + place.width ≤ 40 ∧
      place.width = 4 := by
    rw [places_fields]
    decide
  -- Every field has four bytes and lies within the entry, so only its value could stand in the way.
  intro field hfield
  obtain ⟨hplace, hwidth⟩ := hwithin field.place (List.mem_map_of_mem hfield)
  have hvalue := htakes field hfield
  exact ⟨by omega, .inr (.inl ⟨hwidth, by rwa [hlimit]⟩), by omega⟩

/-- The section table can be written where there is room for it. -/
theorem exists_putSections (hroom : offset + sections.length * sectionHeaderBytes ≤ buf.length)
    (hbuf : buf.length < Size.bound) (hsections : ∀ s ∈ sections, s.Counted) :
    ∃ out, putSections format offset buf sections = .ok out := by
  have hbytes : sectionHeaderBytes = 40 := rfl
  -- By induction on the sections, with one entry less of room at each step.
  induction sections generalizing offset buf with
  | nil => exact ⟨buf, rfl⟩
  | cons s sections ih =>
    rw [List.length_cons, hbytes] at hroom
    have hname := length_name s.role
    have hnamed : (buf.overlay offset (Bytes.ofText s.role.name)).length = buf.length :=
      Bytes.length_overlay (by omega)
    -- The name is put over bytes that were there, so the fields find as much room as before.
    have hfields := writable_fields (hsections s (List.mem_cons_self ..))
      (show offset + sectionHeaderBytes ≤ buf.length by omega) hbuf
    rw [← hnamed] at hfields
    obtain ⟨next, hnext⟩ : ∃ next, putFields format offset (buf.overlay offset
        (Bytes.ofText s.role.name)) s.fields = .ok next := exists_putFields_iff.2 hfields
    have hlen := length_of_putFields hnext
    rw [hnamed] at hlen
    obtain ⟨out, h⟩ : ∃ out, putSections format (offset + sectionHeaderBytes) next sections = .ok out :=
      ih (by rw [hbytes, hlen]; omega) (by rwa [hlen]) fun t ht =>
        hsections t (List.mem_cons_of_mem _ ht)
    refine ⟨out, ?_⟩
    rw [putSections]
    exact bind_eq_ok_iff.2 ⟨next, hnext, h⟩

end Table

end BootImage.Pe
