import BootImage.Proofs.Pe.Records

/-!
# The headers of a PE image, read back

A reader that knows the format alone finds in written headers every number that was meant, at its
full size.

- `Plan.stated`: what the headers of a plan should say; `Plan.read?_of_headers`: that they say it.
- `OptionalHeader.read?_eq_some`: the optional header, in both of its shapes.
- `Plan.exists_headers`: when headers can be written.
-/

namespace BootImage.Pe

/-! ## §1 The optional header -/

/-- The data directories of an image: that of the relocation table, and no others. -/
def Plan.directories (plan : Plan) (layout : Kernel.Layout) : List Directory :=
  (List.range directoryCount).map fun index =>
    if index = relocationDirectory then ⟨plan.relocationAddress, layout.relocationSize⟩ else ⟨0, 0⟩

/-- What the optional header of a plan should say. -/
def Plan.optionalHeader (plan : Plan) (layout : Kernel.Layout) : OptionalHeader where
  magic := optionalMagic plan.format.word
  codeSize := plan.codeSize
  dataSize := plan.dataSize
  bssSize := 0
  entryAddress := plan.entryAddress
  codeBase := plan.codeBase
  dataBase :=
    match plan.format.word with
    | .w32 => some (plan.headerSize + layout.executableSize)
    | .w64 => none
  imageBase := 0
  sectionAlign := plan.sectionAlign
  fileAlign := Target.peFileAlign
  imageSize := plan.imageSize
  headerSize := plan.headerSize
  subsystem := efiApplication
  stack := (stackAndHeapSize, stackAndHeapSize)
  heap := (stackAndHeapSize, stackAndHeapSize)
  directories := plan.directories layout

/-- Data directories are read one by one. -/
theorem Directory.readAll?_eq_some {order : ByteOrder} {bytes : Bytes} {directories : List Directory}
    (h : ∀ index (hindex : index < directories.length),
      order.get? bytes (index * directoryBytes) 4 = some directories[index].address ∧
        order.get? bytes (index * directoryBytes + 4) 4 = some directories[index].size) :
    Directory.readAll? order directories.length bytes = some directories := by
  -- By induction on the directories, each read of which moves the bytes on.
  induction directories generalizing bytes with
  | nil => rfl
  | cons directory directories ih =>
    obtain ⟨haddress, hsize⟩ := h 0 (Nat.zero_lt_succ _)
    rw [Nat.zero_mul] at haddress hsize
    -- The later directories are read from eight bytes further on.
    have hlater : Directory.readAll? order directories.length (bytes.drop 8) = some directories := by
      apply ih
      intro index hindex
      have hnext := h (index + 1) (Nat.succ_lt_succ hindex)
      rw [Nat.succ_mul, show directoryBytes = 8 from rfl] at hnext
      refine ⟨ByteOrder.get?_drop_eq_some ?_, ByteOrder.get?_drop_eq_some ?_⟩
      · rw [Nat.add_comm]
        exact hnext.1
      · rw [Nat.add_comm, Nat.add_right_comm]
        exact hnext.2
    rw [List.length_cons, Directory.readAll?, haddress]
    simp only [Nat.zero_add] at hsize
    rw [Option.bind_eq_bind, Option.bind_some, hsize, Option.bind_some, hlater]
    rfl

/-- The places of the optional header's fields depend on its shape alone. -/
theorem places_optionalFields (plan : Plan) (layout : Kernel.Layout) (dataBase : Nat) :
    (plan.optionalFields layout dataBase).map (·.place) =
      OptionalField.all.filterMap (optionalPlace? plan.format.word) := by
  rw [Plan.optionalFields, List.map_filterMap]
  congr 1
  funext field
  rw [Option.map_map]
  exact Option.map_id'

/-- No two fields of the optional header overlap, in either shape. -/
theorem ascending_optionalFields (plan : Plan) (layout : Kernel.Layout) (dataBase : Nat) :
    Ascending ((plan.optionalFields layout dataBase).map (·.place)) := by
  rw [places_optionalFields, Ascending]
  cases plan.format.word <;> decide

/-- A field that has a place is among those that are written. -/
theorem mem_optionalFields {plan : Plan} (layout : Kernel.Layout) (dataBase : Nat)
    {field : OptionalField} {place : FieldPlace}
    (h : optionalPlace? plan.format.word field = some place) :
    ⟨place, plan.optionalValue layout dataBase field⟩ ∈ plan.optionalFields layout dataBase := by
  have hall : field ∈ OptionalField.all := by cases field <;> decide
  exact List.mem_filterMap.2 ⟨field, hall, by rw [h]; rfl⟩

/-- The fields that can be wider than 32 bits: the image base and the sizes of stack and heap. -/
def wideFields : List OptionalField :=
  [.imageBase, .stackReserve, .stackCommit, .heapReserve, .heapCommit]

theorem mem_wideFields (word : WordWidth) (field : OptionalField) :
    ∀ place ∈ optionalPlace? word field, place.width = 8 → field ∈ wideFields := by
  cases word <;> cases field <;> decide

/-- What is wider than 32 bits has a fixed value. -/
theorem wide_optionalFields (plan : Plan) (layout : Kernel.Layout) (dataBase : Nat) :
    ∀ field ∈ plan.optionalFields layout dataBase,
      field.place.width = 8 → field.value < ByteOrder.limit 8 := by
  have hvalue : ∀ field ∈ wideFields, plan.optionalValue layout dataBase field ≤ stackAndHeapSize := by
    simp [wideFields, Plan.optionalValue]
  intro field hfield hwidth
  obtain ⟨name, -, hname⟩ := List.mem_filterMap.1 hfield
  obtain ⟨place, hplace, rfl⟩ := Option.map_eq_some_iff.1 hname
  have hwide := mem_wideFields plan.format.word name place hplace hwidth
  exact Nat.lt_of_le_of_lt (hvalue name hwide) (by decide)

section Optional

variable {plan : Plan} {layout : Kernel.Layout} {bytes : Bytes}

/-- The data directories, from the two numbers of the relocation table and zeros elsewhere. -/
theorem readAll?_directories
    (haddress : plan.format.order.get? bytes (relocationOffset plan.format.word) 4 =
      some plan.relocationAddress)
    (hsize : plan.format.order.get? bytes (relocationOffset plan.format.word + 4) 4 =
      some layout.relocationSize)
    (hzeros : ∀ index < directoryCount, index ≠ relocationDirectory → ∀ half, half = 0 ∨ half = 4 →
      plan.format.order.get? bytes
        (directoriesOffset plan.format.word + index * directoryBytes + half) 4 = some 0) :
    Directory.readAll? plan.format.order directoryCount
      (bytes.drop (directoriesOffset plan.format.word)) = some (plan.directories layout) := by
  have hlen : (plan.directories layout).length = directoryCount := by
    rw [Plan.directories, List.length_map, List.length_range]
  rw [← hlen]
  apply Directory.readAll?_eq_some
  intro index hindex
  rw [hlen] at hindex
  simp only [Plan.directories, List.getElem_map, List.getElem_range]
  -- Only one directory is used; the others are zeros.
  by_cases hreloc : index = relocationDirectory
  · rw [if_pos hreloc, hreloc]
    exact ⟨ByteOrder.get?_drop_eq_some haddress, ByteOrder.get?_drop_eq_some hsize⟩
  · rw [if_neg hreloc]
    exact ⟨ByteOrder.get?_drop_eq_some (hzeros index hindex hreloc 0 (.inl rfl)),
      ByteOrder.get?_drop_eq_some (hzeros index hindex hreloc 4 (.inr rfl))⟩

/-- The optional header is read back from the numbers in its fields. -/
theorem OptionalHeader.read?_eq_some
    (hfields : ∀ field place, optionalPlace? plan.format.word field = some place →
      plan.format.order.get? bytes place.offset place.width =
        some (plan.optionalValue layout (plan.headerSize + layout.executableSize) field))
    (hzeros : ∀ index < directoryCount, index ≠ relocationDirectory → ∀ half, half = 0 ∨ half = 4 →
      plan.format.order.get? bytes
        (directoriesOffset plan.format.word + index * directoryBytes + half) 4 = some 0) :
    OptionalHeader.read? plan.format.order bytes = some (plan.optionalHeader layout) := by
  have hdirectories : Directory.readAll? plan.format.order directoryCount
      (bytes.drop (directoriesOffset plan.format.word)) = some (plan.directories layout) :=
    readAll?_directories (hfields .relocationAddress _ rfl) (hfields .relocationSize _ rfl) hzeros
  -- The fields that lie at the same place in both shapes.
  have hmagic := hfields .magic _ rfl
  have hcodeSize := hfields .codeSize _ rfl
  have hdataSize := hfields .dataSize _ rfl
  have hbssSize := hfields .bssSize _ rfl
  have hentry := hfields .entryAddress _ rfl
  have hcodeBase := hfields .codeBase _ rfl
  have hsectionAlign := hfields .sectionAlign _ rfl
  have hfileAlign := hfields .fileAlign _ rfl
  have himageSize := hfields .imageSize _ rfl
  have hheaderSize := hfields .headerSize _ rfl
  have hsubsystem := hfields .subsystem _ rfl
  simp only [OptionalHeader.read?, hmagic, hcodeSize, hdataSize, hbssSize, hentry, hcodeBase,
    hsectionAlign, hfileAlign, himageSize, hheaderSize, hsubsystem, Option.bind_eq_bind,
    Option.bind_some, Plan.optionalValue, Plan.optionalHeader]
  -- Behind the subsystem the two shapes part.
  have hbase := hfields .imageBase
  have hstackReserve := hfields .stackReserve _ rfl
  have hstackCommit := hfields .stackCommit _ rfl
  have hheapReserve := hfields .heapReserve _ rfl
  have hheapCommit := hfields .heapCommit _ rfl
  have hcount := hfields .directoryCount _ rfl
  cases hword : plan.format.word with
  | w32 =>
    rw [hword] at hbase hstackReserve hstackCommit hheapReserve hheapCommit hcount hdirectories
    have hdataBase := hfields .dataBase ⟨24, 4⟩ (by rw [hword]; rfl)
    have himageBase := hbase ⟨28, 4⟩ rfl
    simp only [reservePlace, WordWidth.bytes, loaderFlagsOffset, reserveOffset, directoriesOffset,
      Nat.reduceMul, Nat.reduceAdd, Plan.optionalValue] at *
    simp only [optionalMagic, hdataBase, himageBase, hstackReserve, hstackCommit, hheapReserve,
      hheapCommit, hcount, hdirectories, Option.bind_some]
  | w64 =>
    rw [hword] at hbase hstackReserve hstackCommit hheapReserve hheapCommit hcount hdirectories
    have himageBase := hbase ⟨24, 8⟩ rfl
    simp only [reservePlace, WordWidth.bytes, loaderFlagsOffset, reserveOffset, directoriesOffset,
      Nat.reduceMul, Nat.reduceAdd, Plan.optionalValue] at *
    simp only [optionalMagic, himageBase, hstackReserve, hstackCommit, hheapReserve, hheapCommit,
      hcount, hdirectories, Option.bind_some]

end Optional

/-! ## §2 All headers -/

/-- What the headers of a plan should say. -/
def Plan.stated (plan : Plan) (machine : Machine) (layout : Kernel.Layout) : Headers where
  file := ⟨machine.code, plan.sections.length, timestamp, optionalSize plan.format.word,
    imageFlags plan.format.word⟩
  optional := plan.optionalHeader layout
  sections := plan.sections.map Section.entry

theorem length_front : (dosHeader ++ signature).length = fileHeaderOffset := by decide +kernel

/-- The bytes that the headers are written over. -/
def Plan.blank (plan : Plan) : Bytes :=
  dosHeader ++ signature ++ Bytes.zeros (plan.headerSize - fileHeaderOffset)

/-- Headers with room for their section table. -/
def Plan.Roomy (plan : Plan) : Prop :=
  tableOffset plan.format.word + plan.sections.length * sectionHeaderBytes ≤ plan.headerSize

/-- The three steps of writing headers, in the order in which they are taken. -/
structure Plan.HeaderSteps (plan : Plan) (machine : Machine) (layout : Kernel.Layout)
    (filed full bytes : Bytes) : Prop where
  file : putFields plan.format fileHeaderOffset plan.blank (plan.fileFields machine) = .ok filed
  optional : putFields plan.format optionalOffset filed
    (plan.optionalFields layout (plan.headerSize + layout.executableSize)) = .ok full
  table : putSections plan.format (tableOffset plan.format.word) full plan.sections = .ok bytes

/-- **Headers are written in three steps**, each over what the one before it left. -/
theorem Plan.headers_eq_ok_iff {plan : Plan} {machine : Machine} {layout : Kernel.Layout}
    {bytes : Bytes} :
    plan.headers machine layout = .ok bytes ↔
      plan.headerSize + layout.executableSize < Size.bound ∧
        ∃ filed full, plan.HeaderSteps machine layout filed full bytes := by
  rw [headers, bind_eq_ok_iff]
  refine ⟨?_, ?_⟩
  · intro h
    rcases h with ⟨filed, hfiled, h⟩
    obtain ⟨dataBase, hbase, h⟩ := bind_eq_ok_iff.1 h
    obtain ⟨hbound, rfl⟩ := Size.add_eq_ok_iff.1 hbase
    obtain ⟨full, hfull, h⟩ := bind_eq_ok_iff.1 h
    exact ⟨hbound, filed, full, hfiled, hfull, h⟩
  · intro h
    rcases h with ⟨hbound, filed, full, hfiled, hfull, h⟩
    exact ⟨filed, hfiled, bind_eq_ok_iff.2 ⟨_, Size.add_eq_ok_iff.2 ⟨hbound, rfl⟩,
      bind_eq_ok_iff.2 ⟨full, hfull, h⟩⟩⟩

theorem places_fileFields (plan : Plan) (machine : Machine) :
    (plan.fileFields machine).map (·.place) = [⟨0, 2⟩, ⟨2, 2⟩, ⟨4, 4⟩, ⟨16, 2⟩, ⟨18, 2⟩] := rfl

/-- No two fields of the file header overlap. -/
theorem ascending_fileFields (plan : Plan) (machine : Machine) :
    Ascending ((plan.fileFields machine).map (·.place)) := by
  rw [places_fileFields, Ascending]
  decide

/-- The file header keeps to its twenty bytes. -/
theorem clearOf_fileFields (plan : Plan) (machine : Machine) {start len : Nat}
    (h : start + len ≤ fileHeaderOffset ∨ optionalOffset ≤ start) :
    ClearOf fileHeaderOffset ((plan.fileFields machine).map (·.place)) start len := by
  -- Of the places it is enough to know how far they reach.
  have hwithin : ∀ place ∈ (plan.fileFields machine).map (·.place),
      place.offset + place.width ≤ fileHeaderBytes := by
    rw [places_fileFields]
    decide
  intro place hplace
  have := hwithin place hplace
  have hoffset : optionalOffset = fileHeaderOffset + fileHeaderBytes := rfl
  omega

theorem within_optionalSize (word : WordWidth) :
    ∀ place ∈ OptionalField.all.filterMap (optionalPlace? word),
      place.offset + place.width ≤ optionalSize word := by
  cases word <;> decide

/-- The optional header keeps to its size. -/
theorem clearOf_optionalFields (plan : Plan) (layout : Kernel.Layout) (dataBase : Nat)
    {start len : Nat} (h : start + len ≤ optionalOffset ∨ tableOffset plan.format.word ≤ start) :
    ClearOf optionalOffset ((plan.optionalFields layout dataBase).map (·.place)) start len := by
  intro place hplace
  rw [places_optionalFields] at hplace
  have := within_optionalSize plan.format.word place hplace
  have hoffset : tableOffset plan.format.word = optionalOffset + optionalSize plan.format.word := rfl
  omega

namespace Plan.HeaderSteps

variable {plan : Plan} {machine : Machine} {layout : Kernel.Layout} {filed full bytes : Bytes}

/-- Headers with room for their table have the room that was planned. -/
theorem length_blank (hroomy : plan.Roomy) : plan.blank.length = plan.headerSize := by
  have htable : fileHeaderOffset ≤ tableOffset plan.format.word := by
    rw [tableOffset, optionalOffset]
    omega
  rw [Plan.Roomy] at hroomy
  rw [Plan.blank, List.length_append, length_front, Bytes.length_zeros]
  omega

/-- None of the three steps changes the length. -/
theorem lengths (hroomy : plan.Roomy) (h : plan.HeaderSteps machine layout filed full bytes) :
    filed.length = plan.headerSize ∧ full.length = plan.headerSize ∧
      bytes.length = plan.headerSize := by
  have hfiled := length_of_putFields h.file
  have hfull := length_of_putFields h.optional
  rw [length_blank hroomy] at hfiled
  rw [hfiled] at hfull
  have hbytes := length_of_putSections (by rw [hfull]; exact hroomy) h.table
  rw [hfull] at hbytes
  exact ⟨hfiled, hfull, hbytes⟩

/-- In front of the section table, the table changed nothing. -/
theorem slice_eq_full (hroomy : plan.Roomy) (h : plan.HeaderSteps machine layout filed full bytes)
    {start len : Nat} (hclear : start + len ≤ tableOffset plan.format.word) :
    bytes.slice start len = full.slice start len := by
  obtain ⟨-, hfull, -⟩ := h.lengths hroomy
  exact slice_of_putSections (by rw [hfull]; exact hroomy) h.table hclear

/-- In front of the optional header, nothing behind the file header changed anything. -/
theorem slice_eq_filed (hroomy : plan.Roomy) (h : plan.HeaderSteps machine layout filed full bytes)
    {start len : Nat} (hclear : start + len ≤ optionalOffset) :
    bytes.slice start len = filed.slice start len := by
  have htable : optionalOffset ≤ tableOffset plan.format.word := Nat.le_add_right ..
  rw [h.slice_eq_full hroomy (by omega)]
  exact slice_of_putFields h.optional (clearOf_optionalFields plan layout _ (.inl hclear))

/-- The header for real-mode systems and the signature stay as they are. -/
theorem slice_eq_front (hroomy : plan.Roomy) (h : plan.HeaderSteps machine layout filed full bytes)
    {start len : Nat} (hclear : start + len ≤ fileHeaderOffset) :
    bytes.slice start len = Bytes.slice (dosHeader ++ signature) start len := by
  have hoptional : fileHeaderOffset ≤ optionalOffset := Nat.le_add_right ..
  rw [h.slice_eq_filed hroomy (by omega),
    slice_of_putFields h.file (clearOf_fileFields plan machine (.inl hclear)), Plan.blank,
    Bytes.slice_append_left (by rw [length_front]; exact hclear)]

/-- Behind the file header there are zeros where no field was put. -/
theorem slice_eq_zeros (hroomy : plan.Roomy) (h : plan.HeaderSteps machine layout filed full bytes)
    {start len : Nat} (hstart : optionalOffset ≤ start) (hend : start + len ≤ plan.headerSize)
    (hclear : ClearOf optionalOffset ((plan.optionalFields layout
      (plan.headerSize + layout.executableSize)).map (·.place)) start len) :
    full.slice start len = Bytes.zeros len := by
  have hoptional : fileHeaderOffset ≤ optionalOffset := Nat.le_add_right ..
  have hlen := length_blank hroomy
  rw [Plan.blank, List.length_append, length_front, Bytes.length_zeros] at hlen
  -- Back through the two steps to the zeros behind the signature.
  rw [slice_of_putFields h.optional hclear,
    slice_of_putFields h.file (clearOf_fileFields plan machine (.inr hstart)), Plan.blank,
    Bytes.slice_append_right (by rw [length_front]; omega), length_front,
    Bytes.slice_zeros (by omega)]

/-- The file header holds its numbers. -/
theorem read?_file (hroomy : plan.Roomy) (h : plan.HeaderSteps machine layout filed full bytes)
    (rest : Bytes) :
    FileHeader.read? plan.format.order ((bytes ++ rest).slice fileHeaderOffset fileHeaderBytes) =
      some (plan.stated machine layout).file := by
  obtain ⟨hfiled, -, hbytes⟩ := h.lengths hroomy
  have hend : optionalOffset ≤ plan.headerSize :=
    Nat.le_trans (Nat.le_add_right ..) (Nat.le_trans (Nat.le_add_right ..) hroomy)
  have hoffset : optionalOffset = fileHeaderOffset + fileHeaderBytes := rfl
  -- Every number is read from where the first step put it; the later ones start behind the header.
  have hget : ∀ field ∈ plan.fileFields machine, plan.format.order.get?
      ((bytes ++ rest).slice fileHeaderOffset fileHeaderBytes) field.place.offset
        field.place.width = some field.value := by
    intro field hfield
    have hwithin : ∀ place ∈ (plan.fileFields machine).map (·.place),
        place.offset + place.width ≤ fileHeaderBytes ∧ place.width ≠ 8 := by
      rw [places_fileFields]
      decide
    obtain ⟨hplace, -⟩ := hwithin field.place (List.mem_map_of_mem hfield)
    have hread := get?_of_putFields h.file (ascending_fileFields plan machine)
      (fun f hf hwidth => absurd hwidth (hwithin f.place (List.mem_map_of_mem hf)).2) hfield
    rw [Bytes.slice_append_left (by omega), ByteOrder.get?_slice hplace (by omega), ← hread]
    exact ByteOrder.get?_congr (by omega) (by omega) (h.slice_eq_filed hroomy (by omega))
  rw [Plan.fileFields] at hget
  simp only [List.forall_mem_cons] at hget
  obtain ⟨hmachine, hcount, htime, hsize, hflags, -⟩ := hget
  simp only [FileHeader.read?, hmachine, hcount, htime, hsize, hflags, Option.bind_eq_bind,
    Option.bind_some, Plan.stated]

/-- No field but those of the relocation table lies in a data directory. -/
theorem clearOf_directory (word : WordWidth) :
    ∀ place ∈ OptionalField.all.filterMap (optionalPlace? word), ∀ index < directoryCount,
      index ≠ relocationDirectory →
        directoriesOffset word + index * directoryBytes + directoryBytes ≤ place.offset ∨
          place.offset + place.width ≤ directoriesOffset word + index * directoryBytes := by
  cases word <;> decide

/-- The optional header holds its numbers. -/
theorem read?_optional (hroomy : plan.Roomy) (h : plan.HeaderSteps machine layout filed full bytes)
    (rest : Bytes) :
    OptionalHeader.read? plan.format.order
        ((bytes ++ rest).slice optionalOffset (optionalSize plan.format.word)) =
      some (plan.optionalHeader layout) := by
  obtain ⟨-, hfull, hbytes⟩ := h.lengths hroomy
  have htable : tableOffset plan.format.word = optionalOffset + optionalSize plan.format.word := rfl
  have hend : tableOffset plan.format.word ≤ plan.headerSize :=
    Nat.le_trans (Nat.le_add_right ..) hroomy
  rw [Bytes.slice_append_left (by omega)]
  -- A number in the optional header is the one that the fields left there.
  have hget : ∀ offset width, offset + width ≤ optionalSize plan.format.word →
      plan.format.order.get? (bytes.slice optionalOffset (optionalSize plan.format.word)) offset
        width = plan.format.order.get? full (optionalOffset + offset) width := by
    intro offset width hwithin
    rw [ByteOrder.get?_slice hwithin (by omega)]
    exact ByteOrder.get?_congr (by omega) (by omega) (h.slice_eq_full hroomy (by omega))
  apply OptionalHeader.read?_eq_some
  · -- A field that is written is read back as it was put.
    intro field place hplace
    have hmem := mem_optionalFields layout (plan.headerSize + layout.executableSize) hplace
    have hwithin := within_optionalSize plan.format.word place
    rw [← places_optionalFields plan layout (plan.headerSize + layout.executableSize)] at hwithin
    rw [hget _ _ (hwithin (List.mem_map_of_mem hmem))]
    exact get?_of_putFields h.optional (ascending_optionalFields plan layout _)
      (wide_optionalFields plan layout _) hmem
  -- A directory that is not used lies where no field was put.
  · intro index hindex hother half hhalf
    have hinside : directoriesOffset plan.format.word + directoryCount * directoryBytes =
        optionalSize plan.format.word := rfl
    have hlast : (index + 1) * directoryBytes ≤ directoryCount * directoryBytes :=
      Nat.mul_le_mul_right _ hindex
    have hdirectory : directoryBytes = 8 := rfl
    rw [Nat.succ_mul] at hlast
    rw [hget _ _ (by omega)]
    apply ByteOrder.get?_eq_some_of_slice (by omega) (ByteOrder.limit_pos 4)
    rw [ByteOrder.encode_zero]
    apply h.slice_eq_zeros hroomy (by omega) (by omega)
    intro place hplace
    rw [places_optionalFields] at hplace
    have hclear := clearOf_directory plan.format.word place hplace index hindex hother
    omega

/-- The offset of the signature is read from the header for real-mode systems. -/
theorem get?_start (hroomy : plan.Roomy) (h : plan.HeaderSteps machine layout filed full bytes)
    (rest : Bytes) : ByteOrder.little.get? (bytes ++ rest) 0x3c 4 = some dosBytes := by
  obtain ⟨-, -, hbytes⟩ := h.lengths hroomy
  have hfile : fileHeaderOffset = 132 := rfl
  have hend : fileHeaderOffset ≤ plan.headerSize :=
    Nat.le_trans (Nat.le_trans (Nat.le_add_right ..) (Nat.le_add_right ..))
      (Nat.le_trans (Nat.le_add_right ..) hroomy)
  have hread : ByteOrder.little.get? (dosHeader ++ signature) 0x3c 4 = some dosBytes := by
    decide +kernel
  rw [ByteOrder.get?_append_left (by omega), ← hread]
  refine ByteOrder.get?_congr (by omega) (by rw [length_front]; omega) ?_
  exact h.slice_eq_front hroomy (by omega)

/-- The signature stands where the header for real-mode systems says. -/
theorem slice_signature (hroomy : plan.Roomy)
    (h : plan.HeaderSteps machine layout filed full bytes) (rest : Bytes) :
    (bytes ++ rest).slice dosBytes 4 = signature := by
  obtain ⟨-, -, hbytes⟩ := h.lengths hroomy
  have hend : dosBytes + 4 ≤ plan.headerSize :=
    Nat.le_trans (Nat.le_trans (Nat.le_add_right ..) (Nat.le_add_right ..))
      (Nat.le_trans (Nat.le_add_right ..) hroomy)
  rw [Bytes.slice_append_left (by omega), h.slice_eq_front hroomy (Nat.le_refl _)]
  decide +kernel

/-- The section table holds its entries, since the fields in front of it left zeros there. -/
theorem readAll?_table (hroomy : plan.Roomy) (h : plan.HeaderSteps machine layout filed full bytes)
    (rest : Bytes) :
    SectionEntry.readAll? plan.format.order plan.sections.length
      ((bytes ++ rest).drop (tableOffset plan.format.word)) =
        some (plan.sections.map Section.entry) := by
  obtain ⟨-, hfull, -⟩ := h.lengths hroomy
  have hoptional : optionalOffset ≤ tableOffset plan.format.word := Nat.le_add_right ..
  refine readAll?_of_putSections (by rw [hfull]; exact hroomy) ?_ h.table rest
  intro start len hlow hhigh
  rw [hfull] at hhigh
  exact h.slice_eq_zeros hroomy (by omega) hhigh (clearOf_optionalFields plan layout _ (.inr hlow))

end Plan.HeaderSteps

/-- **Headers are read back**: whatever follows them in the image, a reader finds in them everything
that the plan has to say. -/
theorem Plan.read?_of_headers {plan : Plan} {machine : Machine} {layout : Kernel.Layout}
    {bytes : Bytes} (hroomy : plan.Roomy) (h : plan.headers machine layout = .ok bytes)
    (rest : Bytes) :
    Headers.read? plan.format.order (bytes ++ rest) = some (plan.stated machine layout) := by
  obtain ⟨-, filed, full, hsteps⟩ := headers_eq_ok_iff.1 h
  have hstart := hsteps.get?_start hroomy rest
  have hmark : (bytes ++ rest).slice dosBytes 4 = [0x50, 0x45, 0, 0] :=
    hsteps.slice_signature hroomy rest
  -- The reader counts from the end of the header for real-mode systems.
  have hfileHeader : FileHeader.read? plan.format.order ((bytes ++ rest).slice (dosBytes + 4) 20) =
      some (plan.stated machine layout).file := hsteps.read?_file hroomy rest
  have hoptionalHeader : OptionalHeader.read? plan.format.order ((bytes ++ rest).slice (dosBytes + 24)
      (plan.stated machine layout).file.optionalSize) = some (plan.optionalHeader layout) :=
    hsteps.read?_optional hroomy rest
  have hsections : SectionEntry.readAll? plan.format.order
      (plan.stated machine layout).file.sectionCount ((bytes ++ rest).drop
        (dosBytes + 24 + (plan.stated machine layout).file.optionalSize)) =
          some (plan.sections.map Section.entry) := hsteps.readAll?_table hroomy rest
  simp only [Headers.read?, hstart, Option.bind_eq_bind, Option.bind_some, if_pos hmark, hfileHeader,
    hoptionalHeader, hsections]
  rfl

/-! ## §3 Headers that can be written -/

/-- The narrow fields of the optional header hold numbers that are fixed. -/
theorem narrow_optionalFields (plan : Plan) (layout : Kernel.Layout) (dataBase : Nat)
    (field : OptionalField) :
    ∀ place ∈ optionalPlace? plan.format.word field,
      (place.width = 2 ∧ plan.optionalValue layout dataBase field < ByteOrder.limit 2) ∨
        place.width = 4 ∨ place.width = 8 := by
  -- Two fields have 16 bits, and both hold constants.
  have hnames : ∀ word, ∀ place ∈ optionalPlace? word field,
      (place.width = 2 ∧ (field = .magic ∨ field = .subsystem)) ∨
        place.width = 4 ∨ place.width = 8 := by
    intro word
    cases word <;> cases field <;> decide
  intro place hplace
  apply (hnames plan.format.word place hplace).imp_left
  intro h
  rcases h with ⟨hwidth, hfield⟩
  refine ⟨hwidth, ?_⟩
  rcases hfield with rfl | rfl
  · rw [Plan.optionalValue]
    cases plan.format.word <;> decide
  · rw [Plan.optionalValue]
    decide

/-- A number that is counted with 32 bits is taken by its field. -/
theorem takes_optionalValue {plan : Plan} {layout : Kernel.Layout} {dataBase : Nat}
    {name : OptionalField} {place : FieldPlace} (hplace : optionalPlace? plan.format.word name = some place)
    (hvalue : plan.optionalValue layout dataBase name < Size.bound32) :
    ByteOrder.Takes place.width (plan.optionalValue layout dataBase name) := by
  have hlimit : ByteOrder.limit 4 = Size.bound32 := by decide
  -- Narrow fields hold constants, wide ones hold everything.
  rcases narrow_optionalFields plan layout dataBase name place hplace with htwo | hfour | height
  · exact .inl htwo
  · exact .inr (.inl ⟨hfour, by rw [hlimit]; exact hvalue⟩)
  · exact .inr (.inr height)

/-- There is room for the fields of the optional header in front of the section table. -/
theorem placed_optionalFields {plan : Plan} {layout : Kernel.Layout} {dataBase size : Nat}
    (hroom : tableOffset plan.format.word ≤ size) (hsize : size < Size.bound) :
    ∀ field ∈ plan.optionalFields layout dataBase, field.Placed optionalOffset size := by
  intro field hfield
  have hwithin := within_optionalSize plan.format.word field.place
  rw [← places_optionalFields plan layout dataBase] at hwithin
  have hend := hwithin (List.mem_map_of_mem hfield)
  have htable : tableOffset plan.format.word = optionalOffset + optionalSize plan.format.word := rfl
  obtain ⟨name, -, hname⟩ := List.mem_filterMap.1 hfield
  obtain ⟨place, hplace, rfl⟩ := Option.map_eq_some_iff.1 hname
  have hwidth := narrow_optionalFields plan layout dataBase name place hplace
  exact ⟨by omega, hwidth.imp_left And.left, by omega⟩

/-- Every number of the optional header that is counted with 32 bits can be written. -/
theorem writable_optionalFields {plan : Plan} {layout : Kernel.Layout} {dataBase size : Nat}
    (hvalues : ∀ field, plan.optionalValue layout dataBase field < Size.bound32)
    (hroom : tableOffset plan.format.word ≤ size) (hsize : size < Size.bound) :
    ∀ field ∈ plan.optionalFields layout dataBase, field.Writable optionalOffset size := by
  intro field hfield
  have hplaced := placed_optionalFields hroom hsize field hfield
  obtain ⟨name, -, hname⟩ := List.mem_filterMap.1 hfield
  obtain ⟨place, hplace, rfl⟩ := Option.map_eq_some_iff.1 hname
  exact ⟨hplaced.bound, takes_optionalValue hplace (hvalues name), hplaced.room⟩

/-- The file header can be written for any plan with a countable number of sections. -/
theorem writable_fileFields {plan : Plan} {machine : Machine} {size : Nat}
    (hcount : plan.sections.length < ByteOrder.limit 2) (hroom : optionalOffset ≤ size) :
    ∀ field ∈ plan.fileFields machine, field.Writable fileHeaderOffset size := by
  have hmachine : machine.code < ByteOrder.limit 2 := by cases machine <;> decide
  have hoptional : optionalSize plan.format.word < ByteOrder.limit 2 := by
    cases plan.format.word <;> decide
  have hflags : imageFlags plan.format.word < ByteOrder.limit 2 := by
    cases plan.format.word <;> decide
  -- The machine, the count, and three constants.
  have htakes : ∀ field ∈ plan.fileFields machine,
      ByteOrder.Takes field.place.width field.value := by
    rw [Plan.fileFields]
    simp only [List.forall_mem_cons]
    exact ⟨.inl ⟨rfl, hmachine⟩, .inl ⟨rfl, hcount⟩, .inr (.inl ⟨rfl, by decide⟩),
      .inl ⟨rfl, hoptional⟩, .inl ⟨rfl, hflags⟩, fun _ h => absurd h List.not_mem_nil⟩
  have hwithin : ∀ place ∈ (plan.fileFields machine).map (·.place),
      fileHeaderOffset + place.offset < Size.bound ∧
        fileHeaderOffset + place.offset + place.width ≤ optionalOffset := by
    rw [places_fileFields]
    decide
  intro field hfield
  obtain ⟨hbound, hend⟩ := hwithin field.place (List.mem_map_of_mem hfield)
  exact ⟨hbound, htakes field hfield, Nat.le_trans hend hroom⟩

/-- **Headers can be written** where they have the room, and all their numbers can be counted with
32 bits. -/
theorem Plan.exists_headers {plan : Plan} {machine : Machine} {layout : Kernel.Layout}
    (hroomy : plan.Roomy) (hsize : plan.headerSize < Size.bound)
    (hbase : plan.headerSize + layout.executableSize < Size.bound)
    (hcount : plan.sections.length < ByteOrder.limit 2)
    (hvalues : ∀ field, plan.optionalValue layout (plan.headerSize + layout.executableSize) field <
      Size.bound32)
    (hsections : ∀ s ∈ plan.sections, s.Counted) :
    ∃ bytes, plan.headers machine layout = .ok bytes := by
  have htable : tableOffset plan.format.word ≤ plan.headerSize :=
    Nat.le_trans (Nat.le_add_right ..) hroomy
  have hoptional : optionalOffset ≤ tableOffset plan.format.word := Nat.le_add_right ..
  have hblank := HeaderSteps.length_blank hroomy
  -- The three steps, each with the length that the one before it kept.
  obtain ⟨filed, hfiled⟩ : ∃ filed, putFields plan.format fileHeaderOffset plan.blank
      (plan.fileFields machine) = .ok filed :=
    exists_putFields_iff.2 (writable_fileFields hcount (by omega))
  have hlen := length_of_putFields hfiled
  rw [hblank] at hlen
  obtain ⟨full, hfull⟩ : ∃ full, putFields plan.format optionalOffset filed (plan.optionalFields layout
      (plan.headerSize + layout.executableSize)) = .ok full :=
    exists_putFields_iff.2 (writable_optionalFields hvalues (by omega) (by omega))
  have hlen' := length_of_putFields hfull
  rw [hlen] at hlen'
  obtain ⟨bytes, hbytes⟩ : ∃ bytes, putSections plan.format (tableOffset plan.format.word) full
      plan.sections = .ok bytes :=
    exists_putSections (by rw [hlen']; exact hroomy) (by omega) hsections
  exact ⟨bytes, headers_eq_ok_iff.2 ⟨hbase, filed, full, hfiled, hfull, hbytes⟩⟩

end BootImage.Pe
