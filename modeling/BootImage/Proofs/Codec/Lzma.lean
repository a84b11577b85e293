import BootImage.Codec.Lzma
import BootImage.Proofs.Codec.RangeCoder

/-!
# Reading raw LZMA streams back

Unpacking the stream of a byte string gives the byte string. A stream is one sequence of decisions, and
the decoder asks for them in the order in which they were made: each literal in the contexts that the
position and the preceding byte give, and the end marker after the last one. Since every decision costs
some of the interval, a stream cannot hold more literals than the decoder has fuel for.

- `decisions`: the sequence of a byte string; `known_decisions`: its slots; `encode_eq`: its stream.
- `readLiteral?_of_faces`, `readAll?_of_faces`: one literal, and all of them.
- `length_lt_fuel`: the fuel of the decoder.
- `lossless_codec`: raw streams as a codec.
-/

namespace BootImage.Codec.Lzma

open RangeCoder

/-! ## §1 The decisions of a stream -/

/-- The decisions of some content behind what has been written, and of the end marker. -/
def decisions (position : Nat) (previous : UInt8) : Bytes → List Decision
  | [] => endMarker position
  | byte :: content => literal position previous byte ++ decisions (position + 1) byte content

/-- Literal by literal, an encoder makes the decisions of the content. -/
theorem steps_foldl_push (content : Bytes) (cursor : Cursor) :
    (content.foldl Cursor.push cursor).encoder.steps
        (endMarker (content.foldl Cursor.push cursor).position) =
      cursor.encoder.steps (decisions cursor.position cursor.previous content) := by
  -- By induction on the content, for every cursor that it can be pushed to.
  induction content generalizing cursor with
  | nil => rfl
  | cons byte content ih => rw [List.foldl_cons, ih, decisions, Encoder.steps_append, Cursor.push]

/-- A stream is what an encoder gives after all decisions about its content. -/
theorem encode_eq (content : Bytes) :
    encode content = ((Encoder.start (Model.even slotCount)).steps (decisions 0 0 content)).finish :=
  congrArg Encoder.finish (steps_foldl_push content ⟨Encoder.start (Model.even slotCount), 0, 0⟩)

/-- A byte takes nine decisions: that it is a literal, and one for each bit. -/
theorem length_decisions (content : Bytes) (position : Nat) (previous : UInt8) :
    9 * content.length ≤ (decisions position previous content).length := by
  -- By induction on the content. The end marker is not counted.
  induction content generalizing position previous with
  | nil => exact Nat.zero_le _
  | cons byte content ih =>
    have hliteral : (literal position previous byte).length = 9 := rfl
    have hrest := ih (position + 1) byte
    rw [decisions, List.length_append, List.length_cons, hliteral]
    omega

/-! ### Slots -/

theorem matchSlot_lt (position : Nat) : matchSlot position < slotCount :=
  Nat.lt_trans (Nat.mod_lt _ (by decide : 0 < 4)) (by decide)

/-- A literal stays in the tree of its context. -/
theorem known_literal (position : Nat) (previous byte : UInt8) :
    ∀ d ∈ literal position previous byte, d.Known slotCount := by
  -- There are eight trees for literals, chosen by the three highest bits of the preceding byte.
  have hslots : literalSlots previous ≤ 256 + 7 * 0x300 := by
    have hlt := previous.toNat_lt
    rw [literalSlots]
    omega
  have hcount : slotCount = 256 + 8 * 0x300 := rfl
  rw [literal, List.forall_mem_cons, List.forall_mem_map]
  refine ⟨matchSlot_lt position, fun i _ => ?_⟩
  -- A node is what the bits so far make of nine.
  have hnode : (256 + byte.toNat) >>> (i + 1) ≤ 256 + byte.toNat := Nat.shiftRight_le ..
  have hlt := byte.toNat_lt
  show literalSlots previous + (256 + byte.toNat) >>> (i + 1) < slotCount
  omega

/-- The end marker needs the first nodes of the trees of lengths and distances only. -/
theorem known_endMarker (position : Nat) : ∀ d ∈ endMarker position, d.Known slotCount := by
  have hcount : slotCount = 6400 := rfl
  have hposition := matchSlot_lt position
  have hlengths : shortLengthSlots position ≤ 32 := by
    rw [shortLengthSlots]
    omega
  rw [endMarker]
  -- Every decision of the marker is listed, with its slot.
  simp only [List.map_cons, List.map_nil, List.forall_mem_append, List.forall_mem_cons,
    List.forall_mem_replicate, List.not_mem_nil, false_implies, implies_true, and_true, or_true,
    Decision.Known, repeatSlot, lengthSlot, distanceSlots, alignSlots]
  omega

/-- All decisions about some content are about slots of the model. -/
theorem known_decisions (content : Bytes) (position : Nat) (previous : UInt8) :
    ∀ d ∈ decisions position previous content, d.Known slotCount := by
  -- By induction on the content, which moves the position and the context along.
  induction content generalizing position previous with
  | nil => exact known_endMarker position
  | cons byte content ih =>
    rw [decisions, List.forall_mem_append]
    exact ⟨known_literal position previous byte, ih (position + 1) byte⟩

/-! ## §2 Literals -/

/-- The decisions about the lowest bits of a symbol, each in the node that the bits above it lead to. -/
def bits (slots symbol n : Nat) : List Decision :=
  (List.range n).reverse.map fun i => .modelled (slots + symbol >>> (i + 1)) (symbol.testBit i)

/-- The highest of the bits is decided first. -/
theorem bits_succ (slots symbol n : Nat) :
    bits slots symbol (n + 1) =
      .modelled (slots + symbol >>> (n + 1)) (symbol.testBit n) :: bits slots symbol n := by
  rw [bits, List.range_succ, List.reverse_append, List.reverse_singleton, List.singleton_append,
    List.map_cons, bits]

/-- A literal is the nine bits of a symbol, the highest of which is always set and not written. -/
theorem literal_eq (position : Nat) (previous byte : UInt8) :
    literal position previous byte =
      .modelled (matchSlot position) false :: bits (literalSlots previous) (256 + byte.toNat) 8 := rfl

/-- One more bit of a symbol. -/
def readBit? (slots : Nat) (state : Nat × Decoder) (_ : Unit) : Option (Nat × Decoder) :=
  (state.2.modelled? (slots + state.1)).bind fun read => some (2 * state.1 + read.1.toNat, read.2)

theorem readLiteral?_eq (decoder : Decoder) (slots : Nat) :
    readLiteral? decoder slots =
      ((List.replicate 8 ()).foldlM (readBit? slots) (1, decoder)).bind fun state =>
        some (UInt8.ofNat state.1, state.2) := rfl

/-- A bit is put behind those above it. -/
theorem shiftRight_push (symbol n : Nat) :
    2 * symbol >>> (n + 1) + (symbol.testBit n).toNat = symbol >>> n := by
  rw [Nat.toNat_testBit, Nat.shiftRight_succ, Nat.shiftRight_eq_div_pow]
  omega

variable {decoder : Decoder} {e : Encoder} {later : List Decision} {stream : Bytes}

/-- **A symbol is read back bit by bit**: what has been read are the bits above those that are left. -/
theorem readBits?_of_faces {slots symbol n : Nat}
    (h : decoder.Faces e (bits slots symbol n ++ later) stream) :
    ∃ next, (List.replicate n ()).foldlM (readBit? slots) (symbol >>> n, decoder) = some (symbol, next) ∧
      next.Faces (e.steps (bits slots symbol n)) later stream := by
  -- By induction on the number of bits that are left. The node is always what has been read.
  induction n generalizing decoder e with
  | zero => exact ⟨decoder, rfl, h⟩
  | succ n ih =>
    rw [bits_succ, List.cons_append] at h
    obtain ⟨next, hnext, hfaces⟩ := h.read?
    have hnext : decoder.modelled? (slots + symbol >>> (n + 1)) = some (symbol.testBit n, next) := hnext
    have hbit : readBit? slots (symbol >>> (n + 1), decoder) () = some (symbol >>> n, next) := by
      rw [readBit?, hnext, Option.bind_some, shiftRight_push]
    obtain ⟨last, hlast, hlater⟩ := ih hfaces
    rw [bits_succ, Encoder.steps_cons, List.replicate_succ, List.foldlM_cons, hbit]
    exact ⟨last, hlast, hlater⟩

/-- **A literal is read back** in the context in which it was written. -/
theorem readLiteral?_of_faces {slots : Nat} {byte : UInt8}
    (h : decoder.Faces e (bits slots (256 + byte.toNat) 8 ++ later) stream) :
    ∃ next, readLiteral? decoder slots = some (byte, next) ∧
      next.Faces (e.steps (bits slots (256 + byte.toNat) 8)) later stream := by
  obtain ⟨next, hnext, hfaces⟩ := readBits?_of_faces h
  -- The ninth bit is set, so the bits are read from the root of the tree on.
  have htop : (256 + byte.toNat) >>> 8 = 1 := by
    have hlt := byte.toNat_lt
    rw [Nat.shiftRight_eq_div_pow]
    omega
  have hbyte : UInt8.ofNat (256 + byte.toNat) = byte := by
    apply UInt8.toNat_inj.1
    have hlt := byte.toNat_lt
    rw [UInt8.toNat_ofNat']
    omega
  rw [htop] at hnext
  rw [readLiteral?_eq, hnext, Option.bind_some, hbyte]
  exact ⟨next, rfl, hfaces⟩

/-! ## §3 Streams -/

/-- One more literal of a stream. -/
theorem readAll?_of_literal {fuel position : Nat} {read : Bytes} {byte : UInt8} {next last : Decoder}
    (hmatch : decoder.modelled? (matchSlot position) = some (false, next))
    (hliteral : readLiteral? next (literalSlots (read.headD 0)) = some (byte, last)) :
    readAll? (fuel + 1) decoder position read = readAll? fuel last (position + 1) (byte :: read) := by
  rw [readAll?, hmatch, Option.bind_eq_bind, Option.bind_some]
  dsimp only
  rw [if_neg Bool.false_ne_true, hliteral]
  rfl

/-- The end of a stream, with nothing behind the marker. -/
theorem readAll?_of_endMarker {fuel position : Nat} {read : Bytes} {next last : Decoder}
    (hmatch : decoder.modelled? (matchSlot position) = some (true, next))
    (hmarker : next.expect? (endMarker position).tail = some last) (hrest : last.rest = []) :
    readAll? (fuel + 1) decoder position read = some read.reverse := by
  rw [readAll?, hmatch, Option.bind_eq_bind, Option.bind_some]
  dsimp only
  rw [if_pos rfl, hmarker, Option.bind_eq_bind, Option.bind_some, hrest]
  rfl

/-- **All that is left is read back**, with fuel for one more step than there are bytes. -/
theorem readAll?_of_faces {content read : Bytes} {position fuel : Nat}
    (h : decoder.Faces e (decisions position (read.headD 0) content) stream)
    (hlength : stream.length = (e.steps (decisions position (read.headD 0) content)).size + 4)
    (hfuel : content.length < fuel) :
    readAll? fuel decoder position read = some (read.reverse ++ content) := by
  -- By induction on what is left to be read.
  induction content generalizing decoder e position read fuel with
  | nil =>
    obtain ⟨fuel, rfl⟩ := Nat.exists_eq_succ_of_ne_zero (Nat.ne_of_gt hfuel)
    have hmarker : endMarker position =
        .modelled (matchSlot position) true :: (endMarker position).tail := rfl
    rw [decisions, hmarker] at h hlength
    obtain ⟨next, hnext, hfaces⟩ := h.read?
    rw [← List.append_nil (endMarker position).tail] at hfaces
    obtain ⟨last, hlast, hend⟩ := hfaces.expect?
    -- The end marker is the last of the decisions, and so the stream has been used up.
    have hrest : last.rest = [] := by
      rw [Encoder.steps_cons] at hlength
      rw [hend.follows.rest]
      exact List.drop_eq_nil_of_le (Nat.le_of_eq hlength)
    rw [readAll?_of_endMarker hnext hlast hrest, List.append_nil]
  | cons byte content ih =>
    obtain ⟨fuel, rfl⟩ := Nat.exists_eq_succ_of_ne_zero (Nat.ne_of_gt (Nat.zero_lt_of_lt hfuel))
    -- The match bit says that a literal follows, which becomes the context of the next one.
    rw [decisions, literal_eq, List.cons_append] at h hlength
    rw [Encoder.steps_cons, Encoder.steps_append] at hlength
    obtain ⟨next, hnext, hfaces⟩ := h.read?
    obtain ⟨last, hlast, hrest⟩ := readLiteral?_of_faces hfaces
    rw [readAll?_of_literal hnext hlast, ih hrest hlength (Nat.lt_of_succ_lt_succ hfuel),
      List.reverse_cons, List.append_assoc, List.singleton_append]

/-- A probability of at most 253 parts in 256 makes 576 decisions cost a byte. -/
theorem lt_of_pow_le {n size : Nat} (h : 256 ^ n ≤ 253 ^ n * 256 ^ size) : n < 576 * (size + 1) := by
  refine Nat.lt_of_not_le fun hmany => ?_
  obtain ⟨more, rfl⟩ := Nat.exists_eq_add_of_le hmany
  -- So 576 decisions leave less of the interval than a byte would.
  have hbyte : 253 ^ 576 ≤ 256 ^ 575 := by decide +kernel
  have hless : 253 ^ (576 * (size + 1) + more) * 256 ^ size < 256 ^ (576 * (size + 1) + more) :=
    calc 253 ^ (576 * (size + 1) + more) * 256 ^ size
        = (253 ^ 576) ^ (size + 1) * 253 ^ more * 256 ^ size := by rw [pow_add, pow_mul]
      _ ≤ (256 ^ 575) ^ (size + 1) * 256 ^ more * 256 ^ size := by
          refine Nat.mul_le_mul_right _ (Nat.mul_le_mul (Nat.pow_le_pow_left hbyte _) ?_)
          exact Nat.pow_le_pow_left (by decide) more
      _ = 256 ^ (575 * (size + 1) + more + size) := by rw [← pow_mul, ← pow_add, ← pow_add]
      _ < 256 ^ (576 * (size + 1) + more) := Nat.pow_lt_pow_right (by decide) (by omega)
  exact Nat.not_le.2 hless h

theorem limit_eq_pow (n : Nat) : ByteOrder.limit n = 256 ^ n := by
  rw [ByteOrder.limit, Nat.one_shiftLeft, Nat.pow_mul]

/-- The state of an encoder behind all decisions of a stream. -/
def finalEncoder (content : Bytes) : Encoder :=
  (Encoder.start (Model.even slotCount)).steps (decisions 0 0 content)

/-- The decisions about some content are possible from the start on. -/
theorem known_start (content : Bytes) :
    ∀ d ∈ decisions 0 0 content, d.Known (Encoder.start (Model.even slotCount)).model.size := by
  have hsize : (Encoder.start (Model.even slotCount)).model.size = slotCount := Array.size_replicate
  rw [hsize]
  exact known_decisions content 0 0

theorem holds_finalEncoder (content : Bytes) : (finalEncoder content).Holds rangeFloor :=
  (Encoder.holds_start (Model.unsure_even slotCount)).steps (known_start content)

/-- A stream is four bytes longer than what has left the encoder or waits in it. -/
theorem length_encode (content : Bytes) :
    (encode content).length = (finalEncoder content).size + 4 := by
  rw [encode_eq]
  exact ((holds_finalEncoder content).contained (by decide)).front_finish.1

/-- **The fuel is enough**: each byte takes nine decisions at least. -/
theorem length_lt_fuel (content : Bytes) : content.length < 64 * ((encode content).length + 1) := by
  have hstart := Encoder.holds_start (Model.unsure_even slotCount)
  have hcost := hstart.range_steps (known_start content)
  have hleast := (holds_finalEncoder content).least_le
  have hcount := length_decisions content 0 0
  rw [length_encode]
  change 256 ^ _ * (finalEncoder content).range * ByteOrder.limit 1 ≤
    253 ^ _ * ((rangeBound - 1) * ByteOrder.limit (finalEncoder content).size) at hcost
  rw [limit_eq_pow, limit_eq_pow] at hcost
  -- What is left of the interval is at least as wide as the floor, and so bounds the number of decisions.
  generalize (decisions 0 0 content).length = n at hcost hcount
  have hpow : 256 ^ n ≤ 253 ^ n * 256 ^ (finalEncoder content).size := by
    refine Nat.le_of_mul_le_mul_right ?_ (by decide : 0 < rangeBound)
    calc 256 ^ n * rangeBound
        = 256 ^ n * rangeFloor * 256 ^ 1 := by rw [pow_one, Nat.mul_assoc]; rfl
      _ ≤ 256 ^ n * (finalEncoder content).range * 256 ^ 1 :=
          Nat.mul_le_mul_right _ (Nat.mul_le_mul_left _ hleast)
      _ ≤ 253 ^ n * ((rangeBound - 1) * 256 ^ (finalEncoder content).size) := hcost
      _ ≤ 253 ^ n * (rangeBound * 256 ^ (finalEncoder content).size) :=
          Nat.mul_le_mul_left _ (Nat.mul_le_mul_right _ (Nat.sub_le _ _))
      _ = 253 ^ n * 256 ^ (finalEncoder content).size * rangeBound := by
          rw [Nat.mul_comm rangeBound, Nat.mul_assoc]
  have hlt := lt_of_pow_le hpow
  omega

/-- **Raw LZMA streams are lossless.** -/
theorem lossless_codec : codec.Lossless := by
  intro content stream h
  obtain rfl : encode content = stream := by
    injection h
  have hholds := holds_finalEncoder content
  have hmeets : (finalEncoder content).Meets (encode content) := by
    rw [encode_eq]
    exact hholds.meets_finish (by decide)
  have hstart := Encoder.holds_start (Model.unsure_even slotCount)
  obtain ⟨decoder, hdecoder, hfollows⟩ :=
    Decoder.follows_start (hstart.meets_of_steps (known_start content) hmeets)
  -- The decoder starts at the first interval, with all decisions in front of it.
  have hall : readAll? (64 * ((encode content).length + 1)) decoder 0 [] = some ([].reverse ++ content) :=
    readAll?_of_faces ⟨hfollows, hstart, known_start content, hmeets⟩ (length_encode content)
      (length_lt_fuel content)
  show decode? (encode content) = some content
  rw [decode?, hdecoder]
  exact hall

end BootImage.Codec.Lzma
