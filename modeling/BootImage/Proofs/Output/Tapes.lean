import BootImage.Output.Medium
import BootImage.Proofs.Output.Emission
import BootImage.Proofs.Slices

/-!
# Tapes behind outputs

An output that keeps to a tape puts every piece over what the tape holds at its position. It does not
matter how many bytes it takes at once: one piece after the other leaves what the two leave as one.

- `Tape.write_append`: two pieces, one behind the other, are one piece.
- `Tape.fill`, `Tape.put`: pieces of which an empty one fills the gap in front of it too.
- `Device.OnTape`, `Device.OnTape.putAll`: devices on tapes, and what becomes of a piece that is offered
  until it is taken.
- `Device.Reliable`: devices that take some bytes of every offer.
- `Output.Follows`: the pieces that outputs put as a whole.
- `Medium.onTape_device`, `Medium.follows_buffer`: media on tapes.
-/

namespace BootImage

/-! ## §1 Pieces -/

/-- Two pieces, the second behind the first. -/
theorem Bytes.overlay_overlay {buf : Bytes} {off : Nat} (front rest : Bytes) (h : off ≤ buf.length) :
    (buf.overlay off front).overlay (off + front.length) rest = buf.overlay off (front ++ rest) := by
  have hfront : (buf.take off ++ front).length = off + front.length := by
    rw [List.length_append, List.length_take, Nat.min_eq_left h]
  calc (buf.overlay off front).overlay (off + front.length) rest
      = Bytes.overlay (buf.take off ++ front ++ buf.drop (off + front.length))
          (buf.take off ++ front).length rest := by
        rw [hfront, List.append_assoc]
        rfl
    _ = buf.take off ++ front ++ (rest ++ (buf.drop (off + front.length)).drop rest.length) :=
        overlay_append _ _ rest
    _ = buf.overlay off (front ++ rest) := by
        simp only [overlay, List.drop_drop, List.length_append, List.append_assoc, Nat.add_assoc]

namespace Tape

variable (tape : Tape)

/-- The tape with a piece at its position, and moved behind it. A gap in front of the piece is filled
with zeros, even if the piece is empty. -/
def fill (piece : Bytes) : Tape :=
  ⟨Bytes.overlay (tape.content ++ Bytes.zeros (tape.position - tape.content.length)) tape.position piece,
    tape.position + piece.length⟩

/-- The ways of putting a piece on a tape: an empty piece `fills` the gap in front of it or not. -/
def put (fills : Bool) : Tape → Bytes → Tape := if fills then fill else write

@[simp] theorem write_nil : tape.write [] = tape := rfl

/-- The two ways differ in empty pieces only. -/
theorem write_eq_fill {piece : Bytes} (h : piece ≠ []) : tape.write piece = tape.fill piece := by
  simp only [write, fill, cover, List.isEmpty_iff, if_neg h]

@[simp] theorem position_put (fills : Bool) (piece : Bytes) :
    (tape.put fills piece).position = tape.position + piece.length := by
  cases fills <;> rfl

/-- Zeros for a gap, or content kept behind the piece: the longer of the two ends counts. -/
theorem length_fill (piece : Bytes) :
    (tape.fill piece).content.length =
      max tape.content.length (tape.position + piece.length) := by
  simp only [fill, Bytes.overlay, List.length_append, List.length_take, List.length_drop,
    Bytes.length_zeros]
  omega

/-- A piece, and with some outputs an empty one too, makes the content reach at least to its end. -/
theorem length_put (fills : Bool) (piece : Bytes) :
    (tape.put fills piece).content.length =
      if piece = [] ∧ fills = false then tape.content.length
      else max tape.content.length (tape.position + piece.length) := by
  cases fills with
  | true => simp [put, length_fill]
  | false =>
    by_cases hpiece : piece = []
    · simp [put, hpiece]
    · simp [put, hpiece, write_eq_fill tape hpiece, length_fill]

/-- **Two pieces, one behind the other, are one piece.** -/
theorem write_append (front rest : Bytes) :
    (tape.write front).write rest = tape.write (front ++ rest) := by
  by_cases hfront : front = []
  · simp [hfront]
  by_cases hrest : rest = []
  · simp [hrest]
  have hboth : front ++ rest ≠ [] := fun h => hfront (List.append_eq_nil_iff.1 h).1
  rw [write_eq_fill _ hrest, write_eq_fill _ hfront, write_eq_fill _ hboth]
  -- The first piece leaves no gap in front of the second.
  have hgap : (tape.fill front).position - (tape.fill front).content.length = 0 := by
    rw [length_fill]
    exact Nat.sub_eq_zero_of_le (Nat.le_max_right _ _)
  have hfilled : tape.position ≤
      (tape.content ++ Bytes.zeros (tape.position - tape.content.length)).length := by
    rw [List.length_append, Bytes.length_zeros]
    omega
  rw [fill, hgap]
  simp only [fill, Bytes.zeros, List.replicate_zero, List.append_nil, List.length_append,
    Nat.add_assoc]
  rw [← Bytes.zeros, Bytes.overlay_overlay front rest hfilled]

end Tape

/-! ## §2 Outputs on tapes -/

variable {σ : Type}

/-- A device that keeps to a tape. What it takes of an offer comes to stand at the position of the tape,
and moving changes no content. -/
structure Device.OnTape (device : Device σ) (view : σ → Tape) : Prop where
  /-- An offer, of which some bytes are taken or none. -/
  write : ∀ state bytes, bytes ≠ [] → view (device.write state bytes).2 =
    (view state).write (DeviceCall.write bytes (device.write state bytes).1).accepted
  /-- Moving changes no content, whether it fails or not. -/
  content_seek : ∀ state position,
    (view (device.seek state position).2).content = (view state).content
  /-- Moving leads to the position asked for. -/
  position_seek : ∀ state position, (device.seek state position).1 = .ok () →
    (view (device.seek state position).2).position = position

/-- A device that takes at least one byte of every offer, and no more than it was offered, and moves
wherever it is asked to. -/
structure Device.Reliable (device : Device σ) : Prop where
  /-- Some bytes are taken. -/
  write : ∀ state bytes, bytes ≠ [] →
    ∃ taken, (device.write state bytes).1 = .ok (taken + 1) ∧ taken + 1 ≤ bytes.length
  /-- Moving does not fail. -/
  seek : ∀ state position, (device.seek state position).1 = .ok ()

/-- An output that follows a tape: where it does not fail, it puts whole pieces at the position of the
tape. -/
structure Output.Follows (out : Output σ) (view : σ → Tape) (fills : Bool) : Prop where
  /-- A piece is put as a whole. -/
  put : ∀ state bytes, (out.put state bytes).1 = .ok () →
    view (out.put state bytes).2 = (view state).put fills bytes
  /-- Moving leads to the position asked for, and changes no content. -/
  seek : ∀ state position, (out.seek state position).1 = .ok () →
    view (out.seek state position).2 = ⟨(view state).content, position⟩

namespace Device

variable {device : Device σ} {view : σ → Tape}

/-- One offer that is answered with an error, or with no byte taken, leaves the tape as it was. -/
theorem OnTape.write_of_accepted_nil (h : device.OnTape view) {state next : σ} {b : UInt8}
    {rest : Bytes} {given : Except OutputFailure Nat}
    (hwrite : device.write state (b :: rest) = (given, next))
    (hnil : (DeviceCall.write (b :: rest) given).accepted = []) : view next = view state := by
  have hview := h.write state (b :: rest) (List.cons_ne_nil b rest)
  simpa only [hwrite, hnil, Tape.write_nil] using hview

/-- **A piece that is offered until it is taken**: the tape comes to hold a beginning of it, which is all
of it if the device does not fail. -/
theorem OnTape.putAll (h : device.OnTape view) (state : σ) (bytes : Bytes) :
    ∃ taken, taken <+: bytes ∧ view (device.putAll state bytes).2 = (view state).write taken ∧
      ((device.putAll state bytes).1 = .ok () → taken = bytes) := by
  -- By induction on the offers. What the first one takes and what the later ones take is one piece.
  fun_induction Device.putAll device state bytes with
  | case1 state => exact ⟨[], List.prefix_refl [], rfl, fun _ => rfl⟩
  | case2 state b rest failure next hwrite =>
    refine ⟨[], List.nil_prefix, h.write_of_accepted_nil hwrite rfl, fun hok => ?_⟩
    cases hok
  | case3 state b rest next hwrite =>
    refine ⟨[], List.nil_prefix, h.write_of_accepted_nil hwrite rfl, fun hok => ?_⟩
    cases hok
  | case4 state b rest count next hwrite hle ih =>
    obtain ⟨taken, hprefix, hview, hall⟩ := ih
    have hfirst : view next = (view state).write (b :: rest.take count) := by
      have hview := h.write state (b :: rest) (List.cons_ne_nil b rest)
      simpa only [hwrite, DeviceCall.accepted, List.take_succ_cons] using hview
    have hsplit : b :: rest = b :: rest.take count ++ rest.drop count := by
      rw [List.cons_append, List.take_append_drop]
    refine ⟨b :: rest.take count ++ taken, ?_, ?_, fun hok => ?_⟩
    · -- What the later offers take follows what the first one took.
      rw [hsplit]
      exact (List.prefix_append_right_inj _).2 hprefix
    · rw [hview, hfirst, Tape.write_append]
    · rw [hall hok, ← hsplit]
  | case5 state b rest count next hwrite hle =>
    -- The device claims more than it was offered. What it can have taken is all of it.
    have hview := h.write state (b :: rest) (List.cons_ne_nil b rest)
    rw [hwrite] at hview
    refine ⟨_, DeviceCall.accepted_prefix .., hview, fun hok => ?_⟩
    cases hok

/-- A device that takes some bytes of every offer comes to take every piece. -/
theorem Reliable.putAll (h : device.Reliable) (state : σ) (bytes : Bytes) :
    (device.putAll state bytes).1 = .ok () := by
  -- Of the five ways in which offers end, a reliable device has two.
  fun_induction Device.putAll device state bytes with
  | case1 state => rfl
  | case2 state b rest failure next hwrite =>
    obtain ⟨taken, hok, -⟩ := h.write state (b :: rest) (List.cons_ne_nil b rest)
    rw [hwrite] at hok
    cases hok
  | case3 state b rest next hwrite =>
    obtain ⟨taken, hok, -⟩ := h.write state (b :: rest) (List.cons_ne_nil b rest)
    rw [hwrite] at hok
    cases hok
  | case4 state b rest count next hwrite hle ih => exact ih
  | case5 state b rest count next hwrite hle =>
    obtain ⟨taken, hok, hfits⟩ := h.write state (b :: rest) (List.cons_ne_nil b rest)
    rw [hwrite] at hok
    cases hok
    exact absurd (Nat.le_of_succ_le_succ hfits) hle

/-- A device on a tape is an output that follows the tape. -/
theorem OnTape.follows (h : device.OnTape view) : device.output.Follows view false where
  put state bytes hok := by
    obtain ⟨taken, -, hview, hall⟩ := h.putAll state bytes
    rw [hall hok] at hview
    exact hview
  seek state position hok := by
    have hcontent := h.content_seek state position
    have hposition := h.position_seek state position hok
    rw [← hcontent]
    exact congrArg (Tape.mk _) hposition

end Device

/-! ## §3 Tapes and media -/

/-- A tape as a device that takes at most so many bytes of an offer, and one more. -/
def Tape.device (most : Nat) : Device Tape where
  write tape bytes := (.ok (bytes.take (most + 1)).length, tape.write (bytes.take (most + 1)))
  seek tape position := (.ok (), ⟨tape.content, position⟩)
  flush tape := (.ok (), tape)
  sync tape := (.ok (), tape)

/-- A tape is the plainest device on a tape, however little it takes at once. -/
theorem Tape.onTape_device (most : Nat) : (Tape.device most).OnTape id where
  write tape bytes _ := by
    simp [device, DeviceCall.accepted, List.take_eq_take_min]
  content_seek _ _ := rfl
  position_seek _ _ _ := rfl

theorem Tape.reliable_device (most : Nat) : (Tape.device most).Reliable where
  write tape bytes h := by
    cases bytes with
    | nil => exact absurd rfl h
    | cons b rest =>
      exact ⟨(rest.take most).length, rfl, Nat.succ_le_succ (List.length_take_le' most rest)⟩
  seek _ _ := rfl

namespace Medium

/-- A buffer holds what was put into it. An empty piece fills the gap in front of it. -/
theorem tape_put_eq_fill (m : Medium) (bytes : Bytes) : (m.put bytes).tape = m.tape.fill bytes := by
  rw [tape, content_put]
  rfl

/-- Memory that cannot hold so much leaves a medium as it was. -/
theorem fill_cases (m : Medium) (bytes : Bytes) :
    fill m bytes = (.ok (), m.put bytes) ∨
      ∃ cause, fill m bytes = (.error (.fault cause), m) := by
  by_cases hfit : m.position + bytes.length < Size.bufferBound
  · exact .inl (if_pos hfit)
  · exact .inr ⟨_, if_neg hfit⟩

/-- **A buffer follows its tape**, with gaps filled in front of empty pieces. -/
theorem follows_buffer : buffer.Follows tape true where
  put m bytes hok := by
    change (fill m bytes).1 = .ok () at hok
    change (fill m bytes).2.tape = m.tape.fill bytes
    rcases fill_cases m bytes with hput | ⟨cause, hput⟩
    · rw [hput]
      exact tape_put_eq_fill m bytes
    · rw [hput] at hok
      cases hok
  seek m position _ := tape_moveTo m position

variable {limits : MediumLimits} {m : Medium} {bytes : Bytes}

/-- Whatever the limits are, the bytes that are taken are the first ones. -/
theorem portion_prefix : portion limits m bytes <+: bytes := by
  unfold portion
  cases limits.chunk with
  | none =>
    cases limits.room with
    | none => exact List.prefix_refl bytes
    | some room => exact List.take_prefix ..
  | some chunk =>
    cases limits.room with
    | none => exact List.take_prefix ..
    | some room => exact (List.take_prefix ..).trans (List.take_prefix ..)

/-- A medium that takes some bytes at once, and has room, takes some of an offer. -/
theorem portion_ne_nil (hchunk : limits.chunk ≠ some 0) (hroom : isFull limits m = false)
    (h : bytes ≠ []) : portion limits m bytes ≠ [] := by
  obtain ⟨chunk, room⟩ := limits
  cases chunk <;> cases room <;> simp_all [portion, isFull]
  all_goals omega

/-- What a medium takes of an offer comes to stand on its tape. -/
theorem tape_takeSome (h : portion limits m bytes ≠ []) :
    (takeSome limits m bytes).2.tape =
      m.tape.write (DeviceCall.write bytes (takeSome limits m bytes).1).accepted := by
  unfold takeSome
  dsimp only
  split
  · rcases fill_cases m (portion limits m bytes) with hfill | ⟨cause, hfill⟩
    · rw [hfill, DeviceCall.accepted, ← List.prefix_iff_eq_take.1 portion_prefix]
      exact tape_put m h
    · rw [hfill]
      rfl
  · rfl

/-- A medium with limits keeps to its tape, unless it can come to take none of an offer without
an error. -/
theorem onTape_device (hchunk : limits.chunk ≠ some 0)
    (hroom : limits.room = none ∨ limits.writeError ≠ none) : (device limits).OnTape tape where
  write m bytes h := by
    -- A medium that reports its errors may be full, one that does not may never be.
    cases herror : limits.writeError with
    | none =>
      have hfull : isFull limits m = false := by
        rw [isFull, hroom.resolve_right (fun hne => hne herror)]
        rfl
      simpa only [device, herror] using tape_takeSome (portion_ne_nil hchunk hfull h)
    | some text =>
      cases hfull : isFull limits m with
      | true => simp [device, herror, hfull, DeviceCall.accepted]
      | false => simpa [device, herror, hfull] using tape_takeSome (portion_ne_nil hchunk hfull h)
  content_seek m position := by
    dsimp only [device]
    split
    · have hmoved := tape_moveTo (m.note (.seek position)) position
      rw [hmoved]
      rfl
    · rfl
  position_seek m position hok := by
    dsimp only [device] at hok ⊢
    split at hok
    · rfl
    · cases hok

theorem onTape_file : file.OnTape tape := onTape_device nofun (.inl rfl)

end Medium

end BootImage
