import BootImage.Output.Device
import BootImage.Output.Tape
import BootImage.Size

/-!
# Media

Bytes in memory with a position, as files and buffers have them: bytes go over what is there, a gap
in front of them is filled with zeros, and moving alone changes nothing. A medium can be given
limits: on the bytes it takes at once and in all, on how far it moves, and errors that its
operations fail with. It remembers what it was asked.

The content is kept in two halves around the position, so that writing costs no more than what is
written.

- `Medium.tape`: the tape that a medium stands for.
- `tape_moveTo`, `tape_put`: moving and taking bytes, as the tape sees them.
- `device`, `file`, `buffer`: media with limits, files on disk, and buffers that grow.
-/

namespace BootImage

/-- What a medium was asked, apart from taking bytes. -/
inductive MediumEvent where
  /-- To move to a position. -/
  | seek (position : Nat)
  /-- To flush. -/
  | flush
  /-- To bring its content to stable storage. -/
  | sync
  deriving DecidableEq, Repr

/-- The limits of a medium. -/
structure MediumLimits where
  /-- The most bytes it takes at once. -/
  chunk : Option Nat := none
  /-- The most bytes it takes in all. -/
  room : Option Nat := none
  /-- The error of taking bytes when there is no room left; without one, none are taken. -/
  writeError : Option String := none
  /-- The error of flushing. -/
  flushError : Option String := none
  /-- The error of moving. -/
  seekError : Option String := none
  /-- The positions that it can move to, or come to by taking bytes, lie below. -/
  reach : Option Nat := none
  /-- The error of bringing the content to stable storage. -/
  syncError : Option String := none
  deriving DecidableEq, Repr

/-- Whether a position lies within the limits. -/
def MediumLimits.inReach (limits : MediumLimits) (position : Nat) : Bool :=
  limits.reach.all (position < ·)

/-- The state of a medium. -/
structure Medium where
  /-- The content in front of the position, last byte first. -/
  before : Bytes := []
  /-- The content behind the position. -/
  after : Bytes := []
  /-- How far the position lies behind the end of the content. -/
  gap : Nat := 0
  /-- The position. -/
  position : Nat := 0
  /-- The position is where the content in front of it and the gap end. -/
  position_eq : position = before.length + gap := by simp
  /-- Nothing follows a position behind the end. -/
  gap_or_after : gap = 0 ∨ after = [] := by simp
  /-- The number of bytes taken so far. -/
  taken : Nat := 0
  /-- What it was asked, latest first. -/
  events : List MediumEvent := []
  deriving DecidableEq, Repr

namespace Medium

/-! ## §1 Content and position -/

/-- The medium with some content, at its start. -/
def holding (content : Bytes) : Medium := { after := content }

/-- What the medium holds. -/
def content (m : Medium) : Bytes := m.before.reverse ++ m.after

/-- The tape that a medium stands for. -/
def tape (m : Medium) : Tape := ⟨m.content, m.position⟩

/-- The medium at a position. -/
def moveTo (m : Medium) (position : Nat) : Medium where
  before := (m.content.take position).reverse
  after := m.content.drop position
  gap := position - m.content.length
  position := position
  position_eq := by
    simp only [List.length_reverse, List.length_take]
    omega
  gap_or_after := by
    rw [List.drop_eq_nil_iff]
    omega
  taken := m.taken
  events := m.events

/-- The medium with bytes put over what is at its position, and moved behind them. -/
def put (m : Medium) (bytes : Bytes) : Medium where
  before := bytes.reverse ++ (Bytes.zeros m.gap ++ m.before)
  after := m.after.drop bytes.length
  position := m.position + bytes.length
  position_eq := by
    simp only [List.length_append, List.length_reverse, Bytes.length_zeros, m.position_eq]
    omega
  taken := m.taken + bytes.length
  events := m.events

theorem tape_holding (content : Bytes) : (holding content).tape = ⟨content, 0⟩ := rfl

/-- Moving the position of a medium leaves its content alone. -/
theorem tape_moveTo (m : Medium) (position : Nat) :
    (m.moveTo position).tape = ⟨m.tape.content, position⟩ := by
  have hcontent : (m.moveTo position).content = m.content := by simp [moveTo, content]
  simp only [tape, hcontent]
  rfl

/-- What a medium holds behind taking bytes, also if there are none. -/
theorem content_put (m : Medium) (bytes : Bytes) :
    (m.put bytes).content =
      Bytes.overlay (m.content ++ Bytes.zeros (m.position - m.content.length)) m.position bytes := by
  -- A medium with a gap in front of its position has nothing behind it.
  have hgap : m.position - m.content.length = m.gap := by
    obtain hzero | hnil := m.gap_or_after
    · simp [m.position_eq, content, hzero]
    · simp [m.position_eq, content, hnil]
  have hfilled : m.content ++ Bytes.zeros m.gap =
      (m.before.reverse ++ Bytes.zeros m.gap) ++ m.after := by
    obtain hzero | hnil := m.gap_or_after
    · simp [content, hzero, Bytes.zeros]
    · simp [content, hnil]
  have hposition : m.position = (m.before.reverse ++ Bytes.zeros m.gap).length := by
    simp [m.position_eq]
  rw [hgap, hfilled, hposition, Bytes.overlay_append]
  simp [put, content, Bytes.zeros]

/-- Taking some bytes is writing them to the tape. -/
theorem tape_put (m : Medium) {bytes : Bytes} (h : bytes ≠ []) :
    (m.put bytes).tape = m.tape.write bytes := by
  have hcover : (m.put bytes).content = Tape.cover m.content m.position bytes := by
    simp only [content_put, Tape.cover, List.isEmpty_iff, if_neg h]
  simp only [tape, Tape.write, hcover]
  rfl

/-- The medium with one more event. -/
def note (m : Medium) (event : MediumEvent) : Medium := { m with events := event :: m.events }

/-! ## §2 Media as devices -/

/-- The medium with bytes put at its position, where memory can hold so much. A gap in front of the
position is filled even if there are no bytes. -/
def fill (m : Medium) (bytes : Bytes) : Except OutputFailure Unit × Medium :=
  let size := m.position + bytes.length
  if size < Size.bufferBound then (.ok (), m.put bytes)
  else (.error (.fault (.unallocatable size)), m)

/-- The outcome of an operation that may have an error to fail with. -/
def outcome (error : Option String) : Except OutputFailure Unit :=
  match error with
  | none => .ok ()
  | some text => .error (.reported (.other text))

/-- The outcome of moving to a position. -/
def moveOutcome (limits : MediumLimits) (position : Nat) : Except OutputFailure Unit :=
  if limits.inReach position then outcome limits.seekError
  else .error (.reported .invalidArgument)

/-- The part of some bytes that a medium takes at once: as much as its chunk and its room allow. -/
def portion (limits : MediumLimits) (m : Medium) (bytes : Bytes) : Bytes :=
  let bytes := match limits.chunk with
    | none => bytes
    | some chunk => bytes.take chunk
  match limits.room with
  | none => bytes
  | some room => bytes.take (room - m.taken)

/-- Whether a medium has room for no more bytes. -/
def isFull (limits : MediumLimits) (m : Medium) : Bool :=
  limits.room.any (· ≤ m.taken)

/-- The outcome of offering bytes: how many of them are taken. -/
def takeSome (limits : MediumLimits) (m : Medium) (bytes : Bytes) :
    Except OutputFailure Nat × Medium :=
  let bytes := portion limits m bytes
  let count := bytes.length
  if limits.inReach (m.position + count) then
    match m.fill bytes with
    | (.ok (), next) => (.ok count, next)
    | (.error failure, next) => (.error failure, next)
  else (.error (.reported .invalidArgument), m)

/-- Media with limits. -/
def device (limits : MediumLimits) : Device Medium where
  write m bytes :=
    match limits.writeError with
    | none => takeSome limits m bytes
    | some text =>
      if isFull limits m then (.error (.reported (.other text)), m) else takeSome limits m bytes
  seek m position :=
    let m := m.note (.seek position)
    match moveOutcome limits position with
    | .ok () => (.ok (), m.moveTo position)
    | .error failure => (.error failure, m)
  flush m := (outcome limits.flushError, m.note .flush)
  sync m := (outcome limits.syncError, m.note .sync)

/-! ## §3 Files and buffers -/

/-- A file on disk. Its positions are signed 64-bit numbers. -/
def file : Device Medium := device { reach := some Size.bufferBound }

/-- A buffer in memory that grows as it is written. It takes every piece whole, and with an empty
one too it comes to reach up to its position. -/
def buffer : Output Medium where
  put := fill
  seek m position := (.ok (), m.moveTo position)
  flush m := (.ok (), m)
  sync m := (.ok (), m)

end Medium

end BootImage
