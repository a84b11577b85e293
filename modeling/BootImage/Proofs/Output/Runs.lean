import BootImage.Proofs.Output.Tapes

/-!
# Runs of a writer

A writer is called again and again, with pieces for the position its output is at and pieces for an
offset, until a call fails. The reference is a tape that takes each piece as a whole.

- `Writer.Call`, `Writer.run`: calls, and what they come to one after the other.
- `Writer.Outcome`, `Writer.perform_outcome`: everything that one call can come to.
- `Writer.reference`: what calls leave of a tape.
- `Writer.view_run`, `Writer.exists_of_run_error`: calls that all succeed, and the call that fails.
- `Writer.run_onTape`: however an output splits pieces, calls leave what the reference does.
-/

namespace BootImage.Writer

variable {σ : Type}

/-! ## §1 Calls -/

/-- A call of a writer. -/
inductive Call where
  /-- Bytes for the position that the output is at. -/
  | write (bytes : Bytes)
  /-- Bytes for an offset from the start. -/
  | writeAt (bytes : Bytes) (offset : Nat)
  deriving DecidableEq, Repr

namespace Call

/-- The bytes of a call. -/
def bytes : Call → Bytes
  | write bytes => bytes
  | writeAt bytes _ => bytes

/-- Where the bytes of a call come to stand on a tape. -/
def place (tape : Tape) : Call → Nat
  | write _ => tape.position
  | writeAt _ offset => offset

/-- The tape with the bytes of a call, put there as a whole. -/
def on (fills : Bool) (tape : Tape) (call : Call) : Tape :=
  Tape.put fills ⟨tape.content, call.place tape⟩ call.bytes

/-- The count of bytes behind a call. -/
def count (written : Nat) : Call → Nat
  | write bytes => written + bytes.length
  | writeAt bytes offset => max written (offset + bytes.length)

/-- The sum that has to be a size for the call to be counted. -/
def sum (written : Nat) : Call → Nat
  | write bytes => written + bytes.length
  | writeAt bytes offset => offset + bytes.length

/-- Moving to where the bytes of a call go. -/
def move (out : Output σ) (state : σ) : Call → Except OutputFailure Unit × σ
  | write _ => (.ok (), state)
  | writeAt _ offset => out.seek state offset

end Call

/-- One call. -/
def perform (out : Output σ) (w : Writer σ) : Call → Result Unit × Writer σ
  | .write bytes => w.write out bytes
  | .writeAt bytes offset => w.writeAt out bytes offset

/-- Calls one after the other, up to the first that fails. -/
def run (out : Output σ) (w : Writer σ) : List Call → Result Unit × Writer σ
  | [] => (.ok (), w)
  | call :: rest =>
    match w.perform out call with
    | (.error failure, next) => (.error failure, next)
    | (.ok (), next) => next.run out rest

/-- What calls leave of a tape that takes each piece as a whole. -/
def reference (fills : Bool) (tape : Tape) (calls : List Call) : Tape :=
  calls.foldl (Call.on fills) tape

/-- Whether the counts of bytes behind some calls are sizes. -/
def Counted (written : Nat) : List Call → Prop
  | [] => True
  | call :: rest => call.sum written < Size.bound ∧ Counted (call.count written) rest

instance Counted.decidable (written : Nat) : (calls : List Call) → Decidable (Counted written calls)
  | [] => .isTrue trivial
  | call :: rest =>
    have := Counted.decidable (call.count written) rest
    inferInstanceAs (Decidable (call.sum written < Size.bound ∧ Counted (call.count written) rest))

/-! ## §2 What a call can come to -/

/-- Everything that a call can come to. -/
inductive Outcome (out : Output σ) (w : Writer σ) (call : Call) : Result Unit → Writer σ → Prop
  /-- The output does not move. -/
  | unmoved {failure : OutputFailure} {state : σ}
      (hmove : call.move out w.state = (.error failure, state)) :
      Outcome out w call (.error (named w.name "seek in" failure)) { w with state := state }
  /-- The output does not take the bytes. -/
  | unput {failure : OutputFailure} {moved state : σ}
      (hmove : call.move out w.state = (.ok (), moved))
      (hput : out.put moved call.bytes = (.error failure, state)) :
      Outcome out w call (.error (named w.name "write to" failure)) { w with state := state }
  /-- The bytes are taken but cannot be counted. -/
  | uncounted {moved state : σ} (hmove : call.move out w.state = (.ok (), moved))
      (hput : out.put moved call.bytes = (.ok (), state))
      (hsum : ¬ call.sum w.written < Size.bound) :
      Outcome out w call (fault .overflow) { w with state := state }
  /-- The bytes are taken and counted. -/
  | done {moved state : σ} (hmove : call.move out w.state = (.ok (), moved))
      (hput : out.put moved call.bytes = (.ok (), state)) (hsum : call.sum w.written < Size.bound) :
      Outcome out w call (.ok ()) { w with state := state, written := call.count w.written }

variable {out : Output σ} {w next final : Writer σ} {call : Call} {calls : List Call}

/-- Bytes for the position need no move. -/
theorem write_outcome (bytes : Bytes) :
    Outcome out w (.write bytes) (w.write out bytes).1 (w.write out bytes).2 := by
  cases hput : out.put w.state bytes with
  | mk answer state =>
    cases answer with
    | error failure =>
      simp only [write, hput]
      exact .unput rfl hput
    | ok done =>
      by_cases hsum : w.written + bytes.length < Size.bound
      · simp only [write, hput, Size.add, if_pos hsum]
        exact .done rfl hput hsum
      · simp only [write, hput, Size.add, if_neg hsum]
        exact .uncounted rfl hput hsum

/-- Bytes for an offset move the output first. -/
theorem writeAt_outcome (bytes : Bytes) (offset : Nat) :
    Outcome out w (.writeAt bytes offset) (w.writeAt out bytes offset).1
      (w.writeAt out bytes offset).2 := by
  cases hmove : out.seek w.state offset with
  | mk answer moved =>
    cases answer with
    | error failure =>
      simp only [writeAt, hmove]
      exact .unmoved hmove
    | ok done =>
      -- The output is where it was asked to be, and what follows is as with bytes for the position.
      cases hput : out.put moved bytes with
      | mk answer state =>
        cases answer with
        | error failure =>
          simp only [writeAt, hmove, hput]
          exact .unput hmove hput
        | ok done =>
          by_cases hsum : offset + bytes.length < Size.bound
          · simp only [writeAt, hmove, hput, Size.add, if_pos hsum]
            exact .done hmove hput hsum
          · simp only [writeAt, hmove, hput, Size.add, if_neg hsum]
            exact .uncounted hmove hput hsum

/-- **Everything that a call can come to** is one of the four outcomes. -/
theorem perform_outcome (out : Output σ) (w : Writer σ) (call : Call) :
    Outcome out w call (w.perform out call).1 (w.perform out call).2 := by
  cases call with
  | write bytes => exact write_outcome bytes
  | writeAt bytes offset => exact writeAt_outcome bytes offset

/-- The same for a call whose answer is known. -/
theorem outcome_of_perform {answer : Result Unit} (h : w.perform out call = (answer, next)) :
    Outcome out w call answer next := by
  have houtcome := perform_outcome out w call
  rwa [h] at houtcome

/-! ## §3 Runs -/

theorem run_cons_of_ok {rest : List Call} (h : w.perform out call = (.ok (), next)) :
    w.run out (call :: rest) = next.run out rest := by
  simp only [run, h]

theorem run_cons_of_error {rest : List Call} {failure : Failure}
    (h : w.perform out call = (.error failure, next)) :
    w.run out (call :: rest) = (.error failure, next) := by
  simp only [run, h]

/-- A run whose calls all succeed starts with a call that does. -/
theorem exists_of_run_cons {rest : List Call} (h : w.run out (call :: rest) = (.ok (), final)) :
    ∃ next, w.perform out call = (.ok (), next) ∧ next.run out rest = (.ok (), final) := by
  cases hperform : w.perform out call with
  | mk answer next =>
    cases answer with
    | error failure =>
      rw [run_cons_of_error hperform] at h
      cases h
    | ok done => exact ⟨next, rfl, (run_cons_of_ok hperform).symm.trans h⟩

/-- **The call that fails**: all before it succeed, and none is made behind it. -/
theorem exists_of_run_error {failure : Failure} (h : w.run out calls = (.error failure, final)) :
    ∃ before call after mid, calls = before ++ call :: after ∧
      w.run out before = (.ok (), mid) ∧ mid.perform out call = (.error failure, final) := by
  -- By induction on the calls: the first one fails, or the run goes on and one of the others does.
  induction calls generalizing w with
  | nil => cases h
  | cons call rest ih =>
    cases hperform : w.perform out call with
    | mk answer next =>
      cases answer with
      | error cause =>
        rw [run_cons_of_error hperform] at h
        cases h
        exact ⟨[], call, rest, w, rfl, rfl, hperform⟩
      | ok done =>
        rw [run_cons_of_ok hperform] at h
        obtain ⟨before, failing, after, mid, rfl, hbefore, hfailing⟩ := ih h
        exact ⟨call :: before, failing, after, mid, rfl, (run_cons_of_ok hperform).trans hbefore,
          hfailing⟩

section Follows

variable {view : σ → Tape} {fills : Bool}

/-- Moving leads to the place of the call. -/
theorem view_move (h : out.Follows view fills) {state moved : σ}
    (hmove : call.move out state = (.ok (), moved)) :
    view moved = ⟨(view state).content, call.place (view state)⟩ := by
  cases call with
  | write bytes =>
    cases hmove
    rfl
  | writeAt bytes offset =>
    have hseek : out.seek state offset = (.ok (), moved) := hmove
    have hview := h.seek state offset (congrArg Prod.fst hseek)
    rwa [hseek] at hview

/-- **One call** that succeeds puts its bytes as a whole. -/
theorem view_perform (h : out.Follows view fills) (hok : w.perform out call = (.ok (), next)) :
    view next.state = call.on fills (view w.state) := by
  cases outcome_of_perform hok with
  | done hmove hput hsum =>
    have hview := h.put _ call.bytes (congrArg Prod.fst hput)
    rwa [hput, view_move h hmove] at hview

/-- **All calls** of a run that succeed put their bytes as a whole. -/
theorem view_run (h : out.Follows view fills) (hok : w.run out calls = (.ok (), final)) :
    view final.state = reference fills (view w.state) calls := by
  -- By induction on the calls, from the tape that each one leaves.
  induction calls generalizing w with
  | nil =>
    cases hok
    rfl
  | cons call rest ih =>
    obtain ⟨next, hnext, hrest⟩ := exists_of_run_cons hok
    rw [ih hrest, view_perform h hnext]
    rfl

end Follows

theorem written_perform (hok : w.perform out call = (.ok (), next)) :
    next.written = call.count w.written := by
  cases outcome_of_perform hok
  rfl

/-! ## §4 Outputs that split pieces -/

section OnTape

variable {device : Device σ} {view : σ → Tape}

/-- A reliable device moves for every call. -/
theorem exists_move_eq_ok (h : device.Reliable) (state : σ) (call : Call) :
    ∃ moved, call.move device.output state = (.ok (), moved) := by
  cases call with
  | write bytes => exact ⟨state, rfl⟩
  | writeAt bytes offset => exact ⟨_, Prod.ext (h.seek state offset) rfl⟩

/-- One call succeeds on an output that does not fail, if its bytes can be counted. -/
theorem perform_eq_ok_iff (h : device.Reliable) (w : Writer σ) (call : Call) :
    (w.perform device.output call).1 = .ok () ↔ call.sum w.written < Size.bound := by
  generalize hnext : w.perform device.output call = performed
  obtain ⟨answer, next⟩ := performed
  -- Of the four outcomes a reliable device has the last two.
  cases outcome_of_perform hnext with
  | unmoved hmove =>
    obtain ⟨moved, hmoved⟩ := exists_move_eq_ok h w.state call
    rw [hmoved] at hmove
    cases hmove
  | unput _ hput =>
    have hfailed := congrArg Prod.fst hput
    rw [show (device.output.put _ call.bytes).1 = .ok () from h.putAll _ call.bytes] at hfailed
    cases hfailed
  | uncounted _ _ hsum => exact ⟨nofun, fun hfits => absurd hfits hsum⟩
  | done _ _ hsum => exact ⟨fun _ => hsum, fun _ => rfl⟩

/-- **All calls** succeed on an output that does not fail, if their bytes can be counted. -/
theorem run_eq_ok_iff (h : device.Reliable) (w : Writer σ) (calls : List Call) :
    (w.run device.output calls).1 = .ok () ↔ Counted w.written calls := by
  induction calls generalizing w with
  | nil => exact ⟨fun _ => trivial, fun _ => rfl⟩
  | cons call rest ih =>
    have hfirst := perform_eq_ok_iff h w call
    rw [Counted]
    -- The first call is made or not, and the others are asked about from the count it leaves.
    cases hperform : w.perform device.output call with
    | mk answer next =>
      rw [hperform] at hfirst
      cases answer with
      | error failure =>
        rw [run_cons_of_error hperform]
        exact ⟨nofun, fun hcounted => absurd (hfirst.2 hcounted.1) nofun⟩
      | ok done =>
        rw [run_cons_of_ok hperform, ih next, written_perform hperform]
        exact (and_iff_right (hfirst.1 rfl)).symm

/-- Moving changes no content, also where it fails. -/
theorem content_move (h : device.OnTape view) {state moved : σ} {answer : Except OutputFailure Unit}
    (hmove : call.move device.output state = (answer, moved)) :
    (view moved).content = (view state).content := by
  cases call with
  | write bytes =>
    cases hmove
    rfl
  | writeAt bytes offset =>
    have hcontent := h.content_seek state offset
    rwa [show device.seek state offset = (answer, moved) from hmove] at hcontent

/-- However the bytes of a call are answered, a beginning of them stands over the content. -/
theorem content_put (h : device.OnTape view) {state moved left : σ} {answer : Except OutputFailure Unit}
    (hmove : call.move device.output state = (.ok (), moved))
    (hput : device.output.put moved call.bytes = (answer, left)) :
    ∃ taken, taken <+: call.bytes ∧
      (view left).content = Tape.cover (view state).content (call.place (view state)) taken := by
  obtain ⟨taken, hprefix, hview, -⟩ := h.putAll moved call.bytes
  rw [show device.putAll moved call.bytes = _ from hput, view_move h.follows hmove] at hview
  exact ⟨taken, hprefix, congrArg Tape.content hview⟩

/-- **The call that fails** leaves a beginning of its bytes over the content, and is not counted. -/
theorem content_perform_of_error (h : device.OnTape view) {failure : Failure}
    (hfailed : w.perform device.output call = (.error failure, next)) :
    next.written = w.written ∧ ∃ taken, taken <+: call.bytes ∧ (view next.state).content =
      Tape.cover (view w.state).content (call.place (view w.state)) taken := by
  -- One case for each way to fail; only a call that was moved for can have put some bytes.
  cases outcome_of_perform hfailed with
  | unmoved hmove => exact ⟨rfl, [], List.nil_prefix, content_move h hmove⟩
  | unput hmove hput => exact ⟨rfl, content_put h hmove hput⟩
  | uncounted hmove hput hsum => exact ⟨rfl, content_put h hmove hput⟩

/-- A buffer reports no error. -/
theorem run_buffer_ne_refused (m : Writer Medium) (calls : List Call) (cause : Error) :
    (m.run Medium.buffer calls).1 ≠ .error (.refused cause) := by
  cases hrun : m.run Medium.buffer calls with
  | mk answer final =>
    rintro rfl
    obtain ⟨before, call, after, mid, -, -, hcall⟩ := exists_of_run_error hrun
    generalize hanswer : (Except.error (Failure.refused cause) : Result Unit) = answer at hcall
    -- Of the ways to fail, none is a refusal here.
    cases outcome_of_perform hcall with
    | unmoved hmove => cases call <;> cases hmove
    | @unput failure moved state _ hput =>
      -- Only memory can fail to hold so much.
      rcases Medium.fill_cases moved call.bytes with hfill | ⟨fault, hfill⟩
      · cases hfill.symm.trans hput
      · cases hfill.symm.trans hput
        cases hanswer
    | uncounted => cases hanswer
    | done => cases hanswer

/-- **Calls on an output that splits pieces** leave what they leave of a tape that takes each piece as a
whole, however many bytes of an offer the output takes. On an output that does not fail they succeed
as long as their bytes can be counted. The call that fails on any other output leaves a beginning of its
bytes over what the calls before it left, and the count they left.

A buffer takes each piece at once and reports no error. It fills the gap in front of an empty piece. -/
theorem run_onTape (h : device.OnTape view) (w : Writer σ) (m : Writer Medium) (calls : List Call) :
    (device.Reliable → ((w.run device.output calls).1 = .ok () ↔ Counted w.written calls)) ∧
    (∀ final, w.run device.output calls = (.ok (), final) →
      view final.state = reference false (view w.state) calls) ∧
    (∀ failure final, w.run device.output calls = (.error failure, final) →
      ∃ before call after mid taken, calls = before ++ call :: after ∧
        w.run device.output before = (.ok (), mid) ∧ final.written = mid.written ∧
        taken <+: call.bytes ∧ (view final.state).content =
          Tape.cover (reference false (view w.state) before).content
            (call.place (reference false (view w.state) before)) taken) ∧
    (∀ final, m.run Medium.buffer calls = (.ok (), final) →
      final.state.tape = reference true m.state.tape calls) ∧
    ∀ cause, (m.run Medium.buffer calls).1 ≠ .error (.refused cause) := by
  refine ⟨fun hreliable => run_eq_ok_iff hreliable w calls, fun final => view_run h.follows,
    fun failure final hfailed => ?_, fun final => view_run Medium.follows_buffer,
    run_buffer_ne_refused m calls⟩
  -- The calls before the one that fails leave what they leave of the reference.
  obtain ⟨before, call, after, mid, hcalls, hbefore, hcall⟩ := exists_of_run_error hfailed
  obtain ⟨hwritten, taken, htaken, hcontent⟩ := content_perform_of_error h hcall
  rw [view_run h.follows hbefore] at hcontent
  exact ⟨before, call, after, mid, taken, hcalls, hbefore, hwritten, htaken, hcontent⟩

/-- The calls on a tape that takes two bytes at once, and on a medium that is full after three. -/
theorem run_onTape_parted :
    (∃ final, (⟨⟨[], 0⟩, "image", false, 0⟩ : Writer Tape).run (Tape.device 1).output
        [.write [1, 2, 3], .writeAt [4] 5] = (.ok (), final) ∧
      final.state = ⟨[1, 2, 3, 0, 0, 4], 6⟩) ∧
    let full := (⟨Medium.holding [], "image", false, 0⟩ : Writer Medium).run
      (Medium.device { room := some 3, writeError := some "full" }).output [.write [1, 2], .write [3, 4]]
    full.1 ≠ .ok () ∧ full.2.written = 2 ∧ full.2.state.content = [1, 2, 3] := by
  refine ⟨?parted, ?full⟩
  case parted =>
    let w : Writer Tape := ⟨⟨[], 0⟩, "image", false, 0⟩
    let m : Writer Medium := ⟨Medium.holding [], "image", false, 0⟩
    obtain ⟨hok, hview, -⟩ :=
      run_onTape (Tape.onTape_device 1) w m [.write [1, 2, 3], .writeAt [4] 5]
    have hdone := (hok (Tape.reliable_device 1)).2 (by decide)
    exact ⟨_, Prod.ext hdone rfl, (hview _ (Prod.ext hdone rfl)).trans rfl⟩
  case full =>
    simp [run, perform, write, Device.output, Device.putAll_cons, Medium.device, Medium.isFull,
      Medium.takeSome, Medium.portion, Medium.fill, MediumLimits.inReach, Medium.holding, Medium.put,
      Medium.content, Size.bufferBound, Size.add, Size.bound, Bytes.zeros]

/-- **A buffer fills the gap in front of an empty piece**: it comes to hold five zeros, where the
reference stays empty. -/
theorem run_buffer_ne_reference :
    ((⟨Medium.holding [], "image", false, 0⟩ : Writer Medium).run Medium.buffer
        [.writeAt [] 5]).1 = .ok () ∧
      ((⟨Medium.holding [], "image", false, 0⟩ : Writer Medium).run Medium.buffer
        [.writeAt [] 5]).2.state.tape = ⟨Bytes.zeros 5, 5⟩ ∧
      reference false ⟨[], 0⟩ [.writeAt [] 5] = ⟨[], 5⟩ :=
  ⟨rfl, rfl, rfl⟩

end OnTape

end BootImage.Writer
