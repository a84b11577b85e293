import BootImage.Output.Trace
import BootImage.Output.Writer

/-!
# The way of an image into an output

An image comes to an output by calls in a fixed order: writes that offer what is left of it, until
nothing is; then one flush; then, where it is asked for, one sync. A call that fails is the last one.
How many bytes a write takes, and which call fails, is up to the output.

- `Stage`, `Asks`, `Step`: how far an image has come, the call that this leads to, and what becomes of
  it.
- `Reaches`: the stage that a trace leads to; `Reaches.means`: what the stage says about the trace.
- `Emitted`: the order of the calls, and the answer that is given for them; `Reaches.emitted`.
- `Reaches.after_putAll`, `Reaches.after_flush`, `Reaches.after_sync`: a device is asked in this order.
-/

namespace BootImage

/-! ## §1 Calls -/

/-- Whether a call offers bytes. -/
def DeviceCall.isWrite : DeviceCall → Bool
  | write _ _ => true
  | _ => false

/-- A write never takes bytes from further behind. -/
theorem DeviceCall.accepted_prefix (offered : Bytes) (answer : Except OutputFailure Nat) :
    (write offered answer).accepted <+: offered := by
  cases answer with
  | error failure => exact List.nil_prefix
  | ok taken => exact List.take_prefix taken offered

/-- A write that does not fail takes some of the bytes, and no more than it was offered. -/
theorem DeviceCall.failure?_write_succ {offered : Bytes} {taken : Nat}
    (h : taken + 1 ≤ offered.length) : (write offered (.ok (taken + 1))).failure? = none :=
  if_pos h

/-- A write that fails ends the offers. -/
theorem Device.putAll_of_failure? {σ : Type} {device : Device σ} {state next : σ} {b : UInt8}
    {rest : Bytes} {given : Except OutputFailure Nat} {failure : OutputFailure}
    (hwrite : device.write state (b :: rest) = (given, next))
    (hfailure : (DeviceCall.write (b :: rest) given).failure? = some failure) :
    device.putAll state (b :: rest) = (.error failure, next) := by
  rw [Device.putAll_cons, hwrite]
  cases given with
  | error cause =>
    cases hfailure
    rfl
  | ok taken =>
    cases taken with
    | zero =>
      cases hfailure
      rfl
    | succ taken =>
      -- The device claims more than it was offered, which is a fault of its own.
      have hmany : ¬ taken + 1 ≤ (b :: rest).length := fun hle =>
        absurd ((DeviceCall.failure?_write_succ hle).symm.trans hfailure) nofun
      cases (if_neg hmany).symm.trans hfailure
      exact if_neg fun hle => hmany (Nat.succ_le_succ hle)

theorem Trace.accepted_concat (before : Trace) (call : DeviceCall) :
    Trace.accepted (before ++ [call]) = Trace.accepted before ++ call.accepted := by
  simp only [Trace.accepted, List.flatMap_append, List.flatMap_singleton]

namespace Emission

/-! ## §2 Stages -/

/-- How far an image has come on its way into an output. -/
inductive Stage where
  /-- The rest of it is still to be taken. -/
  | writing (rest : Bytes)
  /-- All of it was taken and passed on. -/
  | flushed
  /-- It is in stable storage. -/
  | synced
  /-- A call failed. -/
  | stopped (action : String) (failure : OutputFailure)

/-- The calls that a stage leads to, however they are answered. -/
inductive Asks (sync : Bool) : Stage → DeviceCall → Prop
  /-- What is left is offered. -/
  | write {rest : Bytes} {answer : Except OutputFailure Nat} (h : rest ≠ []) :
      Asks sync (.writing rest) (.write rest answer)
  /-- Nothing is left. -/
  | flush {answer : Except OutputFailure Unit} : Asks sync (.writing []) (.flush answer)
  /-- The image is wanted in stable storage. -/
  | sync {answer : Except OutputFailure Unit} (h : sync = true) : Asks sync .flushed (.sync answer)

/-- The stages that calls lead to. -/
inductive Step (sync : Bool) : Stage → DeviceCall → Stage → Prop
  /-- Some bytes are taken. -/
  | taken {rest : Bytes} {taken : Nat} (h : taken + 1 ≤ rest.length) :
      Step sync (.writing rest) (.write rest (.ok (taken + 1))) (.writing (rest.drop (taken + 1)))
  /-- What was taken is passed on. -/
  | flushed : Step sync (.writing []) (.flush (.ok ())) .flushed
  /-- What was taken is brought to stable storage. -/
  | synced (h : sync = true) : Step sync .flushed (.sync (.ok ())) .synced
  /-- The call fails. -/
  | failed {stage : Stage} {call : DeviceCall} {failure : OutputFailure} (h : Asks sync stage call)
      (hfailure : call.failure? = some failure) : Step sync stage call (.stopped call.action failure)

/-- The stages that traces lead to. -/
inductive Reaches (image : Bytes) (sync : Bool) : Trace → Stage → Prop
  /-- All of the image is to be taken. -/
  | start : Reaches image sync [] (.writing image)
  /-- One more call. -/
  | step {trace : Trace} {stage next : Stage} {call : DeviceCall} (h : Reaches image sync trace stage)
      (hstep : Step sync stage call next) : Reaches image sync (trace ++ [call]) next

variable {image : Bytes} {sync : Bool} {trace before : Trace} {stage next : Stage} {call : DeviceCall}

/-- A step answers what its stage asks for. -/
theorem Step.asks (h : Step sync stage call next) : Asks sync stage call := by
  cases h with
  | taken h => exact .write (List.ne_nil_of_length_pos (Nat.lt_of_lt_of_le (Nat.succ_pos _) h))
  | flushed => exact .flush
  | synced h => exact .sync h
  | failed h _ => exact h

/-- A call that fails leads to a stop. -/
theorem Step.eq_stopped {failure : OutputFailure} (h : Step sync stage call next)
    (hfailure : call.failure? = some failure) : next = .stopped call.action failure := by
  cases h with
  | taken h => exact absurd ((DeviceCall.failure?_write_succ h).symm.trans hfailure) nofun
  | flushed => exact absurd hfailure nofun
  | synced _ => exact absurd hfailure nofun
  | failed _ hother =>
    cases hother.symm.trans hfailure
    rfl

/-- What a stage says about the calls that led to it. -/
def Stage.Means (image : Bytes) (sync : Bool) (trace : Trace) : Stage → Prop
  | writing rest => (∀ call ∈ trace, call.isWrite) ∧ trace.accepted ++ rest = image
  | flushed => ∃ writes : Trace, (∀ call ∈ writes, call.isWrite) ∧ writes.accepted = image ∧
      trace = writes ++ [.flush (.ok ())]
  | synced => sync = true ∧ ∃ writes : Trace, (∀ call ∈ writes, call.isWrite) ∧
      writes.accepted = image ∧ trace = writes ++ [.flush (.ok ()), .sync (.ok ())]
  | stopped _ _ => trace.accepted <+: image

/-- **At every stage** what was taken is a beginning of the image. -/
theorem Stage.Means.accepted_prefix (h : stage.Means image sync trace) : trace.accepted <+: image := by
  -- Flushing and syncing take no bytes.
  cases stage with
  | writing rest => exact ⟨rest, h.2⟩
  | flushed =>
    obtain ⟨writes, -, rfl, rfl⟩ := h
    exact ⟨[], by simp [Trace.accepted, DeviceCall.accepted]⟩
  | synced =>
    obtain ⟨-, writes, -, rfl, rfl⟩ := h
    exact ⟨[], by simp [Trace.accepted, DeviceCall.accepted]⟩
  | stopped action failure => exact h

/-- **One call** keeps to what the stages say. -/
theorem Stage.Means.step (h : stage.Means image sync trace) (hstep : Step sync stage call next) :
    next.Means image sync (trace ++ [call]) := by
  -- One case for each step: more is taken, or what was taken moves on, or it stays where it is.
  cases hstep with
  | taken hle =>
    obtain ⟨hwrites, haccepted⟩ := h
    refine ⟨?writes, ?accepted⟩
    case writes =>
      intro other hother
      rcases List.mem_append.1 hother with hother | hother
      · exact hwrites other hother
      · rw [List.mem_singleton.1 hother]
        rfl
    case accepted =>
      rw [Trace.accepted_concat, DeviceCall.accepted, List.append_assoc, List.take_append_drop]
      exact haccepted
  | flushed =>
    obtain ⟨hwrites, haccepted⟩ := h
    exact ⟨trace, hwrites, (List.append_nil _).symm.trans haccepted, rfl⟩
  | synced hsync =>
    obtain ⟨writes, hwrites, haccepted, rfl⟩ := h
    exact ⟨hsync, writes, hwrites, haccepted, by rw [List.append_assoc]; rfl⟩
  | failed hasks hfailure =>
    have hbefore := h.accepted_prefix
    rw [Stage.Means, Trace.accepted_concat]
    cases hasks with
    | write _ =>
      obtain ⟨-, rfl⟩ := h
      exact (List.prefix_append_right_inj _).2 (DeviceCall.accepted_prefix ..)
    -- Only writes take bytes.
    | flush => exact (List.append_nil _).symm ▸ hbefore
    | sync _ => exact (List.append_nil _).symm ▸ hbefore

namespace Reaches

/-- **All calls** keep to what the stages say. -/
theorem means (h : Reaches image sync trace stage) : stage.Means image sync trace := by
  induction h with
  | start => exact ⟨fun call hcall => absurd hcall List.not_mem_nil, rfl⟩
  | step _ hstep ih => exact ih.step hstep

/-- The last call of a trace was led to by the ones before it. -/
theorem of_concat (h : Reaches image sync (before ++ [call]) next) :
    ∃ stage, Reaches image sync before stage ∧ Step sync stage call next := by
  generalize htrace : before ++ [call] = trace at h
  cases h with
  | start => exact absurd htrace (by simp)
  | step h hstep =>
    obtain ⟨rfl, hcall⟩ := List.append_inj' htrace rfl
    cases hcall
    exact ⟨_, h, hstep⟩

/-- Every moment of a trace is at a stage. -/
theorem of_prefix (h : Reaches image sync trace stage) (hbefore : before <+: trace) :
    ∃ earlier, Reaches image sync before earlier := by
  -- By induction on the calls; a moment of a longer trace is its end, or one of the trace before.
  induction h with
  | start =>
    rw [List.prefix_nil.1 hbefore]
    exact ⟨_, .start⟩
  | step h hstep ih =>
    rcases List.prefix_concat_iff.1 hbefore with rfl | hearlier
    · exact ⟨_, h.step hstep⟩
    · exact ih hearlier

/-- Every call of a trace was led to by the ones before it. -/
theorem step_at (h : Reaches image sync trace stage) (hbefore : before ++ [call] <+: trace) :
    ∃ earlier next, Reaches image sync before earlier ∧ Step sync earlier call next ∧
      Reaches image sync (before ++ [call]) next := by
  obtain ⟨next, hnext⟩ := h.of_prefix hbefore
  obtain ⟨earlier, hearlier, hstep⟩ := hnext.of_concat
  exact ⟨earlier, next, hearlier, hstep, hnext⟩

/-- A call that fails is the last one. -/
theorem eq_of_failure? {failure : OutputFailure} (h : Reaches image sync trace stage)
    (hbefore : before ++ [call] <+: trace) (hfailure : call.failure? = some failure) :
    trace = before ++ [call] := by
  obtain ⟨after, rfl⟩ := hbefore
  cases after with
  | nil => exact List.append_nil _
  | cons other after =>
    -- A stop leads to no other call.
    have hboth : before ++ [call] ++ [other] <+: before ++ [call] ++ other :: after := ⟨after, by simp⟩
    obtain ⟨stopped, _, hstopped, hother, -⟩ := h.step_at hboth
    obtain ⟨_, -, hstep⟩ := hstopped.of_concat
    cases hstep.eq_stopped hfailure
    cases hother.asks

/-- A call that fails leads to the stage at which the image stays. -/
theorem eq_stopped {failure : OutputFailure} (h : Reaches image sync trace stage)
    (hcall : call ∈ trace) (hfailure : call.failure? = some failure) :
    stage = .stopped call.action failure := by
  obtain ⟨before, after, hsplit⟩ := List.append_of_mem hcall
  have hbefore : before ++ [call] <+: trace := ⟨after, by simp [hsplit]⟩
  rw [h.eq_of_failure? hbefore hfailure] at h
  obtain ⟨_, -, hstep⟩ := h.of_concat
  exact hstep.eq_stopped hfailure

/-- A stop has a call that led to it. -/
theorem exists_failure? {action : String} {failure : OutputFailure}
    (h : Reaches image sync trace (.stopped action failure)) :
    ∃ call ∈ trace, call.failure? = some failure := by
  cases h with
  | step _ hstep =>
    cases hstep with
    | failed _ hfailure => exact ⟨_, by simp, hfailure⟩

end Reaches

/-! ## §3 Answers -/

/-- The answers that are given at the stages at which an image stays, for an output with a name. -/
inductive Stage.Ends (sync : Bool) (name : String) : Stage → Result Unit → Prop
  /-- Stable storage is not asked for. -/
  | flushed (h : sync = false) : Ends sync name .flushed (.ok ())
  /-- Nothing is left to do. -/
  | synced : Ends sync name .synced (.ok ())
  /-- The failure is reported. -/
  | stopped {action : String} {failure : OutputFailure} :
      Ends sync name (.stopped action failure) (.error (Writer.named name action failure))

end Emission

open Emission

/-- **What an output is asked on behalf of an image**, and the answer that is given for it. The output
goes by a name. -/
structure Emitted (image : Bytes) (sync : Bool) (name : String) (trace : Trace)
    (answer : Result Unit) : Prop where
  /-- At every moment, what was taken is the beginning of the image. -/
  accepted : ∀ before, before <+: trace → Trace.accepted before <+: image
  /-- Only writes come before a write. It offers what is left of the image, if anything is left. -/
  writes : ∀ before offered given, before ++ [.write offered given] <+: trace →
    (∀ call ∈ before, call.isWrite) ∧ offered ≠ [] ∧ Trace.accepted before ++ offered = image
  /-- Only writes come before a flush, and by then all of the image was taken. -/
  flushes : ∀ before given, before ++ [.flush given] <+: trace →
    (∀ call ∈ before, call.isWrite) ∧ Trace.accepted before = image
  /-- A sync is asked for, and comes right behind a flush. -/
  syncs : ∀ before given, before ++ [.sync given] <+: trace →
    sync = true ∧ ∃ front : Trace, before = front ++ [.flush (.ok ())]
  /-- The output is never moved. -/
  stays : ∀ position given, .seek position given ∉ trace
  /-- A call that fails is the last one. -/
  stops : ∀ before call, before ++ [call] <+: trace → call.failure? ≠ none → trace = before ++ [call]
  /-- What the output reports is passed on as an error of the output, under its name. -/
  refuses : ∀ call ∈ trace, ∀ cause, call.failure? = some (.reported cause) →
    ∃ error, answer = refuse error ∧ error.kind = .resource ∧
      error.message = s!"cannot {call.action} `{name}`" ∧ error.source? = some cause
  /-- A broken precondition of the output is one of the whole. -/
  faults : ∀ call ∈ trace, ∀ cause, call.failure? = some (.fault cause) → answer = fault cause
  /-- The answer is a success exactly when no call failed. -/
  succeeds : answer = .ok () ↔ ∀ call ∈ trace, call.failure? = none
  /-- Then all of the image was written, flushed, and synced if that is asked for. -/
  completes : answer = .ok () → ∃ front : Trace, (∀ call ∈ front, call.isWrite) ∧
    Trace.accepted front = image ∧
    trace = front ++ .flush (.ok ()) :: if sync then [.sync (.ok ())] else []

namespace Emission

variable {σ : Type} {image : Bytes} {sync : Bool} {name : String} {trace : Trace} {stage : Stage}
  {answer : Result Unit}

/-- **The order of the calls**, and the answer, from the stage that they lead to. -/
theorem Reaches.emitted (h : Reaches image sync trace stage) (hends : stage.Ends sync name answer) :
    Emitted image sync name trace answer := by
  refine ⟨?accepted, ?writes, ?flushes, ?syncs, ?stays, ?stops, ?refuses, ?faults, ?succeeds,
    ?completes⟩
  case accepted =>
    intro before hbefore
    obtain ⟨_, hearlier⟩ := h.of_prefix hbefore
    exact hearlier.means.accepted_prefix
  case writes =>
    intro before offered given hbefore
    obtain ⟨_, _, hearlier, hstep, -⟩ := h.step_at hbefore
    cases hstep.asks with
    | write hrest => exact ⟨hearlier.means.1, hrest, hearlier.means.2⟩
  case flushes =>
    intro before given hbefore
    obtain ⟨_, _, hearlier, hstep, -⟩ := h.step_at hbefore
    cases hstep.asks with
    | flush => exact ⟨hearlier.means.1, (List.append_nil _).symm.trans hearlier.means.2⟩
  case syncs =>
    intro before given hbefore
    obtain ⟨_, _, hearlier, hstep, -⟩ := h.step_at hbefore
    cases hstep.asks with
    | sync hsync =>
      obtain ⟨front, -, -, hfront⟩ := hearlier.means
      exact ⟨hsync, front, hfront⟩
  -- No stage asks for a move.
  case stays =>
    intro position given hcall
    obtain ⟨before, after, rfl⟩ := List.append_of_mem hcall
    have hbefore : before ++ [.seek position given] <+: before ++ .seek position given :: after :=
      ⟨after, by simp⟩
    obtain ⟨_, _, -, hstep, -⟩ := h.step_at hbefore
    cases hstep.asks
  case stops =>
    intro before call hbefore hfailed
    obtain ⟨failure, hfailure⟩ := Option.ne_none_iff_exists'.1 hfailed
    exact h.eq_of_failure? hbefore hfailure
  case refuses =>
    intro call hcall cause hfailure
    cases h.eq_stopped hcall hfailure
    cases hends
    exact ⟨_, rfl, rfl, rfl, rfl⟩
  case faults =>
    intro call hcall cause hfailure
    cases h.eq_stopped hcall hfailure
    cases hends
    rfl
  case succeeds =>
    refine ⟨?_, ?_⟩
    · rintro rfl call hcall
      cases hfailure : call.failure? with
      | none => rfl
      | some failure =>
        -- A call that fails decides the answer.
        cases h.eq_stopped hcall hfailure
        cases hends
    · intro hnone
      cases hends with
      | flushed _ => rfl
      | synced => rfl
      | stopped =>
        obtain ⟨call, hcall, hfailure⟩ := h.exists_failure?
        exact absurd ((hnone call hcall).symm.trans hfailure) nofun
  case completes =>
    rintro rfl
    have hmeans := h.means
    cases hends with
    | flushed hsync =>
      obtain ⟨front, hwrites, haccepted, hfront⟩ := hmeans
      exact ⟨front, hwrites, haccepted, by rw [hfront, hsync]; rfl⟩
    | synced =>
      obtain ⟨hsync, front, hwrites, haccepted, hfront⟩ := hmeans
      exact ⟨front, hwrites, haccepted, by rw [hfront, hsync]; rfl⟩

/-! ## §4 Devices -/

/-- The stage behind a request, which is made with an action. -/
def Stage.behind (action : String) (onward : Stage) : Except OutputFailure Unit → Stage
  | .ok () => onward
  | .error failure => .stopped action failure

variable (device : Device σ) (state : σ)

/-- A write that fails is noted and ends the offers. -/
theorem Reaches.after_failed_write {next : σ} {b : UInt8} {rest : Bytes}
    {given : Except OutputFailure Nat} {failure : OutputFailure}
    (h : Reaches image sync trace (.writing (b :: rest)))
    (hwrite : device.write state (b :: rest) = (given, next))
    (hfailure : (DeviceCall.write (b :: rest) given).failure? = some failure) :
    ∃ after, device.traced.putAll (state, trace) (b :: rest) = (.error failure, next, after) ∧
      Reaches image sync after (.stopped "write to" failure) :=
  ⟨_, Device.putAll_of_failure? (Device.traced_write hwrite) hfailure,
    h.step (.failed (.write (List.cons_ne_nil b rest)) hfailure)⟩

/-- **Putting what is left** into a device goes on until all of it is taken, or a write fails. The
trace makes no difference to the device. -/
theorem Reaches.after_putAll {rest : Bytes} (h : Reaches image sync trace (.writing rest)) :
    ∃ after, device.traced.putAll (state, trace) rest =
        ((device.putAll state rest).1, (device.putAll state rest).2, after) ∧
      Reaches image sync after (.behind "write to" (.writing []) (device.putAll state rest).1) := by
  -- By induction on the offers: each is one step of the trace.
  fun_induction Device.putAll device state rest generalizing trace with
  | case1 state => exact ⟨trace, Device.putAll_nil .., h⟩
  | case2 state b rest failure next hwrite => exact h.after_failed_write device state hwrite rfl
  | case3 state b rest next hwrite => exact h.after_failed_write device state hwrite rfl
  | case4 state b rest taken next hwrite hle ih =>
    obtain ⟨after, hafter, hreaches⟩ := ih (h.step (.taken (Nat.succ_le_succ hle)))
    refine ⟨after, ?_, hreaches⟩
    rw [Device.putAll_cons, Device.traced_write hwrite]
    exact (if_pos hle).trans hafter
  | case5 state b rest taken next hwrite hle =>
    exact h.after_failed_write device state hwrite (if_neg fun h => hle (Nat.le_of_succ_le_succ h))

/-- **Flushing** a device that has taken all of the image. -/
theorem Reaches.after_flush (h : Reaches image sync trace (.writing [])) :
    ∃ after, device.traced.flush (state, trace) =
        ((device.flush state).1, (device.flush state).2, after) ∧
      Reaches image sync after (.behind "flush" .flushed (device.flush state).1) := by
  refine ⟨trace ++ [.flush (device.flush state).1], rfl, ?_⟩
  -- Whatever the device answers is one step of the trace.
  cases (device.flush state).1 with
  | ok done => exact h.step .flushed
  | error failure => exact h.step (.failed .flush rfl)

/-- **Bringing the image to stable storage**. -/
theorem Reaches.after_sync (h : Reaches image true trace .flushed) :
    ∃ after, device.traced.sync (state, trace) =
        ((device.sync state).1, (device.sync state).2, after) ∧
      Reaches image true after (.behind "sync" .synced (device.sync state).1) := by
  refine ⟨trace ++ [.sync (device.sync state).1], rfl, ?_⟩
  cases (device.sync state).1 with
  | ok done => exact h.step (.synced rfl)
  | error failure => exact h.step (.failed (.sync rfl) rfl)

end Emission

end BootImage
