import BootImage.Proofs.Output.Runs

/-!
# The count of bytes written

A writer counts its bytes in two ways. Bytes for the position of the output are added to the count, and
bytes for an offset raise it to where they end. The count never falls short of the length of the output.
It is the length as long as every call extends the output: bytes for the position find it at the end,
and no empty piece stays behind the end.

- `Writer.Throughout`: what holds after every call of a run.
- `Writer.Call.Extends`, `Writer.Extending`: calls that keep the count to the length.
- `Writer.length_le_written`, `Writer.written_eq_length_iff`: the count and the length.
-/

namespace BootImage.Writer

variable {σ : Type} {out : Output σ} {w next final : Writer σ} {call : Call} {calls rest : List Call}

/-! ## §1 Moments of a run -/

/-- Whether something holds of a writer before the first call and after every call that succeeds. -/
def Throughout (out : Output σ) (holds : Writer σ → Prop) (w : Writer σ) (calls : List Call) : Prop :=
  ∀ before mid, before <+: calls → w.run out before = (.ok (), mid) → holds mid

variable {holds : Writer σ → Prop}

theorem throughout_nil : Throughout out holds w [] ↔ holds w := by
  constructor
  · intro h
    exact h [] w List.nil_prefix rfl
  · intro h before mid hbefore hmid
    cases List.prefix_nil.1 hbefore
    cases hmid
    exact h

/-- Behind a call that succeeds there are the start and the moments of the rest. -/
theorem throughout_cons (hperform : w.perform out call = (.ok (), next)) :
    Throughout out holds w (call :: rest) ↔ holds w ∧ Throughout out holds next rest := by
  constructor
  · intro h
    refine ⟨h [] w List.nil_prefix rfl, fun before mid hbefore hmid => ?_⟩
    apply h (call :: before) mid ((List.prefix_cons_inj call).2 hbefore)
    rw [run_cons_of_ok hperform, hmid]
  · rintro ⟨hstart, hrest⟩ before mid hbefore hmid
    cases before with
    | nil =>
      cases hmid
      exact hstart
    | cons first before =>
      obtain ⟨rfl, hprefix⟩ := List.cons_prefix_cons.1 hbefore
      rw [run_cons_of_ok hperform] at hmid
      exact hrest before mid hprefix hmid

/-- What a call that succeeds keeps up holds all along a run. -/
theorem throughout_of_perform (hstart : holds w)
    (hstep : ∀ earlier call next, holds earlier → earlier.perform out call = (.ok (), next) → holds next) :
    Throughout out holds w calls := by
  rintro before mid - hmid
  -- By induction on the calls made so far, for every writer that they start from.
  induction before generalizing w with
  | nil =>
    cases hmid
    exact hstart
  | cons call before ih =>
    obtain ⟨next, hnext, hrest⟩ := exists_of_run_cons hmid
    exact ih (hstep w call next hstart hnext) hrest

/-! ## §2 The count and the length -/

/-- Whether a call extends a tape: bytes for its position find it at the end, and what is put at an
offset leaves the tape reaching at least to the offset. -/
def Call.Extends (fills : Bool) (tape : Tape) : Call → Prop
  | .write bytes => bytes = [] ∨ tape.position = tape.content.length
  | .writeAt bytes offset => offset ≤ (Tape.put fills ⟨tape.content, offset⟩ bytes).content.length

/-- Whether each of some calls extends what the calls before it leave. -/
def Extending (fills : Bool) (tape : Tape) : List Call → Prop
  | [] => True
  | call :: rest => call.Extends fills tape ∧ Extending fills (call.on fills tape) rest

instance Call.Extends.decidable (fills : Bool) (tape : Tape) :
    (call : Call) → Decidable (call.Extends fills tape)
  | .write bytes => inferInstanceAs (Decidable (bytes = [] ∨ tape.position = tape.content.length))
  | .writeAt bytes offset =>
    inferInstanceAs (Decidable (offset ≤ (Tape.put fills ⟨tape.content, offset⟩ bytes).content.length))

instance Extending.decidable (fills : Bool) (tape : Tape) :
    (calls : List Call) → Decidable (Extending fills tape calls)
  | [] => .isTrue trivial
  | call :: rest =>
    have := Extending.decidable fills (call.on fills tape) rest
    inferInstanceAs (Decidable (call.Extends fills tape ∧ Extending fills (call.on fills tape) rest))

variable {view : σ → Tape} {fills : Bool} {tape : Tape}

/-- **One call** on a tape that the count keeps up with. -/
theorem length_on_le {written : Nat} (hlength : tape.content.length ≤ written)
    (hposition : tape.position ≤ written) (fills : Bool) (call : Call) :
    (call.on fills tape).content.length ≤ call.count written ∧
      (call.on fills tape).position ≤ call.count written := by
  -- Bytes at the position raise both by as much at most; bytes at an offset raise the length to the
  -- count.
  cases call with
  | write bytes =>
    simp only [Call.on, Call.bytes, Call.place, Call.count, Tape.length_put, Tape.position_put]
    split <;> omega
  | writeAt bytes offset =>
    simp only [Call.on, Call.bytes, Call.place, Call.count, Tape.length_put, Tape.position_put]
    split <;> omega

/-- **One call** on a tape whose length is the count, and which is not behind its end. -/
theorem count_eq_length_on_iff (hposition : tape.position ≤ tape.content.length) :
    call.count tape.content.length = (call.on fills tape).content.length ↔ call.Extends fills tape := by
  cases call with
  | write bytes =>
    have hnil : bytes = [] ↔ bytes.length = 0 := List.length_eq_zero_iff.symm
    simp only [Call.on, Call.bytes, Call.place, Call.count, Call.Extends, Tape.length_put, hnil]
    split <;> omega
  | writeAt bytes offset =>
    have hnil : bytes = [] ↔ bytes.length = 0 := List.length_eq_zero_iff.symm
    simp only [Call.on, Call.bytes, Call.place, Call.count, Call.Extends, Tape.length_put, hnil]
    split <;> omega

/-- **The count never falls short** of the length of the output. -/
theorem length_le_written (h : out.Follows view fills) (hlength : (view w.state).content.length ≤ w.written)
    (hposition : (view w.state).position ≤ w.written) (calls : List Call) :
    Throughout out (fun mid => (view mid.state).content.length ≤ mid.written) w calls := by
  -- The invariant speaks of the position too: it is where the next bytes are put.
  have hboth : Throughout out (fun mid => (view mid.state).content.length ≤ mid.written ∧
      (view mid.state).position ≤ mid.written) w calls := by
    refine throughout_of_perform ⟨hlength, hposition⟩ fun earlier call next hearlier hnext => ?_
    rw [view_perform h hnext, written_perform hnext]
    exact length_on_le hearlier.1 hearlier.2 fills call
  exact fun before mid hbefore hmid => (hboth before mid hbefore hmid).1

/-- **The count stays the length** of the output exactly as long as every call extends it. -/
theorem throughout_written_eq_iff (h : out.Follows view fills)
    (hlength : w.written = (view w.state).content.length)
    (hposition : (view w.state).position ≤ (view w.state).content.length)
    (hrun : w.run out calls = (.ok (), final)) :
    Throughout out (fun mid => mid.written = (view mid.state).content.length) w calls ↔
      Extending fills (view w.state) calls := by
  -- By induction on the calls; the position stays within the content all along.
  induction calls generalizing w with
  | nil => exact throughout_nil.trans (iff_of_true hlength trivial)
  | cons call rest ih =>
    obtain ⟨next, hnext, hrest⟩ := exists_of_run_cons hrun
    have hview := view_perform h hnext
    have hfirst : next.written = (view next.state).content.length ↔
        call.Extends fills (view w.state) := by
      rw [written_perform hnext, hview, hlength]
      exact count_eq_length_on_iff hposition
    rw [throughout_cons hnext, and_iff_right hlength, Extending, ← hview, ← hfirst]
    -- As long as the first call keeps the count to the length, the others decide.
    by_cases hequal : next.written = (view next.state).content.length
    · have hbehind : (view next.state).position ≤ (view next.state).content.length := by
        rw [← hequal, written_perform hnext, hview]
        have hle := Nat.le_of_eq hlength.symm
        exact (length_on_le hle (Nat.le_trans hposition hle) fills call).2
      rw [and_iff_right hequal]
      exact ih hequal hbehind hrest
    · -- A count that has left the length is seen behind the first call already.
      apply iff_of_false
      · exact fun hall => hequal (hall [] next List.nil_prefix rfl)
      · exact fun hall => hequal hall.1

/-- **The count and the length** along calls that succeed, on an output that is empty at first: the count
never falls short of the length, and it is the length after every call exactly if every call extends
the output. -/
theorem written_eq_length_iff (h : out.Follows view fills) (hempty : view w.state = ⟨[], 0⟩)
    (hcount : w.written = 0) (hrun : w.run out calls = (.ok (), final)) :
    Throughout out (fun mid => (view mid.state).content.length ≤ mid.written) w calls ∧
      (Throughout out (fun mid => mid.written = (view mid.state).content.length) w calls ↔
        Extending fills ⟨[], 0⟩ calls) := by
  refine ⟨length_le_written h ?_ ?_ calls, ?_⟩
  · rw [hempty]
    exact Nat.zero_le _
  · rw [hempty]
    exact Nat.zero_le _
  · rw [← hempty]
    apply throughout_written_eq_iff h ?_ ?_ hrun
    · rw [hempty, hcount]
      rfl
    · rw [hempty]
      exact Nat.le_refl 0

/-- Three bytes, two over the last of them and one behind those, on a buffer. -/
theorem written_eq_length_iff_over :
    Throughout Medium.buffer (fun mid => mid.written = mid.state.tape.content.length)
      ⟨Medium.holding [], "image", false, 0⟩ [.write [1, 2, 3], .writeAt [4, 5] 1, .write [6]] := by
  let w : Writer Medium := ⟨Medium.holding [], "image", false, 0⟩
  have hrun : w.run Medium.buffer [.write [1, 2, 3], .writeAt [4, 5] 1, .write [6]] = (.ok (), _) :=
    rfl
  exact (written_eq_length_iff Medium.follows_buffer rfl rfl hrun).2.2 (by decide)

/-- **Bytes for a position inside of the output** are counted though they make it no longer: eight bytes,
four over the first of them and four over the others leave eight bytes and a count of twelve. -/
theorem written_ne_length_over :
    ∃ final, (⟨Medium.holding [], "image", false, 0⟩ : Writer Medium).run Medium.buffer
        [.write (Bytes.zeros 8), .writeAt [255, 255, 255, 255] 0, .write [1, 2, 3, 4]] = (.ok (), final) ∧
      final.written = 12 ∧ final.state.tape = ⟨[255, 255, 255, 255, 1, 2, 3, 4], 8⟩ :=
  ⟨_, rfl, rfl, rfl⟩

end BootImage.Writer
