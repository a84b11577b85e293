import BootImage.InPlace
import BootImage.Proofs.Outcome

/-!
# Steps in place that succeed

What a step in place makes of a buffer when it does not fail, for each way of putting steps together. A
sequence of steps succeeds exactly when each of them does, the later ones on what the earlier ones
left. One change that fails leaves the buffer as it was.

- `on_bind_eq_ok_iff`: two steps, one after the other.
- `on_edit_eq_ok_iff`, `on_check_eq_ok_iff`, `on_within_eq_ok_iff`, `on_behind_eq_ok_iff`: one step.
- `on_edit_of_error`: one change that fails.
- `outcome_eq_ok_iff`: the outcome of a step.
- `failsWith_on_bind`, `failsWith_on_edit`, `failsWith_outcome`: steps that fail for one class of causes.
-/

namespace BootImage.InPlace

variable {α β : Type} {buf out : Bytes}

/-- Two steps succeed exactly if the first one does, and the second one on what the first has left. -/
theorem on_bind_eq_ok_iff {first : InPlace α} {later : α → InPlace β} {b : β} :
    (first >>= later).on buf = (.ok b, out) ↔
      ∃ a mid, first.on buf = (.ok a, mid) ∧ (later a).on mid = (.ok b, out) := by
  rw [on_bind]
  rcases first.on buf with ⟨answer, mid⟩
  -- After a failure the later step is not made, and so the sequence fails with it.
  cases answer with
  | error failure => simp
  | ok a =>
    constructor
    · intro h
      exact ⟨a, mid, rfl, h⟩
    · intro h
      rcases h with ⟨_, _, hfirst, h⟩
      cases hfirst
      exact h

/-- One change succeeds as the change does that it is made of. -/
theorem on_edit_eq_ok_iff {change : Bytes → Result Bytes} {u : Unit} :
    (edit change).on buf = (.ok u, out) ↔ change buf = .ok out := by
  cases h : change buf <;> simp [on, edit, ExceptT.run, ExceptT.mk, h]

/-- A change that fails is not made, not even in part. -/
theorem on_edit_of_error {change : Bytes → Result Bytes} {failure : Failure}
    (h : change buf = .error failure) : (edit change).on buf = (.error failure, buf) := by
  simp [on, edit, ExceptT.run, ExceptT.mk, h]

/-- A look that succeeds has changed nothing. -/
theorem on_check_eq_ok_iff {look : Bytes → Result α} {a : α} :
    (check look).on buf = (.ok a, out) ↔ look buf = .ok a ∧ buf = out := by
  rw [on_check, Prod.mk.injEq]

/-- A step on a part of a buffer never reaches the rest of it. -/
theorem on_within (off len : Nat) (step : InPlace α) (buf : Bytes) :
    (within off len step).on buf =
      ((step.on (buf.slice off len)).1,
        buf.take off ++ ((step.on (buf.slice off len)).2 ++ buf.drop (off + len))) := rfl

/-- It succeeds as it does on the part alone. -/
theorem on_within_eq_ok_iff {off len : Nat} {step : InPlace α} {a : α} :
    (within off len step).on buf = (.ok a, out) ↔
      ∃ piece, step.on (buf.slice off len) = (.ok a, piece) ∧
        out = buf.take off ++ (piece ++ buf.drop (off + len)) := by
  rw [on_within]
  rcases step.on (buf.slice off len) with ⟨answer, piece⟩
  constructor
  · intro h
    cases h
    exact ⟨piece, rfl, rfl⟩
  · intro h
    rcases h with ⟨_, hstep, rfl⟩
    cases hstep
    rfl

/-- A step behind some bytes leaves these alone, even where it fails. -/
theorem on_behind (off : Nat) (step : InPlace α) (buf : Bytes) :
    (behind off step).on buf =
      ((step.on (buf.drop off)).1, buf.take off ++ (step.on (buf.drop off)).2) := rfl

/-- It succeeds as it does on what lies behind them. -/
theorem on_behind_eq_ok_iff {off : Nat} {step : InPlace α} {a : α} :
    (behind off step).on buf = (.ok a, out) ↔
      ∃ rest, step.on (buf.drop off) = (.ok a, rest) ∧ out = buf.take off ++ rest := by
  rw [on_behind]
  rcases step.on (buf.drop off) with ⟨answer, rest⟩
  constructor
  · intro h
    cases h
    exact ⟨rest, rfl, rfl⟩
  · intro h
    rcases h with ⟨_, hstep, rfl⟩
    cases hstep
    rfl

/-- A range of a buffer that is copied to a place with room for it. -/
theorem on_copyWithin {start len dest : Nat} (hstart : start + len ≤ buf.length)
    (hdest : dest + len ≤ buf.length) :
    (copyWithin start len dest).on buf = (.ok (), buf.overlay dest (buf.slice start len)) := by
  rw [copyWithin, on_edit_eq_ok_iff, if_pos ⟨hstart, hdest⟩]

/-- Zeros over the start of a buffer that is long enough. -/
theorem on_clear {len : Nat} (h : len ≤ buf.length) :
    (clear len).on buf = (.ok (), buf.overlay 0 (Bytes.zeros len)) := by
  rw [clear, on_edit_eq_ok_iff, if_pos h]

/-- Only a failure loses what is left of the buffer. -/
theorem outcome_eq_ok_iff {step : InPlace α} {a : α} :
    step.outcome buf = .ok (a, out) ↔ step.on buf = (.ok a, out) := by
  rw [outcome]
  rcases step.on buf with ⟨answer, left⟩
  cases answer <;> simp

/-! ### Steps that fail for one class of causes -/

variable {kind : ErrorKind}

/-- A sequence fails for the causes of its steps. -/
theorem failsWith_on_bind {first : InPlace α} {later : α → InPlace β}
    (hfirst : FailsWith kind (first.on buf).1)
    (hlater : ∀ a mid, first.on buf = (.ok a, mid) → FailsWith kind ((later a).on mid).1) :
    FailsWith kind ((first >>= later).on buf).1 := by
  rw [on_bind]
  cases hstep : first.on buf with
  | mk answer mid =>
    cases answer with
    | ok a => exact hlater a mid hstep
    | error failure =>
      rw [hstep] at hfirst
      -- The failure of the first step is handed on as it is.
      intro found hfound
      cases hfound
      exact hfirst failure rfl

/-- One change fails for the causes of the change that it is made of. -/
theorem failsWith_on_edit {change : Bytes → Result Bytes} (h : FailsWith kind (change buf)) :
    FailsWith kind ((edit change).on buf).1 := by
  intro failure hfailed
  apply h
  cases hchange : change buf <;> simp_all [on, edit, ExceptT.run, ExceptT.mk]

/-- Keeping the buffer beside the answer adds no cause. -/
theorem failsWith_outcome {step : InPlace α} (h : FailsWith kind (step.on buf).1) :
    FailsWith kind (step.outcome buf) := by
  intro failure hfailed
  apply h
  rw [outcome] at hfailed
  rcases hstep : step.on buf with ⟨answer, left⟩
  rw [hstep] at hfailed
  cases answer with
  | ok a => cases hfailed
  | error cause =>
    cases hfailed
    rfl

end BootImage.InPlace
