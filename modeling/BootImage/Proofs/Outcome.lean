import BootImage.Size

/-!
# Outcomes of steps

How a chain of steps ends. A chain gives a value exactly when every step of it does, so a function
written as a chain is opened, once and for all, into the conditions its steps check.

- `bind_eq_ok_iff`, `mapM_eq_ok_iff`: a chain, and a step for every element of a list.
- `FaultFree`: a step that may refuse its input but never stops on a fault; `FaultFree.bind` carries
  it along a chain.
- `FailsFor`, `FailsWith`: a step that refuses its input for some causes only, or for causes of one class;
  `FailsFor.bind`, `FailsWith.bind` likewise.
-/

namespace BootImage

variable {α β : Type}

/-! ## §1 Values -/

@[simp] theorem refuse_ne_ok {cause : Error} {a : α} : (refuse cause : Result α) = .ok a ↔ False := by
  simp [refuse]

@[simp] theorem fault_ne_ok {cause : Fault} {a : α} : (fault cause : Result α) = .ok a ↔ False := by
  simp [fault]

/-- A chain of two steps gives a value exactly when the first gives one and the second, started from
it, gives the other. -/
theorem bind_eq_ok_iff {x : Result α} {f : α → Result β} {b : β} :
    (x >>= f) = .ok b ↔ ∃ a, x = .ok a ∧ f a = .ok b := by
  cases x with
  | error failure => simp [bind, Except.bind]
  | ok a => simp [bind, Except.bind]

/-- A change of the value changes nothing about whether there is one. -/
theorem map_eq_ok_iff {f : α → β} {x : Result α} {b : β} :
    f <$> x = .ok b ↔ ∃ a, x = .ok a ∧ b = f a := by
  cases x with
  | error failure => simp [Functor.map, Except.map]
  | ok a => simp [Functor.map, Except.map, eq_comm]

/-- A guarded step gives a value exactly when the guard is open. -/
theorem guard_eq_ok_iff {p : Prop} [Decidable p] {cause : Error} {x : Result α} {a : α} :
    (if p then refuse cause else x) = .ok a ↔ ¬ p ∧ x = .ok a := by
  by_cases h : p <;> simp [h]

theorem ok_bind {a : α} {f : α → Result β} : ((.ok a : Result α) >>= f) = f a := rfl

/-- Whether a step gives a certain value can be computed where values can be compared. -/
theorem toOption_eq_some_iff {x : Result α} {a : α} : x.toOption = some a ↔ x = .ok a := by
  cases x with
  | error failure => simp [Except.toOption]
  | ok b => simp [Except.toOption]

/-- The failure of a step, if it fails. -/
def failure? : Result α → Option Failure
  | .ok _ => none
  | .error failure => some failure

/-- Whether a step fails in a certain way can always be computed. -/
theorem failure?_eq_some_iff {x : Result α} {failure : Failure} :
    failure? x = some failure ↔ x = .error failure := by
  cases x with
  | error other => simp [failure?]
  | ok a => simp [failure?]

theorem mapM_nil {f : α → Result β} : [].mapM f = .ok [] := rfl

/-- A step for every element of a list. Where it is known what the step gives for an element, and
under which condition, the steps give the list of these values under all the conditions. -/
theorem mapM_eq_ok_iff {f : α → Result β} {g : α → β} {p : α → Prop}
    (hf : ∀ x y, f x = .ok y ↔ p x ∧ y = g x) {xs : List α} {ys : List β} :
    xs.mapM f = .ok ys ↔ (∀ x ∈ xs, p x) ∧ ys = xs.map g := by
  -- By induction on the list: the first step and the later ones each add their conditions.
  induction xs generalizing ys with
  | nil =>
    rw [mapM_nil, Except.ok.injEq, List.map_nil, eq_comm]
    exact (and_iff_right fun x hx => absurd hx List.not_mem_nil).symm
  | cons x xs ih =>
    rw [List.mapM_cons, bind_eq_ok_iff, List.forall_mem_cons, List.map_cons]
    -- Both directions go step by step; the value of each step is the one that is known for it.
    constructor
    · intro h
      rcases h with ⟨y, hy, h⟩
      obtain ⟨zs, hzs, h⟩ := bind_eq_ok_iff.1 h
      obtain ⟨hx, rfl⟩ := (hf x y).1 hy
      obtain ⟨hxs, rfl⟩ := ih.1 hzs
      cases h
      exact ⟨⟨hx, hxs⟩, rfl⟩
    · intro h
      rcases h with ⟨⟨hx, hxs⟩, rfl⟩
      exact ⟨g x, (hf x _).2 ⟨hx, rfl⟩, bind_eq_ok_iff.2 ⟨_, ih.2 ⟨hxs, rfl⟩, rfl⟩⟩

/-! ## §2 Absence of faults -/

/-- The step gives a value or refuses its input; it does not stop on a fault. -/
def FaultFree (x : Result α) : Prop := ∀ cause, x ≠ .error (.fault cause)

theorem faultFree_ok (a : α) : FaultFree (.ok a : Result α) := by
  intro cause h
  cases h

theorem faultFree_refuse (cause : Error) : FaultFree (refuse cause : Result α) := by
  intro fault h
  cases h

theorem faultFree_of_eq_ok {x : Result α} {a : α} (h : x = .ok a) : FaultFree x := by
  rw [h]
  exact faultFree_ok a

/-- Along a chain it is enough that the second step is free of faults for the values the first step
can give. -/
theorem FaultFree.bind {x : Result α} {f : α → Result β} (hx : FaultFree x)
    (hf : ∀ a, x = .ok a → FaultFree (f a)) : FaultFree (x >>= f) := by
  cases x with
  | error failure =>
    -- A fault of the chain is a fault of its first step here.
    intro cause h
    cases h
    exact hx cause rfl
  | ok a => exact hf a rfl

/-- A change of the value does not make a step fault. -/
theorem FaultFree.map {f : α → β} {x : Result α} (hx : FaultFree x) : FaultFree (f <$> x) := by
  cases x with
  | error failure =>
    intro cause h
    cases h
    exact hx cause rfl
  | ok a => exact faultFree_ok (f a)

/-- Behind a guard it is enough that the step is free of faults where the guard is open. -/
theorem FaultFree.guard {p : Prop} [Decidable p] {cause : Error} {x : Result α}
    (hx : ¬ p → FaultFree x) : FaultFree (if p then refuse cause else x) := by
  by_cases h : p
  · rw [if_pos h]
    exact faultFree_refuse cause
  · rw [if_neg h]
    exact hx h

/-- Steps for all elements are free of faults if each of them is. -/
theorem FaultFree.mapM {f : α → Result β} {xs : List α} (hf : ∀ x ∈ xs, FaultFree (f x)) :
    FaultFree (xs.mapM f) := by
  -- Whatever the earlier steps gave, the next one does not fault.
  induction xs with
  | nil => exact faultFree_ok []
  | cons x xs ih =>
    rw [List.mapM_cons]
    refine FaultFree.bind (hf x (List.mem_cons_self ..)) fun y _ => ?_
    refine FaultFree.bind (ih fun z hz => hf z (List.mem_cons_of_mem _ hz)) fun ys _ => ?_
    exact faultFree_ok (y :: ys)

/-! ## §3 Causes of refusals -/

/-- The step gives a value, or refuses its input for one of some causes. -/
def FailsFor (p : Error → Prop) (x : Result α) : Prop :=
  ∀ failure, x = .error failure → ∃ cause, failure = .refused cause ∧ p cause

/-- The step gives a value, or refuses its input for a cause of one class. -/
def FailsWith (kind : ErrorKind) (x : Result α) : Prop :=
  ∀ failure, x = .error failure → ∃ cause, failure = .refused cause ∧ cause.kind = kind

section

variable {p : Error → Prop} {x : Result α}

theorem failsFor_ok (p : Error → Prop) (a : α) : FailsFor p (.ok a : Result α) := by
  intro failure h
  cases h

theorem failsFor_refuse {cause : Error} (h : p cause) : FailsFor p (refuse cause : Result α) := by
  intro failure hfailure
  cases hfailure
  exact ⟨cause, rfl, h⟩

/-- The causes of a chain are those of its steps. -/
theorem FailsFor.bind {f : α → Result β} (hx : FailsFor p x)
    (hf : ∀ a, x = .ok a → FailsFor p (f a)) : FailsFor p (x >>= f) := by
  cases x with
  | error failure =>
    -- A failure of the chain is a failure of its first step here.
    intro later h
    cases h
    exact hx failure rfl
  | ok a => exact hf a rfl

/-- Where it is known what the first step gives, and under which condition, the second starts from there. -/
theorem FailsFor.bind_of_iff {f : α → Result β} {c : Prop} {v : α} (hx : FailsFor p x)
    (hv : ∀ {a}, x = .ok a ↔ c ∧ a = v) (hf : c → FailsFor p (f v)) : FailsFor p (x >>= f) := by
  refine hx.bind fun a ha => ?_
  obtain ⟨hc, rfl⟩ := hv.1 ha
  exact hf hc

/-- A change of the value adds no cause. -/
theorem FailsFor.map {f : α → β} (hx : FailsFor p x) : FailsFor p (f <$> x) := by
  cases x with
  | error failure =>
    intro later h
    cases h
    exact hx failure rfl
  | ok a => exact failsFor_ok p (f a)

/-- A guard adds its own cause, and only where it is closed. -/
theorem FailsFor.guard {q : Prop} [Decidable q] {cause : Error} (hcause : q → p cause)
    (hx : ¬ q → FailsFor p x) : FailsFor p (if q then refuse cause else x) := by
  by_cases h : q
  · rw [if_pos h]
    exact failsFor_refuse (hcause h)
  · rw [if_neg h]
    exact hx h

/-- A step all of whose failures are refusals is free of faults. -/
theorem FailsFor.faultFree (hx : FailsFor p x) : FaultFree x := by
  intro fault h
  obtain ⟨cause, hcause, -⟩ := hx _ h
  cases hcause

/-- A step that gives no value is refused for one of its causes. -/
theorem FailsFor.exists_refused (hx : FailsFor p x) (hnone : ∀ a, x ≠ .ok a) :
    ∃ cause, x = refuse cause ∧ p cause := by
  cases x with
  | ok a => exact absurd rfl (hnone a)
  | error failure =>
    obtain ⟨cause, rfl, hcause⟩ := hx failure rfl
    exact ⟨cause, rfl, hcause⟩

end

section

variable {kind : ErrorKind} {x : Result α}

/-- Causes of one class are causes of any kind that takes in the class. -/
theorem FailsWith.failsFor {p : Error → Prop} (hx : FailsWith kind x)
    (hp : ∀ cause, cause.kind = kind → p cause) : FailsFor p x := by
  intro failure h
  obtain ⟨cause, hcause, hkind⟩ := hx failure h
  exact ⟨cause, hcause, hp cause hkind⟩

theorem failsWith_ok (kind : ErrorKind) (a : α) : FailsWith kind (.ok a : Result α) := failsFor_ok _ a

theorem failsWith_refuse (cause : Error) : FailsWith cause.kind (refuse cause : Result α) :=
  failsFor_refuse rfl

/-- A chain whose steps are refused for causes of one class is so itself. -/
theorem FailsWith.bind {f : α → Result β} (hx : FailsWith kind x)
    (hf : ∀ a, x = .ok a → FailsWith kind (f a)) : FailsWith kind (x >>= f) := FailsFor.bind hx hf

theorem FailsWith.faultFree (hx : FailsWith kind x) : FaultFree x := FailsFor.faultFree hx

/-- A step that gives no value is refused for a cause of its class. -/
theorem FailsWith.exists_refused (hx : FailsWith kind x) (hnone : ∀ a, x ≠ .ok a) :
    ∃ cause, x = .error (.refused cause) ∧ cause.kind = kind := FailsFor.exists_refused hx hnone

end

/-! ## §4 Sums and limits -/

theorem Size.add_of_lt {a b : Nat} (h : a + b < Size.bound) : Size.add a b = .ok (a + b) :=
  Size.add_eq_ok_iff.2 ⟨h, rfl⟩

/-- An unchecked sum is safe below the bound. -/
theorem Size.faultFree_add {a b : Nat} (h : a + b < Size.bound) : FaultFree (Size.add a b) := by
  rw [Size.add, if_pos h]
  exact faultFree_ok _

/-- A sum that is no size stops the step. -/
theorem Size.add_of_le {a b : Nat} (h : Size.bound ≤ a + b) : Size.add a b = fault .overflow :=
  if_neg (Nat.not_lt.2 h)

/-- Narrowing is refused for the cause it is given, and for no other. -/
theorem Size.failsWith_to32 {n : Nat} {cause : Error} : FailsWith cause.kind (Size.to32 n cause) := by
  unfold Size.to32
  split
  · exact failsWith_ok _ n
  · exact failsWith_refuse cause

theorem Size.faultFree_to32 {n : Nat} {cause : Error} : FaultFree (Size.to32 n cause) :=
  Size.failsWith_to32.faultFree

/-- Buffers have room for less than half of the words. -/
theorem Size.allocatable_eq_ok_iff {n m : Nat} :
    Size.allocatable n = .ok m ↔ n < Size.bufferBound ∧ m = n := by
  by_cases h : n < Size.bufferBound <;> simp [Size.allocatable, fault, h, eq_comm]

end BootImage
