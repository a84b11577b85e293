import BootImage.Error

/-!
# Sizes

Sizes, offsets and addresses are natural numbers below `2 ^ 64`. Sums either are known to stay
there, and then `add?` says so, or are taken for granted, and then `add` faults when they do not.
-/

namespace BootImage.Size

/-- One more than the largest 32-bit number. -/
def bound32 : Nat := 0x100000000

/-- One more than the largest size. -/
def bound : Nat := 0x10000000000000000

/-- One more than the size of the largest buffer. -/
def bufferBound : Nat := 0x8000000000000000

/-- The sum of two sizes, if it is a size. -/
def add? (a b : Nat) : Option Nat := if a + b < bound then some (a + b) else none

/-- The sum of two sizes that the caller expects to be a size. -/
def add (a b : Nat) : Result Nat := if a + b < bound then .ok (a + b) else fault .overflow

/-- The size `n`, which a 32-bit field has to hold; `cause` is reported if it cannot. -/
def to32 (n : Nat) (cause : Error) : Result Nat := if n < bound32 then .ok n else refuse cause

/-- The size `n` of a buffer about to be allocated. -/
def allocatable (n : Nat) : Result Nat :=
  if n < bufferBound then .ok n else fault (.unallocatable n)

/-- Two words have a sum exactly below the bound. -/
theorem add?_eq_some_iff {a b c : Nat} : add? a b = some c ↔ a + b < bound ∧ c = a + b := by
  by_cases h : a + b < bound <;> simp [add?, h, eq_comm]

theorem add_eq_ok_iff {a b c : Nat} : add a b = .ok c ↔ a + b < bound ∧ c = a + b := by
  by_cases h : a + b < bound <;> simp [add, fault, h, eq_comm]

/-- Narrowing keeps the number or is refused. -/
theorem to32_eq_ok_iff {n m : Nat} {cause : Error} :
    to32 n cause = .ok m ↔ n < bound32 ∧ m = n := by
  by_cases h : n < bound32 <;> simp [to32, refuse, h, eq_comm]

end BootImage.Size
