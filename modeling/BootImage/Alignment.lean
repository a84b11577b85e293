import BootImage.Size

/-!
# Alignment

Rounding up to a multiple of a power of two, in words below a bound. An alignment that is no power
of two is a fault, whatever is asked of it.

- `roundUp`: the formula; `le_roundUp`, `dvd_roundUp`, `roundUp_le`: it is the least multiple not
  below.
- `alignUp?`, `alignUp`, `isAligned`: the operations on words.
-/

namespace BootImage.Alignment

/-! ## §1 The least multiple -/

/-- The least multiple of `align` that is not below `n`, for a positive `align`. -/
def roundUp (align n : Nat) : Nat := (n + (align - 1)) / align * align

theorem dvd_roundUp (align n : Nat) : align ∣ roundUp align n := ⟨_, Nat.mul_comm _ _⟩

/-- Rounding never goes down. -/
theorem le_roundUp {align : Nat} (h : 0 < align) (n : Nat) : n ≤ roundUp align n := by
  have hdiv := Nat.div_add_mod (n + (align - 1)) align
  have hmod := Nat.mod_lt (n + (align - 1)) h
  have hcomm : align * ((n + (align - 1)) / align) = roundUp align n := Nat.mul_comm _ _
  omega

/-- Rounding adds less than one unit of the alignment. -/
theorem roundUp_lt {align : Nat} (h : 0 < align) (n : Nat) : roundUp align n < n + align := by
  have hle : roundUp align n ≤ n + (align - 1) := Nat.div_mul_le_self _ _
  omega

/-- **Minimality**: any multiple not below `n` is not below the rounded value. -/
theorem roundUp_le {align n m : Nat} (h : 0 < align) (hd : align ∣ m) (hn : n ≤ m) :
    roundUp align n ≤ m := by
  obtain ⟨k, rfl⟩ := hd
  have hlt := roundUp_lt h n
  -- Both are multiples, so one that is less than a unit above `n` cannot lie behind the other.
  obtain ⟨q, hq⟩ := dvd_roundUp align n
  rw [hq] at hlt ⊢
  have : align * q < align * (k + 1) := by rw [Nat.mul_add, Nat.mul_one]; omega
  exact Nat.mul_le_mul_left _ (Nat.le_of_lt_succ (Nat.lt_of_mul_lt_mul_left this))

/-! ## §2 Words -/

/-- The least multiple of `align` not below `n`, unless rounding leaves the words below `bound`. -/
def alignUp? (bound n align : Nat) : Result (Option Nat) :=
  if align.isPowerOfTwo then
    .ok (if n + (align - 1) < bound then some (roundUp align n) else none)
  else fault (.notPowerOfTwo align)

/-- The least multiple of `align` not below `n`, which the caller expects to be a word. -/
def alignUp (bound n align : Nat) : Result Nat := do
  match ← alignUp? bound n align with
  | some aligned => .ok aligned
  | none => fault .overflow

/-- Whether `n` is a multiple of `align`. -/
def isAligned (n align : Nat) : Result Bool :=
  if align.isPowerOfTwo then .ok (n % align == 0) else fault (.notPowerOfTwo align)

end BootImage.Alignment
