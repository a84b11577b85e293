import BootImage.Payload
import BootImage.Pe.Plan
import BootImage.Proofs.Outcome
import Mathlib.Order.Bounds.Defs

/-!
# Rounding sizes

What the rounding operations give, and when. Rounding up is idempotent, monotone, and passes through
sums with a multiple; whether a word can hold the rounded value can be read off the value itself
where the bound of the words is a multiple of the alignment.

- `isLeast_roundUp`, `roundUp_eq_self_iff`, `roundUp_mono`, `roundUp_add`: the formula.
- `roundUp_lt_iff`: when the rounded value is a word.
- `roundUp_add_roundUp_le_iff`: when sizes rounded one by one take no more blocks than in a row.
- `alignUp?_eq_some_iff`, `alignToWord_eq_ok_iff`, `alignToFile_eq_ok_iff`: the operations.
-/

namespace BootImage

namespace Alignment

/-! ## §1 The formula -/

/-- **The formula rounds up**: it gives the least multiple that is not below. -/
theorem isLeast_roundUp {align : Nat} (h : 0 < align) (n : Nat) :
    IsLeast {m | align ∣ m ∧ n ≤ m} (roundUp align n) :=
  ⟨⟨dvd_roundUp align n, le_roundUp h n⟩, fun _ hm => roundUp_le h hm.1 hm.2⟩

theorem roundUp_eq_self {align n : Nat} (h : 0 < align) (hd : align ∣ n) : roundUp align n = n :=
  Nat.le_antisymm (roundUp_le h hd (Nat.le_refl n)) (le_roundUp h n)

/-- Rounding leaves multiples alone, and nothing else. -/
theorem roundUp_eq_self_iff {align n : Nat} (h : 0 < align) : roundUp align n = n ↔ align ∣ n := by
  constructor
  · intro heq
    rw [← heq]
    exact dvd_roundUp align n
  · exact roundUp_eq_self h

theorem roundUp_mono {align n m : Nat} (h : 0 < align) (hnm : n ≤ m) :
    roundUp align n ≤ roundUp align m :=
  roundUp_le h (dvd_roundUp align m) (Nat.le_trans hnm (le_roundUp h m))

/-- A multiple of the alignment passes through. -/
theorem roundUp_add {align k : Nat} (h : 0 < align) (hd : align ∣ k) (n : Nat) :
    roundUp align (k + n) = k + roundUp align n := by
  obtain ⟨q, rfl⟩ := hd
  -- The multiple leaves the quotient as a whole.
  have hsum : align * q + n + (align - 1) = n + (align - 1) + align * q := by omega
  rw [roundUp, roundUp, hsum, Nat.add_mul_div_left _ _ h, Nat.add_mul, Nat.mul_comm q align,
    Nat.add_comm]

@[simp] theorem roundUp_zero (align : Nat) : roundUp align 0 = 0 := by
  rcases Nat.eq_zero_or_pos align with rfl | h
  · rfl
  · exact roundUp_eq_self h (Nat.dvd_zero align)

/-- Where the bound is a multiple of the alignment, rounding leaves the words exactly when the sum
that rounding starts from does. -/
theorem roundUp_lt_iff {align bound n : Nat} (h : 0 < align) (hd : align ∣ bound) :
    roundUp align n < bound ↔ n + (align - 1) < bound := by
  constructor
  · intro hlt
    refine Nat.lt_of_not_le fun hge => ?_
    -- A sum that reaches the bound, itself a multiple, is rounded to no less than it.
    have hle : bound ≤ roundUp align n := by
      obtain ⟨q, rfl⟩ := hd
      rw [roundUp, Nat.mul_comm align q]
      refine Nat.mul_le_mul_right align ((Nat.le_div_iff_mul_le h).2 ?_)
      rw [Nat.mul_comm q align]
      omega
    omega
  · intro hlt
    have hle : roundUp align n ≤ n + (align - 1) := Nat.div_mul_le_self _ _
    omega

/-- What fits a block takes exactly one, unless it is nothing. -/
theorem roundUp_of_le {align n : Nat} (hpos : 0 < n) (hle : n ≤ align) : roundUp align n = align := by
  have h : 0 < align := Nat.lt_of_lt_of_le hpos hle
  apply Nat.le_antisymm
  · exact roundUp_le h (Nat.dvd_refl align) hle
  · exact Nat.le_of_dvd (Nat.lt_of_lt_of_le hpos (le_roundUp h n)) (dvd_roundUp align n)

/-- Only the part of a block that is left over is rounded. -/
theorem roundUp_eq_add_mod {align : Nat} (h : 0 < align) (n : Nat) :
    roundUp align n = align * (n / align) + roundUp align (n % align) := by
  have hsum := roundUp_add h (Nat.dvd_mul_right align (n / align)) (n % align)
  rwa [Nat.div_add_mod] at hsum

/-- Two sizes rounded one by one take no more blocks than a third one behind them in a row does, unless
both leave a part of a block over and one block holds these parts and the third size. -/
theorem roundUp_add_roundUp_le_iff {align : Nat} (h : 0 < align) (a b c : Nat) :
    roundUp align a + roundUp align b ≤ roundUp align (a + b + c) ↔
      ¬ (a % align ≠ 0 ∧ b % align ≠ 0 ∧ a % align + b % align + c ≤ align) := by
  have hsum : roundUp align (a + b + c) = align * (a / align) + align * (b / align) +
      roundUp align (a % align + b % align + c) := by
    have ha := Nat.div_add_mod a align
    have hb := Nat.div_add_mod b align
    rw [← roundUp_add h (Nat.dvd_add (Nat.dvd_mul_right ..) (Nat.dvd_mul_right ..))]
    congr 1
    omega
  -- Whole blocks count the same on both sides.
  rw [hsum, roundUp_eq_add_mod h a, roundUp_eq_add_mod h b]
  have ha := Nat.mod_lt a h
  have hb := Nat.mod_lt b h
  generalize a % align = left at *
  generalize b % align = right at *
  -- Where one of the sizes leaves nothing over, a row saves nothing.
  rcases Nat.eq_zero_or_pos left with rfl | hleft
  · have hmono := roundUp_mono h (show right ≤ 0 + right + c by omega)
    simp only [roundUp_zero, ne_eq, not_true_eq_false, false_and, not_false_eq_true, iff_true]
    omega
  rcases Nat.eq_zero_or_pos right with rfl | hright
  · have hmono := roundUp_mono h (show left ≤ left + 0 + c by omega)
    simp only [roundUp_zero, ne_eq, not_true_eq_false, false_and, and_false, not_false_eq_true,
      iff_true]
    omega
  -- Both parts are left over, so each of them was rounded to a block of its own.
  rw [roundUp_of_le hleft (Nat.le_of_lt ha), roundUp_of_le hright (Nat.le_of_lt hb)]
  by_cases hfit : left + right + c ≤ align
  · rw [roundUp_of_le (by omega) hfit]
    omega
  · -- What does not fit one block takes two at least.
    have hblocks : align * 2 ≤ roundUp align (left + right + c) := by
      have hle := le_roundUp h (left + right + c)
      obtain ⟨blocks, hblocks⟩ := dvd_roundUp align (left + right + c)
      rw [hblocks] at hle ⊢
      have hlt : align * 1 < align * blocks := by omega
      exact Nat.mul_le_mul_left align (Nat.lt_of_mul_lt_mul_left hlt)
    omega

/-! ### Powers of two -/

/-- Of two powers of two the smaller divides the greater. -/
theorem dvd_of_isPowerOfTwo {a b : Nat} (ha : a.isPowerOfTwo) (hb : b.isPowerOfTwo) (h : a ≤ b) :
    a ∣ b := by
  obtain ⟨m, rfl⟩ := ha
  obtain ⟨n, rfl⟩ := hb
  exact Nat.pow_dvd_pow 2 ((Nat.pow_le_pow_iff_right (by decide)).1 h)

/-- Of two roundings only the coarser one matters. -/
theorem roundUp_roundUp {a b : Nat} (ha : a.isPowerOfTwo) (hb : b.isPowerOfTwo) (n : Nat) :
    roundUp b (roundUp a n) = roundUp (max a b) n := by
  have hapos := Nat.pos_of_isPowerOfTwo ha
  have hbpos := Nat.pos_of_isPowerOfTwo hb
  -- A multiple of the coarser alignment is one of the finer too.
  rcases Nat.le_total a b with hab | hba
  · rw [Nat.max_eq_right hab]
    have hdvd : a ∣ roundUp b n := Nat.dvd_trans (dvd_of_isPowerOfTwo ha hb hab) (dvd_roundUp b n)
    apply Nat.le_antisymm
    · exact roundUp_le hbpos (dvd_roundUp b n) (roundUp_le hapos hdvd (le_roundUp hbpos n))
    · exact roundUp_mono hbpos (le_roundUp hapos n)
  · rw [Nat.max_eq_left hba]
    exact roundUp_eq_self hbpos (Nat.dvd_trans (dvd_of_isPowerOfTwo hb ha hba) (dvd_roundUp a n))

/-! ## §2 Words -/

/-- **Rounding words**: where the bound is a multiple of the alignment, there is a rounded word exactly if
the least multiple is a word. -/
theorem alignUp?_eq {bound align : Nat} (h : align.isPowerOfTwo) (hd : align ∣ bound) (n : Nat) :
    alignUp? bound n align =
      .ok (if roundUp align n < bound then some (roundUp align n) else none) := by
  rw [alignUp?, if_pos h]
  simp only [roundUp_lt_iff (Nat.pos_of_isPowerOfTwo h) hd]

/-- There is a rounded word where the sum that rounding starts from is a word. -/
theorem alignUp?_eq_some_iff {bound n align m : Nat} :
    alignUp? bound n align = .ok (some m) ↔
      align.isPowerOfTwo ∧ n + (align - 1) < bound ∧ m = roundUp align n := by
  by_cases h : align.isPowerOfTwo
  · by_cases hb : n + (align - 1) < bound <;> simp [alignUp?, h, hb, eq_comm]
  · simp [alignUp?, h]

/-- A step that goes on with the rounded value and fails where there is none. -/
theorem alignUp?_bind_eq_ok_iff {bound n align m : Nat} {f : Option Nat → Result Nat}
    {failure : Failure} (hsome : ∀ aligned, f (some aligned) = .ok aligned)
    (hnone : f none = .error failure) :
    (alignUp? bound n align >>= f) = .ok m ↔
      align.isPowerOfTwo ∧ n + (align - 1) < bound ∧ m = roundUp align n := by
  rw [← alignUp?_eq_some_iff, bind_eq_ok_iff]
  -- The rest of the step passes the rounded value on, so it can only fail where there is none.
  constructor
  · intro h
    rcases h with ⟨aligned, haligned, h⟩
    cases aligned with
    | none => simp [hnone] at h
    | some aligned =>
      rw [hsome] at h
      cases h
      exact haligned
  · intro h
    exact ⟨some m, h, hsome m⟩

/-- A step that goes on with the rounded value and is refused where there is none. -/
theorem failsWith_alignUp?_bind {bound n align : Nat} {f : Option Nat → Result Nat} {cause : Error}
    {kind : ErrorKind} (h : align.isPowerOfTwo) (hsome : ∀ aligned, f (some aligned) = .ok aligned)
    (hnone : f none = refuse cause) (hkind : cause.kind = kind) :
    FailsWith kind (alignUp? bound n align >>= f) := by
  rw [alignUp?, if_pos h, ok_bind]
  -- Only the alignment could fault.
  split
  · rw [hsome]
    exact failsWith_ok _ _
  · rw [hnone]
    exact failsFor_refuse hkind

/-- The same where the caller expects a rounded word. -/
theorem alignUp_eq_ok_iff {bound n align m : Nat} :
    alignUp bound n align = .ok m ↔
      align.isPowerOfTwo ∧ n + (align - 1) < bound ∧ m = roundUp align n :=
  alignUp?_bind_eq_ok_iff (fun _ => rfl) rfl

end Alignment

/-! ## §3 Whole words and file blocks -/

theorem WordWidth.bytes_pos (word : WordWidth) : 0 < word.bytes := by cases word <;> decide

theorem WordWidth.isPowerOfTwo_bytes (word : WordWidth) : word.bytes.isPowerOfTwo := by
  cases word <;> decide

theorem WordWidth.bytes_dvd_bound (word : WordWidth) : word.bytes ∣ Size.bound := by
  cases word <;> decide

/-- Rounding to words of a target succeeds below the last word of the sizes. -/
theorem Target.alignToWord_eq_ok_iff {t : Target} {size aligned : Nat} :
    t.alignToWord size = .ok aligned ↔
      size + (t.format.word.bytes - 1) < Size.bound ∧
        aligned = Alignment.roundUp t.format.word.bytes size := by
  rw [Target.alignToWord, Alignment.alignUp?_bind_eq_ok_iff (fun _ => rfl) rfl]
  exact and_iff_right t.format.word.isPowerOfTwo_bytes

/-- A size that cannot be rounded to words is a matter of capacity. -/
theorem Target.failsWith_alignToWord (t : Target) (size : Nat) :
    FailsWith .capacity (t.alignToWord size) :=
  Alignment.failsWith_alignUp?_bind t.format.word.isPowerOfTwo_bytes (fun _ => rfl) rfl rfl

theorem Target.faultFree_alignToWord (t : Target) (size : Nat) : FaultFree (t.alignToWord size) :=
  (t.failsWith_alignToWord size).faultFree

namespace Pe

/-- Rounding to blocks of a file succeeds below the last block of the sizes. -/
theorem alignToFile_eq_ok_iff {size aligned : Nat} :
    alignToFile size = .ok aligned ↔
      size + (Target.peFileAlign - 1) < Size.bound ∧
        aligned = Alignment.roundUp Target.peFileAlign size := by
  rw [alignToFile, Alignment.alignUp?_bind_eq_ok_iff (fun _ => rfl) rfl]
  exact and_iff_right (by decide)

/-- A size is rounded exactly if the blocks are a size. -/
theorem alignToFile_eq_ok_iff_lt {size aligned : Nat} :
    alignToFile size = .ok aligned ↔
      Alignment.roundUp Target.peFileAlign size < Size.bound ∧
        aligned = Alignment.roundUp Target.peFileAlign size := by
  rw [alignToFile_eq_ok_iff, Alignment.roundUp_lt_iff (by decide) (by decide)]

theorem alignToFile_of_lt {size : Nat} (h : size + (Target.peFileAlign - 1) < Size.bound) :
    alignToFile size = .ok (Alignment.roundUp Target.peFileAlign size) :=
  alignToFile_eq_ok_iff.2 ⟨h, rfl⟩

/-- A size that cannot be rounded to blocks is a matter of capacity. -/
theorem failsWith_alignToFile (size : Nat) : FailsWith .capacity (alignToFile size) :=
  Alignment.failsWith_alignUp?_bind (by decide) (fun _ => rfl) rfl rfl

end Pe

end BootImage
