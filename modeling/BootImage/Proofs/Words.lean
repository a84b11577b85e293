import BootImage.Proofs.Rounding

/-!
# Rounding machine words

The laws of rounding up for words of any width: the result is the least multiple of the alignment that is
not below the word, there is none exactly if that multiple is no word, and rounding twice is rounding once.
A machine rounds by a mask, which clears the low bits of a sum. For a power of two that is the same.

- `toNat_and_not_pred`: what a mask clears.
- `lowBits`, `maskUp?`, `alignUp?_toNat`, `isAligned_toNat`: rounding and its test by a mask.
- `alignUp?_eq_none_iff`, `exists_alignUp?_of_le`, `alignUpBoth?_eq`: the laws one by one.
- `alignUp?_isLeast`: all of them.
-/

namespace BootImage.Alignment

/-! ## §1 Masks -/

section

variable {width : Nat}

/-- Clearing the bits below a power of two leaves the greatest multiple that is not above the word. -/
theorem toNat_and_not_pred {align : Nat} (h : align.isPowerOfTwo) (word mask : BitVec width)
    (hmask : mask.toNat = align - 1) : (word &&& ~~~mask).toNat = word.toNat / align * align := by
  obtain ⟨k, rfl⟩ := h
  -- Bit by bit, this is what a shift to the right and back leaves.
  have hshift : word &&& ~~~mask = word >>> k <<< k := by
    apply BitVec.eq_of_getLsbD_eq
    intro i hi
    have hbit : mask.getLsbD i = decide (i < k) := by
      rw [BitVec.getLsbD, hmask, Nat.testBit_two_pow_sub_one]
    rw [BitVec.getLsbD_and, BitVec.getLsbD_not, hbit, BitVec.getLsbD_shiftLeft,
      BitVec.getLsbD_ushiftRight]
    by_cases hlow : i < k
    · simp [hlow]
    · simp [hlow, hi, Nat.add_sub_cancel' (Nat.le_of_not_lt hlow)]
  have hle : word.toNat / 2 ^ k * 2 ^ k ≤ word.toNat := Nat.div_mul_le_self _ _
  rw [hshift, BitVec.toNat_shiftLeft, BitVec.toNat_ushiftRight, Nat.shiftRight_eq_div_pow,
    Nat.shiftLeft_eq, Nat.mod_eq_of_lt (Nat.lt_of_le_of_lt hle word.isLt)]

/-- The bits below a power of two. -/
def lowBits (align : BitVec width) : BitVec width := align - BitVec.ofNat width 1

/-- Rounding up as a machine does it: the low bits of a sum are cleared, unless the sum is no word. -/
def maskUp? (n align : BitVec width) : Option (BitVec width) :=
  if n.uaddOverflow (lowBits align) then none
  else some ((n + lowBits align) &&& ~~~lowBits align)

theorem toNat_lowBits {align : BitVec width} (h : align.toNat.isPowerOfTwo) :
    (lowBits align).toNat = align.toNat - 1 := by
  have hpos : 1 ≤ align.toNat := Nat.pos_of_isPowerOfTwo h
  -- A width at which there is a power of two has a one.
  have hone : (BitVec.ofNat width 1).toNat = 1 := by
    rw [BitVec.toNat_ofNat, Nat.mod_eq_of_lt (Nat.lt_of_le_of_lt hpos align.isLt)]
  rw [lowBits, BitVec.toNat_sub_of_le, hone]
  rw [BitVec.le_def, hone]
  exact hpos

/-- The sum of a machine overflows exactly where there is no sum that is a word. -/
theorem uaddOverflow_lowBits_iff {n align : BitVec width} (h : align.toNat.isPowerOfTwo) :
    n.uaddOverflow (lowBits align) ↔ ¬ n.toNat + (align.toNat - 1) < 1 <<< width := by
  rw [BitVec.uaddOverflow, toNat_lowBits h, decide_eq_true_iff, Nat.one_shiftLeft, Nat.not_lt]

/-- **The mask rounds up**: the operation on words is the least multiple, where it is a word. -/
theorem alignUp?_toNat (n : BitVec width) {align : BitVec width} (h : align.toNat.isPowerOfTwo) :
    alignUp? (1 <<< width) n.toNat align.toNat = .ok ((maskUp? n align).map BitVec.toNat) := by
  rw [alignUp?, if_pos h, maskUp?]
  -- Both ask whether the sum is a word, and only then clear its low bits.
  by_cases hoverflow : n.uaddOverflow (lowBits align)
  · rw [if_pos hoverflow, if_neg ((uaddOverflow_lowBits_iff h).1 hoverflow)]
    rfl
  · have hsum := Decidable.not_not.1 (mt (uaddOverflow_lowBits_iff h).2 hoverflow)
    rw [if_neg hoverflow, if_pos hsum, Option.map_some, toNat_and_not_pred h _ _ (toNat_lowBits h),
      BitVec.toNat_add_of_not_uaddOverflow hoverflow, toNat_lowBits h]
    rfl

/-- The mask keeps the remainder, so it tests for multiples. -/
theorem isAligned_toNat (n : BitVec width) {align : BitVec width} (h : align.toNat.isPowerOfTwo) :
    isAligned n.toNat align.toNat = .ok (n &&& lowBits align == 0) := by
  -- What the mask keeps of a word is its remainder.
  have hmod : (n &&& lowBits align).toNat = n.toNat % align.toNat := by
    rw [BitVec.toNat_and, toNat_lowBits h]
    obtain ⟨k, hk⟩ := h
    rw [hk, Nat.and_two_pow_sub_one_eq_mod]
  rw [isAligned, if_pos h, ← hmod, Except.ok.injEq, Bool.eq_iff_iff, beq_iff_eq, beq_iff_eq,
    BitVec.toNat_eq]
  rfl

end

/-! ## §2 Laws -/

section

variable {bound align n m : Nat}

theorem isAligned_eq (h : align.isPowerOfTwo) (n : Nat) : isAligned n align = .ok (decide (align ∣ n)) := by
  rw [isAligned, if_pos h, Except.ok.injEq, Bool.eq_iff_iff, beq_iff_eq, decide_eq_true_iff,
    Nat.dvd_iff_mod_eq_zero]

/-- No rounded word is exactly a least multiple that is no word. -/
theorem alignUp?_eq_none_iff (h : align.isPowerOfTwo) (hd : align ∣ bound) :
    alignUp? bound n align = .ok none ↔ bound ≤ roundUp align n := by
  rw [alignUp?_eq h hd, Except.ok.injEq, ite_eq_right_iff, ← Nat.not_lt]
  exact forall_congr' fun _ => iff_of_false (Option.some_ne_none _) id

/-- A rounded word is the least multiple, and is a word. -/
theorem alignUp?_eq_some_iff_lt (h : align.isPowerOfTwo) (hd : align ∣ bound) :
    alignUp? bound n align = .ok (some m) ↔ m = roundUp align n ∧ m < bound := by
  rw [alignUp?_eq_some_iff, and_iff_right h, ← roundUp_lt_iff (Nat.pos_of_isPowerOfTwo h) hd, and_comm]
  exact and_congr_right fun hm => by rw [hm]

/-- Whatever is below a number that can be rounded can be rounded, to no more. -/
theorem exists_alignUp?_of_le {other rounded : Nat} (h : align.isPowerOfTwo) (hd : align ∣ bound)
    (hle : n ≤ other) (hrounded : alignUp? bound other align = .ok (some rounded)) :
    ∃ m, alignUp? bound n align = .ok (some m) ∧ m ≤ rounded := by
  obtain ⟨rfl, hlt⟩ := (alignUp?_eq_some_iff_lt h hd).1 hrounded
  have hmono := roundUp_mono (Nat.pos_of_isPowerOfTwo h) hle
  exact ⟨_, (alignUp?_eq_some_iff_lt h hd).2 ⟨rfl, Nat.lt_of_le_of_lt hmono hlt⟩, hmono⟩

/-- Rounding up by one alignment and then by another. -/
def alignUpBoth? (bound n first second : Nat) : Result (Option Nat) := do
  match ← alignUp? bound n first with
  | some aligned => alignUp? bound aligned second
  | none => .ok none

/-- **Rounding twice** is rounding by the larger alignment, also where there is no rounded word. -/
theorem alignUpBoth?_eq {second : Nat} (h : align.isPowerOfTwo) (hd : align ∣ bound)
    (hsecond : second.isPowerOfTwo) (hdsecond : second ∣ bound) (n : Nat) :
    alignUpBoth? bound n align second = alignUp? bound n (max align second) := by
  have htwice := roundUp_roundUp h hsecond n
  obtain ⟨hmax, hdmax⟩ : (max align second).isPowerOfTwo ∧ max align second ∣ bound := by
    rcases Nat.le_total align second with hle | hle
    · rw [Nat.max_eq_right hle]
      exact ⟨hsecond, hdsecond⟩
    · rw [Nat.max_eq_left hle]
      exact ⟨h, hd⟩
  rw [alignUpBoth?, alignUp?_eq h hd, alignUp?_eq hmax hdmax, ok_bind, ← htwice]
  by_cases hlt : roundUp align n < bound
  · rw [if_pos hlt]
    exact alignUp?_eq hsecond hdsecond _
  · -- The second rounding would not have come back to the words.
    have hle := le_roundUp (Nat.pos_of_isPowerOfTwo hsecond) (roundUp align n)
    rw [if_neg hlt, if_neg (by omega)]

/-- Every power of two that is a word divides the bound of the words. -/
theorem dvd_bound {width : Nat} (hbound : bound = 1 <<< width) (h : align.isPowerOfTwo)
    (hlt : align < bound) : align ∣ bound :=
  dvd_of_isPowerOfTwo h ⟨width, by rw [hbound, Nat.one_shiftLeft]⟩ (Nat.le_of_lt hlt)

end

/-- **Rounding up, for words of any width** and every power of two among them. The result is the least
multiple that is not below the number, and there is none exactly if this multiple is no word. Rounded
numbers are aligned, which holds of the multiples and of nothing else, and are not changed by rounding
again. Smaller numbers are rounded to no more. Rounding by two powers of two is rounding by the larger. On
words of the width it is the sum with its low bits cleared by a mask, and the test looks at these bits. -/
theorem alignUp?_isLeast {bound width align : Nat} (hbound : bound = 1 <<< width)
    (h : align.isPowerOfTwo) (hlt : align < bound) (n : Nat) :
    (∀ m, alignUp? bound n align = .ok (some m) ↔ IsLeast {k | align ∣ k ∧ n ≤ k} m ∧ m < bound) ∧
    (alignUp? bound n align = .ok none ↔ ∀ k, align ∣ k → n ≤ k → bound ≤ k) ∧
    isAligned n align = .ok (decide (align ∣ n)) ∧
    (∀ m, alignUp? bound n align = .ok (some m) →
      isAligned m align = .ok true ∧ alignUp? bound m align = .ok (some m)) ∧
    (∀ other rounded, n ≤ other → alignUp? bound other align = .ok (some rounded) →
      ∃ m, alignUp? bound n align = .ok (some m) ∧ m ≤ rounded) ∧
    (∀ second : Nat, second.isPowerOfTwo → second < bound →
      alignUpBoth? bound n align second = alignUp? bound n (max align second)) ∧
    (n < bound →
      alignUp? bound n align =
        .ok ((maskUp? (BitVec.ofNat width n) (BitVec.ofNat width align)).map BitVec.toNat) ∧
      isAligned n align = .ok (BitVec.ofNat width n &&& lowBits (BitVec.ofNat width align) == 0)) := by
  have hd := dvd_bound hbound h hlt
  have hpos := Nat.pos_of_isPowerOfTwo h
  have hleast := isLeast_roundUp hpos n
  refine ⟨fun m => ?least, ?none, isAligned_eq h n, fun m hm => ?again, ?mono, ?twice, fun hn => ?mask⟩
  case least =>
    rw [alignUp?_eq_some_iff_lt h hd]
    refine and_congr_left' ⟨fun hm => hm ▸ hleast, fun hm => ?_⟩
    exact Nat.le_antisymm (hm.2 hleast.1) (hleast.2 hm.1)
  case none =>
    rw [alignUp?_eq_none_iff h hd]
    constructor
    · intro hle k hk hn
      exact Nat.le_trans hle (roundUp_le hpos hk hn)
    · intro hall
      exact hall _ (dvd_roundUp align n) (le_roundUp hpos n)
  case again =>
    obtain ⟨rfl, hword⟩ := (alignUp?_eq_some_iff_lt h hd).1 hm
    have hself := roundUp_eq_self hpos (dvd_roundUp align n)
    refine ⟨?_, (alignUp?_eq_some_iff_lt h hd).2 ⟨hself.symm, hword⟩⟩
    rw [isAligned_eq h, decide_eq_true (dvd_roundUp align n)]
  case mono =>
    intro other rounded hle hrounded
    exact exists_alignUp?_of_le h hd hle hrounded
  case twice =>
    intro second hsecond hsecondlt
    exact alignUpBoth?_eq h hd hsecond (dvd_bound hbound hsecond hsecondlt) n
  case mask =>
    subst hbound
    -- Numbers that are words are what the words of their width stand for.
    have hnat {k : Nat} (hk : k < 1 <<< width) : (BitVec.ofNat width k).toNat = k := by
      rw [BitVec.toNat_ofNat, Nat.mod_eq_of_lt]
      rwa [Nat.one_shiftLeft] at hk
    have hpow : (BitVec.ofNat width align).toNat.isPowerOfTwo := by rwa [hnat hlt]
    have hmask := alignUp?_toNat (BitVec.ofNat width n) hpow
    have htest := isAligned_toNat (BitVec.ofNat width n) hpow
    rw [hnat hn, hnat hlt] at hmask htest
    exact ⟨hmask, htest⟩

/-- At the top of the words of 32 bits the last multiple is reached and not passed. In words of 64 bits
there is a next one. -/
theorem alignUp?_isLeast_top :
    alignUp? Size.bound32 0xFFFFFE00 0x200 = .ok (some 0xFFFFFE00) ∧
    alignUp? Size.bound32 0xFFFFFE01 0x200 = .ok none ∧
    alignUp? Size.bound 0xFFFFFE01 0x200 = .ok (some 0x100000000) := by
  have hbound32 : Size.bound32 = 1 <<< 32 := rfl
  have hbound : Size.bound = 1 <<< 64 := rfl
  have hpow : Nat.isPowerOfTwo 0x200 := by decide
  refine ⟨?_, ?_, ?_⟩
  · refine ((alignUp?_isLeast hbound32 hpow (by decide) 0xFFFFFE00).1 _).2 ⟨?_, by decide⟩
    exact ⟨⟨by decide, Nat.le_refl _⟩, fun k hk => hk.2⟩
  · refine (alignUp?_isLeast hbound32 hpow (by decide) 0xFFFFFE01).2.1.2 ?_
    rintro _ ⟨q, rfl⟩ hle
    show 0x100000000 ≤ 0x200 * q
    omega
  · refine ((alignUp?_isLeast hbound hpow (by decide) 0xFFFFFE01).1 _).2 ⟨⟨⟨by decide, by decide⟩, ?_⟩, by decide⟩
    rintro _ ⟨⟨q, rfl⟩, hle⟩
    omega

end BootImage.Alignment
