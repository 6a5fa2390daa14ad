import Mathlib.Algebra.Ring.Nat
import PatchGraph.Number.Numeral

/-!
# The parts of a double

A double is its sign, its exponent and its fraction (`ext_fields`), and these determine the significand and the power of two of a finite
one. Whatever rounding gives is finite, and so is every integer that fits a word.
-/

namespace PatchGraph

namespace Binary64

/-! ## Fields -/

/-- The exponent is in the eleven bits above the fraction. -/
theorem exponentField_eq (x : Binary64) : x.exponentField = x.bits.toNat / 2 ^ 52 % 2 ^ 11 := by
  rw [exponentField, UInt64.toNat_and, UInt64.toNat_shiftRight, ← Nat.shiftRight_eq_div_pow]
  exact Nat.and_two_pow_sub_one_eq_mod _ 11

/-- The fraction is in the lowest 52 bits. -/
theorem fractionField_eq (x : Binary64) : x.fractionField = x.bits.toNat % 2 ^ 52 := by
  rw [fractionField, UInt64.toNat_and]
  exact Nat.and_two_pow_sub_one_eq_mod _ 52

/-- The sign is the highest bit. -/
theorem isNegative_iff (x : Binary64) : x.isNegative = true ↔ x.bits.toNat / 2 ^ 63 = 1 := by
  rw [isNegative, beq_iff_eq, ← UInt64.toNat_inj, UInt64.toNat_shiftRight, ← Nat.shiftRight_eq_div_pow]
  rfl

/-- A double is told by its sign, its exponent and its fraction. -/
theorem ext_fields {x y : Binary64} (hsign : x.isNegative = y.isNegative) (hexponent : x.exponentField = y.exponentField)
    (hfraction : x.fractionField = y.fractionField) : x = y := by
  have hx := x.bits.toNat_lt
  have hy := y.bits.toNat_lt
  have hhigh : x.bits.toNat / 2 ^ 63 = 1 ↔ y.bits.toNat / 2 ^ 63 = 1 := by
    rw [← isNegative_iff, ← isNegative_iff, hsign]
  rw [exponentField_eq, exponentField_eq] at hexponent
  rw [fractionField_eq, fractionField_eq] at hfraction
  have hbits : x.bits.toNat = y.bits.toNat := by omega
  cases x
  cases y
  exact congrArg mk (UInt64.toNat_inj.1 hbits)

/-- A magnitude of 63 bits and a sign make up the bits of a double. -/
theorem toNat_withSign (negative : Bool) {magnitude : Nat} (h : magnitude < 2 ^ 63) :
    (withSign negative magnitude).bits.toNat = (if negative then 2 ^ 63 else 0) + magnitude := by
  have hmagnitude : magnitude.toUInt64.toNat = magnitude := Nat.mod_eq_of_lt (by omega)
  rw [withSign, UInt64.toNat_or, hmagnitude]
  cases negative with
  | false => exact (Nat.zero_or _).trans (Nat.zero_add _).symm
  | true => exact (Nat.two_pow_add_eq_or_of_lt h 1).symm

/-- A double is finite if its exponent is not the greatest. -/
theorem isFinite_withSign (negative : Bool) {magnitude : Nat} (h : magnitude < 0x7ff0000000000000) :
    (withSign negative magnitude).isFinite = true := by
  have hbits := toNat_withSign negative (by omega : magnitude < 2 ^ 63)
  rw [isFinite, exponentField_eq, hbits, decide_eq_true_eq]
  split <;> omega

/-- A change of sign keeps a double finite. -/
theorem isFinite_neg (x : Binary64) : x.neg.isFinite = x.isFinite := by
  have hexponent : x.neg.exponentField = x.exponentField := by
    rw [exponentField_eq, exponentField_eq, neg, UInt64.toNat_xor, Nat.xor_div_two_pow, Nat.xor_mod_two_pow]
    exact Nat.xor_zero _
  rw [isFinite, isFinite, hexponent]

/-! ## Finite doubles -/

/-- The fraction is less than the leading bit. -/
theorem fractionField_lt (x : Binary64) : x.fractionField < leadingBit := by
  rw [fractionField_eq]
  exact Nat.mod_lt _ (by decide)

/-- A significand has at most 53 bits. -/
theorem significand_lt (x : Binary64) : x.significand < 2 * leadingBit := by
  have hfraction := x.fractionField_lt
  unfold significand
  split <;> omega

/-- Only zero has no significand. -/
theorem significand_pos {x : Binary64} (h : x.isZero = false) : 0 < x.significand := by
  simp only [isZero, Bool.and_eq_false_iff, beq_eq_false_iff_ne] at h
  have hleading : 0 < leadingBit := by decide
  unfold significand
  split <;> omega

/-- The least power of two is that of the subnormal doubles. -/
theorem le_scale (x : Binary64) : -1074 ≤ x.scale := by
  unfold scale
  split <;> omega

/-- The greatest power of two is that of the greatest finite doubles. -/
theorem scale_le {x : Binary64} (h : x.isFinite = true) : x.scale ≤ 971 := by
  rw [isFinite, decide_eq_true_eq] at h
  unfold scale
  split <;> omega

/-- Only a double of the smallest scale is without its leading bit. -/
theorem leadingBit_le {x : Binary64} (h : -1074 < x.scale) : leadingBit ≤ x.significand := by
  unfold scale at h
  unfold significand
  split at h
  · omega
  · rename_i hexponent
    rw [if_neg hexponent]
    omega

/-- A double is told by its sign, its significand and its scale. -/
theorem ext_value {x y : Binary64} (hsign : x.isNegative = y.isNegative) (hsignificand : x.significand = y.significand)
    (hscale : x.scale = y.scale) : x = y := by
  have hx := x.fractionField_lt
  have hy := y.fractionField_lt
  have hfields : x.exponentField = y.exponentField ∧ x.fractionField = y.fractionField := by
    unfold significand at hsignificand
    unfold scale at hscale
    split at hsignificand <;> split at hsignificand <;> grind
  exact ext_fields hsign hfields.1 hfields.2

/-! ## Rounding -/

/-- A ratio in units of `2 ^ q`, rounded. -/
def roundedAt (num den : Nat) (q : Int) : Nat :=
  if 0 ≤ q then roundHalfEven num (den <<< q.toNat) else roundHalfEven (num <<< (-q).toNat) den

/-- The bits of the magnitude `m * 2 ^ q`. -/
def magnitudeBits (m : Nat) (q : Int) : Nat := if m < leadingBit then m else (q + 1075).toNat * leadingBit + (m - leadingBit)

/-- How a quotient is rounded: the power of two is fixed first, and then the significand. -/
theorem ofRatio_eq (negative : Bool) {num : Nat} (h : num ≠ 0) (den : Nat) :
    ofRatio negative num den =
      let q : Int := Max.max (floorLog2 num den - 52) (-1074)
      let bits := magnitudeBits (roundedAt num den q) q
      if 0x7ff0000000000000 ≤ bits then none else some (withSign negative bits) := by
  rw [ofRatio, if_neg h]
  rfl

/-- Rounding gives finite doubles. -/
theorem isFinite_of_ofRatio {negative : Bool} {num den : Nat} {x : Binary64} (h : ofRatio negative num den = some x) :
    x.isFinite = true := by
  by_cases hnum : num = 0
  · rw [ofRatio, if_pos hnum] at h
    obtain rfl := Option.some.inj h
    exact isFinite_withSign negative (by decide)
  · rw [ofRatio_eq negative hnum] at h
    simp only [Option.ite_none_left_eq_some, Option.some.injEq] at h
    obtain ⟨hbound, rfl⟩ := h
    exact isFinite_withSign negative (Nat.not_le.1 hbound)

/-- Rounding goes up by one at most. -/
theorem roundHalfEven_le (num den : Nat) : roundHalfEven num den ≤ num / den + 1 := by
  simp only [roundHalfEven]
  repeat' split
  all_goals omega

/-- Digits that do not reach a bound before they are rounded do not pass it afterwards. -/
theorem roundHalfEven_le_of_lt {num den b : Nat} (hden : 0 < den) (h : num < b * den) : roundHalfEven num den ≤ b :=
  Nat.le_trans (roundHalfEven_le num den) ((Nat.div_lt_iff_lt_mul hden).2 h)

theorem floorLog2_one {n : Nat} (h : n ≠ 0) : floorLog2 n 1 = n.log2 := by
  have hreached : 1 <<< n.log2 ≤ n := by
    rw [Nat.one_shiftLeft]
    exact Nat.log2_self_le h
  have hone : Nat.log2 1 = 0 := rfl
  simp [floorLog2, hone, hreached]

/-- In units that leave 53 digits, a natural number is rounded to no more digits, or to the next power of two. -/
theorem roundedAt_one_le (n : Nat) : roundedAt n 1 ((n.log2 : Int) - 52) ≤ 2 ^ 53 := by
  have hlog := Nat.lt_log2_self (n := n)
  unfold roundedAt
  split
  · rename_i hpositive
    refine roundHalfEven_le_of_lt (by rw [Nat.one_shiftLeft]; exact Nat.two_pow_pos _) ?_
    rw [Nat.one_shiftLeft, ← Nat.pow_add]
    exact Nat.lt_of_lt_of_le hlog (Nat.pow_le_pow_right (by decide) (by omega))
  · rename_i hnegative
    refine roundHalfEven_le_of_lt (by decide) ?_
    rw [Nat.mul_one, Nat.shiftLeft_eq]
    refine Nat.lt_of_lt_of_le (Nat.mul_lt_mul_of_pos_right hlog (Nat.two_pow_pos _)) ?_
    rw [← Nat.pow_add]
    exact Nat.pow_le_pow_right (by decide) (by omega)

/-- A natural number that fits a word rounds to a finite double. -/
theorem ofRatio_one_isSome (negative : Bool) {n : Nat} (h : n < 2 ^ 64) : (ofRatio negative n 1).isSome = true := by
  by_cases hn : n = 0
  · rw [ofRatio, if_pos hn]
    rfl
  · have hlog : n.log2 < 64 := (Nat.log2_lt hn).2 h
    have hscale : Max.max (floorLog2 n 1 - 52) (-1074) = (n.log2 : Int) - 52 := by
      rw [floorLog2_one hn]
      omega
    have hbits : magnitudeBits (roundedAt n 1 ((n.log2 : Int) - 52)) ((n.log2 : Int) - 52) < 0x7ff0000000000000 := by
      have hdigits := roundedAt_one_le n
      unfold magnitudeBits leadingBit
      split <;> omega
    rw [ofRatio_eq negative hn]
    simp only [hscale, if_neg (Nat.not_le.2 hbits), Option.isSome_some]

/-- An integer that fits a word widens to a finite double. -/
theorem isFinite_ofInt {i : Int} (h : Numeral.isWord i = true) : (ofInt i).isFinite = true := by
  simp only [Numeral.isWord, Bool.and_eq_true, decide_eq_true_eq] at h
  obtain ⟨x, hx⟩ := Option.isSome_iff_exists.1 (ofRatio_one_isSome (decide (i < 0)) (by omega : i.natAbs < 2 ^ 64))
  rw [ofInt, hx]
  exact isFinite_of_ofRatio hx

end Binary64

end PatchGraph
