import Mathlib.Algebra.Order.Field.Power
import Mathlib.Algebra.Order.Ring.Rat
import Mathlib.Tactic.LinearCombination
import Mathlib.Tactic.Linarith
import Mathlib.Tactic.NormNum
import Mathlib.Tactic.Positivity
import Mathlib.Tactic.Ring
import PatchGraph.Proofs.Number.Binary64

/-!
# The shortest decimal of a double

The search for the shortest decimal always finds one: its last grid is finer than a quarter of the distance to the next double, so the
neighbour below is near enough (`onGrid_ne_none`). What it finds lies among the numbers that round to the double (`Rounds`), and no
number rounds to two doubles (`Rounds.unique`). So the decimal tells which double it was made from.
-/

namespace PatchGraph.Shortest

variable {tie : Tie} {m d : Nat} {q k : Int}

/-! ## Exact values -/

/-- A power with a sign is a quotient of powers without one. -/
theorem zpow_toNat {b : ℚ} (hb : b ≠ 0) (k : Int) : b ^ k.toNat = b ^ k * b ^ (-k).toNat := by
  rw [← zpow_natCast, ← zpow_natCast, ← zpow_add₀ hb]
  congr 1
  omega

theorem scaled_pos (a : Nat) (p k : Int) : 0 < (scaled a p k).2 := by
  simp only [scaled, Nat.shiftLeft_eq]
  exact Nat.mul_pos (Nat.pow_pos (by decide)) (Nat.pow_pos (by decide))

/-- A scaled number is a ratio in which nothing is lost. -/
theorem scaled_eq (a : Nat) (p k : Int) : ((scaled a p k).1 : ℚ) = a * 2 ^ p * 10 ^ k * (scaled a p k).2 := by
  have htwo := zpow_toNat (b := 2) (by norm_num) p
  have hten := zpow_toNat (b := 10) (by norm_num) k
  simp only [scaled, Nat.shiftLeft_eq, Nat.pow_eq]
  push_cast
  rw [htwo, hten]
  ring

/-- The comparison with a scaled value from below is exact. -/
theorem mul_le_scaled_iff (n a : Nat) (p k : Int) :
    n * (scaled a p k).2 ≤ (scaled a p k).1 ↔ (n : ℚ) ≤ a * 2 ^ p * 10 ^ k := by
  have hpos : (0 : ℚ) < (scaled a p k).2 := by exact_mod_cast scaled_pos a p k
  rw [← Nat.cast_le (α := ℚ), scaled_eq, Nat.cast_mul]
  exact mul_le_mul_iff_of_pos_right hpos

/-- The comparison with a scaled value from above is exact. -/
theorem scaled_le_mul_iff (n a : Nat) (p k : Int) :
    (scaled a p k).1 ≤ n * (scaled a p k).2 ↔ a * 2 ^ p * 10 ^ k ≤ (n : ℚ) := by
  have hpos : (0 : ℚ) < (scaled a p k).2 := by exact_mod_cast scaled_pos a p k
  rw [← Nat.cast_le (α := ℚ), scaled_eq, Nat.cast_mul]
  exact mul_le_mul_iff_of_pos_right hpos

/-- The reals that round to `m * 2 ^ q`. -/
def Rounds (m : Nat) (q : Int) (t : ℚ) : Prop :=
  let low : ℚ := (bounds m q).1 * 2 ^ (q - 2)
  let high : ℚ := (bounds m q).2 * 2 ^ (q - 2)
  if m % 2 = 0 then low ≤ t ∧ t ≤ high else low < t ∧ t < high

/-- A decimal is a hit if it lies among the numbers that round to the double. -/
theorem hits_iff : hits m q d k = true ↔ Rounds m q (d * 10 ^ k) := by
  have hunit : (0 : ℚ) < 2 ^ (q - 2) := by positivity
  have hvalue : (d : ℚ) * 2 ^ (2 - q) * 10 ^ k = d * 10 ^ k * (2 ^ (q - 2))⁻¹ := by
    rw [← zpow_neg, neg_sub]
    ring
  have hle : ∀ n : Nat, n * (scaled d (2 - q) k).2 ≤ (scaled d (2 - q) k).1 ↔ (n : ℚ) * 2 ^ (q - 2) ≤ d * 10 ^ k := fun n => by
    rw [mul_le_scaled_iff, hvalue, le_mul_inv_iff₀ hunit]
  have hge : ∀ n : Nat, (scaled d (2 - q) k).1 ≤ n * (scaled d (2 - q) k).2 ↔ (d : ℚ) * 10 ^ k ≤ n * 2 ^ (q - 2) := fun n => by
    rw [scaled_le_mul_iff, hvalue, mul_inv_le_iff₀ hunit]
  simp only [hits, Rounds]
  split
  · rw [Bool.and_eq_true, decide_eq_true_eq, decide_eq_true_eq, hle, hge]
  · rw [Bool.and_eq_true, decide_eq_true_eq, decide_eq_true_eq, ← not_le, ← not_le, hle, hge, not_le, not_le]

/-! ## The last grid -/

theorem two_zpow_eq (q : Int) : (2 : ℚ) ^ q = 4 * 2 ^ (q - 2) := by
  rw [zpow_sub₀ (by norm_num)]
  norm_num
  ring

/-- What is below `m * 2 ^ q` by less than a quarter of the unit rounds to it. -/
theorem rounds_of_lt {t : ℚ} (hm : 0 < m) (hle : t ≤ m * 2 ^ q) (hlt : m * 2 ^ q < t + 2 ^ (q - 2)) : Rounds m q t := by
  have hunit : (0 : ℚ) < 2 ^ (q - 2) := by positivity
  have hlow : ((bounds m q).1 : ℚ) ≤ 4 * m - 1 := by
    have hnat : (bounds m q).1 + 1 ≤ 4 * m := by
      simp only [bounds]
      split <;> omega
    have hcast : ((bounds m q).1 : ℚ) + 1 ≤ 4 * m := by exact_mod_cast hnat
    linarith
  have hhigh : ((bounds m q).2 : ℚ) = 4 * m + 2 := by simp [bounds]
  rw [two_zpow_eq] at hle hlt
  have hbelow := mul_le_mul_of_nonneg_right hlow hunit.le
  have habove : (0 : ℚ) ≤ m * 2 ^ (q - 2) := by positivity
  simp only [Rounds, hhigh]
  split
  · constructor <;> linarith
  · constructor <;> linarith

/-- The neighbour of `m * 2 ^ q` below it on the grid of unit `10 ^ k`. -/
theorem floor_bounds (m : Nat) (q k : Int) :
    let d := (scaled m q (-k)).1 / (scaled m q (-k)).2
    (d : ℚ) * 10 ^ k ≤ m * 2 ^ q ∧ (m : ℚ) * 2 ^ q < (d + 1) * 10 ^ k := by
  intro d
  have hten : (0 : ℚ) < 10 ^ k := by positivity
  have hvalue : (m : ℚ) * 2 ^ q * 10 ^ (-k) = m * 2 ^ q * (10 ^ k)⁻¹ := by rw [zpow_neg]
  constructor
  · have hle := (mul_le_scaled_iff d m q (-k)).1 (Nat.div_mul_le_self _ _)
    rwa [hvalue, le_mul_inv_iff₀ hten] at hle
  · have hlt : ¬(d + 1) * (scaled m q (-k)).2 ≤ (scaled m q (-k)).1 :=
      Nat.not_le.2 ((Nat.div_lt_iff_lt_mul (scaled_pos m q (-k))).1 (Nat.lt_succ_self d))
    rw [mul_le_scaled_iff, hvalue, le_mul_inv_iff₀ hten, not_le] at hlt
    exact_mod_cast hlt

/-- On a grid that is fine enough there is a decimal that rounds to the value. -/
theorem onGrid_ne_none (tie : Tie) (hm : 0 < m) (hk : (10 : ℚ) ^ k ≤ 2 ^ (q - 2)) : onGrid tie m q k ≠ none := by
  obtain ⟨hle, hlt⟩ := floor_bounds m q k
  set d := (scaled m q (-k)).1 / (scaled m q (-k)).2 with hd
  have hhits : hits m q d k = true := hits_iff.2 (rounds_of_lt hm hle (by linarith))
  have hne : d ≠ 0 := by
    intro hzero
    have hunit : (0 : ℚ) < 2 ^ (q - 2) := by positivity
    have hone : (1 : ℚ) ≤ m := by exact_mod_cast hm
    have hbelow := mul_le_mul_of_nonneg_right hone hunit.le
    rw [hzero, two_zpow_eq] at hlt
    push_cast at hlt
    linarith
  have htest : (hits m q d k && d != 0) = true := by simp [hhits, hne]
  simp only [onGrid, ← hd, htest]
  split <;> grind

/-- What is found on a grid is no zero and rounds to the value. -/
theorem rounds_of_onGrid (h : onGrid tie m q k = some d) : d ≠ 0 ∧ Rounds m q (d * 10 ^ k) := by
  simp only [onGrid] at h
  rw [← hits_iff]
  grind

/-- The search finds a decimal that rounds to the value, if its last grid is fine enough. -/
theorem rounds_search (hm : 0 < m) (n : Nat) (k : Int) (hk : (10 : ℚ) ^ (k - n) ≤ 2 ^ (q - 2)) :
    (search tie m q (n + 1) k).digits ≠ 0
      ∧ Rounds m q ((search tie m q (n + 1) k).digits * 10 ^ (search tie m q (n + 1) k).exponent) := by
  induction n generalizing k with
  | zero =>
    rw [search]
    split
    case h_1 d hd => exact rounds_of_onGrid hd
    case h_2 hnone => exact absurd hnone (onGrid_ne_none tie hm (by simpa using hk))
  | succ n ih =>
    rw [search]
    split
    case h_1 d hd => exact rounds_of_onGrid hd
    case h_2 => exact ih (k - 1) (by push_cast at hk; rwa [show k - 1 - (n : Int) = k - (n + 1) by ring])

/-- Powers of ten below powers of two: `10 ^ 3` is below `2 ^ 10`, and `10 ^ 10` is above `2 ^ 33`. -/
theorem ten_zpow_le {k j : Int} (hpositive : 10 * k ≤ 3 * j) (hnegative : 33 * k ≤ 10 * j) : (10 : ℚ) ^ k ≤ 2 ^ j := by
  rcases Int.le_total 0 k with hk | hk
  · rw [← zpow_le_zpow_iff_left₀ (n := 3) (by positivity) (by positivity) (by norm_num)]
    calc ((10 : ℚ) ^ k) ^ (3 : Int) = (10 ^ (3 : Int)) ^ k := by rw [← zpow_mul, ← zpow_mul, mul_comm]
      _ ≤ (2 ^ (10 : Int)) ^ k := zpow_le_zpow_left₀ hk (by positivity) (by norm_num)
      _ = 2 ^ (10 * k) := (zpow_mul _ _ _).symm
      _ ≤ 2 ^ (3 * j) := zpow_le_zpow_right₀ (by norm_num) hpositive
      _ = (2 ^ j) ^ (3 : Int) := by rw [← zpow_mul, mul_comm]
  · rw [← zpow_le_zpow_iff_left₀ (n := 10) (by positivity) (by positivity) (by norm_num)]
    have hinverse : ((2 : ℚ) ^ (33 : Int)) ^ (-k) ≤ (10 ^ (10 : Int)) ^ (-k) :=
      zpow_le_zpow_left₀ (by omega) (by positivity) (by norm_num)
    calc ((10 : ℚ) ^ k) ^ (10 : Int) = ((10 ^ (10 : Int)) ^ (-k))⁻¹ := by
          rw [← zpow_mul, ← zpow_mul, ← zpow_neg, mul_neg, neg_neg, mul_comm]
      _ ≤ ((2 ^ (33 : Int)) ^ (-k))⁻¹ := inv_anti₀ (by positivity) hinverse
      _ = 2 ^ (33 * k) := by rw [← zpow_mul, ← zpow_neg, mul_neg, neg_neg]
      _ ≤ 2 ^ (10 * j) := zpow_le_zpow_right₀ (by norm_num) hnegative
      _ = (2 ^ j) ^ (10 : Int) := by rw [← zpow_mul, mul_comm]

/-- The shortest decimal of a double is no zero and rounds to the double. -/
theorem rounds_shortest (tie : Tie) {x : Binary64} (hfinite : x.isFinite = true) (hzero : x.isZero = false) :
    (x.shortest tie).digits ≠ 0
      ∧ Rounds x.significand x.scale ((x.shortest tie).digits * 10 ^ (x.shortest tie).exponent) := by
  have hpos := Binary64.significand_pos hzero
  have hlow := x.le_scale
  have hhigh := Binary64.scale_le hfinite
  have hlog : x.significand.log2 < 53 := (Nat.log2_lt (by omega)).2 x.significand_lt
  exact rounds_search hpos 20 _ (ten_zpow_le (by simp only [topExponent]; omega) (by simp only [topExponent]; omega))

/-! ## One double for each decimal -/

/-- The pairs of a significand and a scale that doubles have: only at the smallest scale is the significand without its leading bit. -/
structure Canonical (m : Nat) (q : Int) : Prop where
  lt : m < 2 * Binary64.leadingBit
  leading : -1074 < q → Binary64.leadingBit ≤ m
  least : -1074 ≤ q

/-- What rounds to a double is no further away than the middle to the next. -/
theorem Rounds.le {t : ℚ} (h : Rounds m q t) : (bounds m q).1 * 2 ^ (q - 2) ≤ t ∧ t ≤ (4 * m + 2) * 2 ^ (q - 2) := by
  have hhigh : ((bounds m q).2 : ℚ) = 4 * m + 2 := by simp [bounds]
  simp only [Rounds, hhigh] at h
  split at h
  · exact h
  · exact ⟨h.1.le, h.2.le⟩

/-- If the significand is odd, the middle itself does not round to the double. -/
theorem Rounds.lt {t : ℚ} (hm : m % 2 ≠ 0) (h : Rounds m q t) :
    (bounds m q).1 * 2 ^ (q - 2) < t ∧ t < (4 * m + 2) * 2 ^ (q - 2) := by
  have hhigh : ((bounds m q).2 : ℚ) = 4 * m + 2 := by simp [bounds]
  simpa only [Rounds, hhigh, if_neg hm] using h

/-- No number rounds to two doubles of one scale. -/
theorem not_rounds_of_lt {m' : Nat} {t : ℚ} (h : Rounds m q t) (h' : Rounds m' q t) : ¬m < m' := by
  intro hlt
  have hunit : (0 : ℚ) < 2 ^ (q - 2) := by positivity
  have hlow : 4 * m' ≤ (bounds m' q).1 + 2 := by
    simp only [bounds]
    split <;> omega
  have hbelow : ((4 * m' : Nat) : ℚ) * 2 ^ (q - 2) ≤ ((bounds m' q).1 + 2 : Nat) * 2 ^ (q - 2) :=
    mul_le_mul_of_nonneg_right (by exact_mod_cast hlow) hunit.le
  push_cast at hbelow
  by_cases hodd : m % 2 = 0 ∧ m' % 2 = 0
  · have hgap : ((m + 2 : Nat) : ℚ) * 2 ^ (q - 2) ≤ m' * 2 ^ (q - 2) :=
      mul_le_mul_of_nonneg_right (by exact_mod_cast (by omega : m + 2 ≤ m')) hunit.le
    push_cast at hgap
    linarith [h.le.2, h'.le.1]
  · have hgap : ((m + 1 : Nat) : ℚ) * 2 ^ (q - 2) ≤ m' * 2 ^ (q - 2) :=
      mul_le_mul_of_nonneg_right (by exact_mod_cast hlt) hunit.le
    push_cast at hgap
    by_cases heven : m % 2 = 0
    · linarith [h.le.2, (h'.lt fun hm' => hodd ⟨heven, hm'⟩).1]
    · linarith [(h.lt heven).2, h'.le.1]

/-- No number rounds to two doubles of different scales. -/
theorem not_rounds_of_scale_lt {m' : Nat} {q' : Int} {t : ℚ} (hm : Canonical m q) (hm' : Canonical m' q') (h : Rounds m q t)
    (h' : Rounds m' q' t) : ¬q < q' := by
  intro hlt
  have hunit : (0 : ℚ) < 2 ^ (q - 2) := by positivity
  have hscale : (2 : ℚ) * 2 ^ (q - 2) ≤ 2 ^ (q' - 2) := by
    rw [← zpow_one_add₀ (by norm_num)]
    exact zpow_le_zpow_right₀ (by norm_num) (by omega)
  have hlow : (4 * Binary64.leadingBit - 1 : ℚ) ≤ (bounds m' q').1 := by
    have hleast := hm.least
    have hleading := hm'.leading (by omega)
    have hnat : 4 * Binary64.leadingBit ≤ (bounds m' q').1 + 1 := by
      simp only [bounds]
      split <;> omega
    have hcast : (4 * Binary64.leadingBit : ℚ) ≤ (bounds m' q').1 + 1 := by exact_mod_cast hnat
    linarith
  have hlead : (1 : ℚ) ≤ Binary64.leadingBit := by exact_mod_cast (by decide : 1 ≤ Binary64.leadingBit)
  -- the lower end of the larger double, in units of the smaller one
  have hbelow : (8 * Binary64.leadingBit - 2 : ℚ) * 2 ^ (q - 2) ≤ t := by
    calc (8 * Binary64.leadingBit - 2 : ℚ) * 2 ^ (q - 2) = (4 * Binary64.leadingBit - 1) * (2 * 2 ^ (q - 2)) := by ring
      _ ≤ (bounds m' q').1 * 2 ^ (q' - 2) := mul_le_mul hlow hscale (by positivity) (by positivity)
      _ ≤ t := h'.le.1
  have habove : ((m + 1 : Nat) : ℚ) * 2 ^ (q - 2) ≤ (2 * Binary64.leadingBit : Nat) * 2 ^ (q - 2) :=
    mul_le_mul_of_nonneg_right (by exact_mod_cast hm.lt) hunit.le
  push_cast at habove
  by_cases heven : m % 2 = 0
  · have hfar : ((m + 2 : Nat) : ℚ) * 2 ^ (q - 2) ≤ (2 * Binary64.leadingBit : Nat) * 2 ^ (q - 2) := by
      have hlt := hm.lt
      exact mul_le_mul_of_nonneg_right (by exact_mod_cast (by omega : m + 2 ≤ 2 * Binary64.leadingBit)) hunit.le
    push_cast at hfar
    linarith [h.le.2]
  · linarith [(h.lt heven).2]

/-- No number rounds to two doubles. -/
theorem Rounds.unique {m' : Nat} {q' : Int} {t : ℚ} (hm : Canonical m q) (hm' : Canonical m' q') (h : Rounds m q t)
    (h' : Rounds m' q' t) : m = m' ∧ q = q' := by
  obtain rfl : q = q' :=
    Int.le_antisymm (Int.not_lt.1 (not_rounds_of_scale_lt hm' hm h' h)) (Int.not_lt.1 (not_rounds_of_scale_lt hm hm' h h'))
  exact ⟨Nat.le_antisymm (Nat.not_lt.1 (not_rounds_of_lt h' h)) (Nat.not_lt.1 (not_rounds_of_lt h h')), rfl⟩

/-- The significand and the scale of a double are such a pair. -/
theorem canonical (x : Binary64) : Canonical x.significand x.scale :=
  ⟨x.significand_lt, Binary64.leadingBit_le, x.le_scale⟩

end PatchGraph.Shortest
