import Mathlib.Algebra.Order.Field.Power
import Mathlib.Algebra.Order.Field.Rat
import Mathlib.Data.Rat.Cast.Order
import Mathlib.Tactic.Positivity
import InfixCalc.Binary64.Fields

/-!
# Decimal numbers in other units

The double nearest to a quotient depends on the quotient alone, so a decimal number may be given
with more digits and a smaller exponent.
-/

namespace InfixCalc.Binary64

open InfixCalc.Number

/- Powers with an exponent of either sign. -/

theorem zpow_of_nonneg (base : ℚ) {place : Int} (above : 0 ≤ place) :
    base ^ place = base ^ place.toNat := by
  rw [← zpow_natCast, Int.toNat_of_nonneg above]

theorem zpow_of_neg (base : ℚ) {place : Int} (below : ¬ 0 ≤ place) :
    base ^ place = (base ^ (-place).toNat)⁻¹ := by
  rw [← zpow_natCast, Int.toNat_of_nonneg (by omega), zpow_neg, inv_inv]

/- The binary exponent of a quotient. -/

theorem lt_shiftLeft_iff {num den : Nat} (positive : 0 < den) (e : Nat) :
    num < den <<< e ↔ (num : ℚ) / den < 2 ^ (e : Int) := by
  have denominator : (0 : ℚ) < den := by exact_mod_cast positive
  rw [div_lt_iff₀ denominator, Nat.shiftLeft_eq, Nat.mul_comm, zpow_natCast]
  norm_cast

theorem shiftLeft_lt_iff {num den : Nat} (positive : 0 < den) (e : Nat) :
    num <<< e < den ↔ (num : ℚ) / den < 2 ^ (-(e : Int)) := by
  have denominator : (0 : ℚ) < den := by exact_mod_cast positive
  have power : (0 : ℚ) < 2 ^ e := by positivity
  rw [div_lt_iff₀ denominator, zpow_neg, zpow_natCast, inv_mul_eq_div, lt_div_iff₀ power,
    Nat.shiftLeft_eq]
  norm_cast

theorem log2_bounds {n : Nat} (positive : 0 < n) :
    (2 : ℚ) ^ (n.log2 : Int) ≤ n ∧ (n : ℚ) < 2 ^ ((n.log2 : Int) + 1) := by
  constructor
  · rw [zpow_natCast]
    exact_mod_cast Nat.log2_self_le (Nat.ne_of_gt positive)
  · have high := Nat.lt_log2_self (n := n)
    exact_mod_cast high

theorem binaryExponent_bounds {num den : Nat} (numerator : 0 < num) (denominator : 0 < den) :
    (2 : ℚ) ^ binaryExponent num den ≤ num / den ∧
      (num : ℚ) / den < 2 ^ (binaryExponent num den + 1) := by
  obtain ⟨numLow, numHigh⟩ := log2_bounds numerator
  obtain ⟨denLow, denHigh⟩ := log2_bounds denominator
  have positive : (0 : ℚ) < den := by exact_mod_cast denominator
  have two : (2 : ℚ) ≠ 0 := two_ne_zero
  -- the guess is off by one place at most
  have low : (2 : ℚ) ^ ((num.log2 : Int) - den.log2 - 1) ≤ num / den := by
    rw [le_div_iff₀ positive]
    calc (2 : ℚ) ^ ((num.log2 : Int) - den.log2 - 1) * den
        ≤ 2 ^ ((num.log2 : Int) - den.log2 - 1) * 2 ^ ((den.log2 : Int) + 1) := by
          gcongr
      _ = 2 ^ (num.log2 : Int) := by
          rw [← zpow_add₀ two]
          congr 1
          omega
      _ ≤ num := numLow
  have high : (num : ℚ) / den < 2 ^ ((num.log2 : Int) - den.log2 + 1) := by
    rw [div_lt_iff₀ positive]
    calc (num : ℚ) < 2 ^ ((num.log2 : Int) + 1) := numHigh
      _ = 2 ^ ((num.log2 : Int) - den.log2 + 1) * 2 ^ (den.log2 : Int) := by
          rw [← zpow_add₀ two]
          congr 1
          omega
      _ ≤ 2 ^ ((num.log2 : Int) - den.log2 + 1) * den := by
          gcongr
  have below (guess : Int) : (if 0 ≤ guess then num < den <<< guess.toNat
      else num <<< (-guess).toNat < den) ↔ (num : ℚ) / den < 2 ^ guess := by
    split
    · rename_i nonneg
      rw [lt_shiftLeft_iff denominator, Int.toNat_of_nonneg nonneg]
    · rename_i negative
      rw [shiftLeft_lt_iff denominator, Int.toNat_of_nonneg (by omega), neg_neg]
  unfold binaryExponent
  by_cases under : (num : ℚ) / den < 2 ^ ((num.log2 : Int) - den.log2)
  · rw [if_pos ((below _).mpr under), sub_add_cancel]
    exact ⟨low, under⟩
  · rw [if_neg (mt (below _).mp under)]
    exact ⟨not_lt.mp under, high⟩

theorem eq_of_zpow_bounds {x : ℚ} {d e : Int} (lowLeft : (2 : ℚ) ^ d ≤ x)
    (highLeft : x < 2 ^ (d + 1)) (lowRight : (2 : ℚ) ^ e ≤ x) (highRight : x < 2 ^ (e + 1)) :
    d = e := by
  have one : (1 : ℚ) < 2 := one_lt_two
  have first := (zpow_lt_zpow_iff_right₀ one).mp (lt_of_le_of_lt lowLeft highRight)
  have second := (zpow_lt_zpow_iff_right₀ one).mp (lt_of_le_of_lt lowRight highLeft)
  omega

theorem binaryExponent_mul {k : Nat} (positive : 0 < k) {num den : Nat} (numerator : 0 < num)
    (denominator : 0 < den) :
    binaryExponent (k * num) (k * den) = binaryExponent num den := by
  have factor : (k : ℚ) ≠ 0 := by exact_mod_cast Nat.ne_of_gt positive
  obtain ⟨low, high⟩ := binaryExponent_bounds numerator denominator
  obtain ⟨scaledLow, scaledHigh⟩ := binaryExponent_bounds (Nat.mul_pos positive numerator)
    (Nat.mul_pos positive denominator)
  rw [Nat.cast_mul, Nat.cast_mul, mul_div_mul_left _ _ factor] at scaledLow scaledHigh
  exact eq_of_zpow_bounds scaledLow scaledHigh low high

/- Units. -/

theorem quotient_mul (mode : Rounding) (negative : Bool) {k : Nat} (positive : 0 < k)
    (num den : Nat) :
    mode.quotient negative (k * num) (k * den) = mode.quotient negative num den := by
  have half : compare (2 * (k * (num % den))) (k * den) = compare (2 * (num % den)) den := by
    rw [Nat.mul_left_comm]
    simp only [Nat.compare_eq_ite_lt, Nat.mul_lt_mul_left positive]
  have exact : k * (num % den) = 0 ↔ num % den = 0 := by
    simp [Nat.ne_of_gt positive]
  simp only [Rounding.quotient, Nat.mul_div_mul_left _ _ positive, Nat.mul_mod_mul_left, half,
    exact]

/-- The nearest double depends on the quotient alone. -/
theorem ratioWord_mul {k : Nat} (positive : 0 < k) (num : Nat) {den : Nat}
    (denominator : 0 < den) : ratioWord (k * num) (k * den) = ratioWord num den := by
  unfold ratioWord
  by_cases none_ : num = 0
  · simp [none_]
  · have some_ : k * num ≠ 0 := Nat.mul_ne_zero (Nat.ne_of_gt positive) none_
    have shifted (n e : Nat) : (k * n) <<< e = k * n <<< e := by
      rw [Nat.shiftLeft_eq, Nat.shiftLeft_eq, Nat.mul_assoc]
    rw [if_neg none_, if_neg some_,
      binaryExponent_mul positive (Nat.pos_of_ne_zero none_) denominator]
    simp only [shifted, quotient_mul _ _ positive]

theorem digitCount_ten_mul {n : Nat} (positive : n ≠ 0) :
    digitCount (10 * n) = digitCount n + 1 := by
  have low := pow_digitCount_le positive
  have high := lt_pow_digitCount n
  have scaledLow := pow_digitCount_le (n := 10 * n) (by omega)
  have scaledHigh := lt_pow_digitCount (10 * n)
  have count := digitCount_pos n
  have scaledCount := digitCount_pos (10 * n)
  rw [Nat.pow_eq] at low high scaledLow scaledHigh
  have whole : 10 ^ digitCount n = 10 * 10 ^ (digitCount n - 1) := by
    rw [← Nat.pow_succ', Nat.succ_eq_add_one, Nat.sub_add_cancel count]
  have above : 10 ^ digitCount n < 10 ^ digitCount (10 * n) := by omega
  have below : 10 ^ (digitCount (10 * n) - 1) < 10 ^ (digitCount n + 1) := by
    rw [Nat.pow_succ]
    omega
  have more := (Nat.pow_lt_pow_iff_right (by decide)).mp above
  have fewer := (Nat.pow_lt_pow_iff_right (by decide)).mp below
  omega

theorem digitCount_mul_pow {n : Nat} (positive : n ≠ 0) (zeros : Nat) :
    digitCount (n * 10 ^ zeros) = digitCount n + zeros := by
  induction zeros with
  | zero => rw [Nat.pow_zero, Nat.mul_one, Nat.add_zero]
  | succ zeros ih =>
    have some_ : n * 10 ^ zeros ≠ 0 :=
      Nat.mul_ne_zero positive (Nat.ne_of_gt (Nat.pow_pos (by decide)))
    have next : n * 10 ^ (zeros + 1) = 10 * (n * 10 ^ zeros) := by
      rw [Nat.pow_succ, ← Nat.mul_assoc, Nat.mul_comm]
    rw [next, digitCount_ten_mul some_, ih, Nat.add_assoc]

/-- One more zero among the digits is one less in the exponent. -/
theorem ofDecimal_ten_mul (negative : Bool) (digits : Nat) (exponent : Int) :
    ofDecimal negative (10 * digits) (exponent - 1) = ofDecimal negative digits exponent := by
  unfold ofDecimal
  by_cases zero : digits = 0
  · simp [zero]
  · have notZero : 10 * digits ≠ 0 := by omega
    have size : (digitCount (10 * digits) : Int) + (exponent - 1) =
        digitCount digits + exponent := by
      rw [digitCount_ten_mul zero]
      push_cast
      omega
    have value : (if 0 ≤ exponent - 1
        then ofRatio negative (10 * digits * Nat.pow 10 (exponent - 1).toNat) 1
        else ofRatio negative (10 * digits) (Nat.pow 10 (-(exponent - 1)).toNat)) =
          if 0 ≤ exponent then ofRatio negative (digits * Nat.pow 10 exponent.toNat) 1
          else ofRatio negative digits (Nat.pow 10 (-exponent).toNat) := by
      by_cases above : 0 ≤ exponent - 1
      · have next : exponent.toNat = (exponent - 1).toNat + 1 := by omega
        rw [if_pos above, if_pos (by omega), next, Nat.pow_eq, Nat.pow_eq, Nat.pow_succ',
          Nat.mul_left_comm, Nat.mul_assoc]
      · have next : (-(exponent - 1)).toNat = (-exponent).toNat + 1 := by omega
        have power : 0 < 10 ^ (-exponent).toNat := Nat.pow_pos (by decide)
        rw [if_neg above, next, Nat.pow_eq, Nat.pow_succ', ofRatio,
          ratioWord_mul (by decide) digits power]
        split
        · have here : exponent = 0 := by omega
          subst here
          simp [ofRatio]
        · rfl
    simp only [if_neg zero, if_neg notZero, size, value]

end InfixCalc.Binary64
