import Mathlib.Analysis.Complex.ExponentialBounds
import InfixCalc.Proofs.Decimal.Reals

/-!
# How far the root of a cube is off

The root of a cube goes through a logarithm that is correctly rounded, a third of it that is rounded
in the mode of the context, and an exponential that is correctly rounded. For a cube with no more
digits than the context, what comes out is less than the slack of the mode away from the root: a
half, or one in a directed mode.
-/

namespace InfixCalc.Context

open InfixCalc.Number

/-- The figures of the root of the cube of a number: its logarithm, the third part of that, and the
exponential of the third part. -/
structure CubeFigures (ctx : Context) (n : Nat) (l q r : ℚ) : Prop where
  log : ctx.IsNearest (Real.log ((n : ℝ) ^ 3)) l
  third : q = ctx.rounded (l / 3)
  exp : ctx.IsNearest (Real.exp q) r

theorem abs_exp_sub_le {n q d : ℝ} (positive : 0 < n) (drift : |q - Real.log n| ≤ d)
    (small : d ≤ 1) : |Real.exp q - n| ≤ n * (d + d ^ 2) := by
  have scaled : Real.exp q - n = n * (Real.exp (q - Real.log n) - 1) := by
    rw [Real.exp_sub, Real.exp_log positive, mul_sub, mul_div_cancel₀ _ positive.ne', mul_one]
  have nonneg := (abs_nonneg (q - Real.log n)).trans drift
  have square : (q - Real.log n) ^ 2 ≤ d ^ 2 := by
    rw [← sq_abs]
    exact pow_le_pow_left₀ (abs_nonneg _) drift 2
  have near := Real.abs_exp_sub_one_sub_id_le (drift.trans small)
  have split := abs_add_le (Real.exp (q - Real.log n) - 1 - (q - Real.log n)) (q - Real.log n)
  rw [sub_add_cancel] at split
  rw [scaled, abs_mul, abs_of_pos positive]
  exact mul_le_mul_of_nonneg_left (by linarith) positive.le

variable {ctx : Context} {n : Nat} {l q r : ℚ}

theorem CubeFigures.log_eq (n : Nat) : Real.log ((n : ℝ) ^ 3) = 3 * Real.log n := by
  rw [Real.log_pow]
  norm_num

theorem IsStandard.lastPlace_le (standard : ctx.IsStandard) : ctx.lastPlace ≤ -ctx.precision := by
  rw [lastPlace, standard.least]
  omega

theorem IsStandard.low (standard : ctx.IsStandard) : ctx.lastPlace ≤ 0 :=
  standard.lastPlace_le.trans (by omega)

theorem IsStandard.holds_abs_one (standard : ctx.IsStandard) : ctx.Holds |(1 : ℚ)| :=
  abs_one (α := ℚ) ▸ holds_one standard.low

theorem holds_zero (ctx : Context) : ctx.Holds |(0 : ℚ)| :=
  ⟨0, ctx.lastPlace, by simp, Nat.zero_le _, le_rfl⟩

theorem log_le_half {x : ℝ} (positive : 0 < x) : Real.log x ≤ x / 2 := by
  have half := Real.log_le_sub_one_of_pos (half_pos positive)
  rw [Real.log_div positive.ne' (by norm_num)] at half
  linarith [Real.log_two_lt_d9]

/-- The rounded logarithm of a cube is not below zero, and no further from the exact one than zero
is. -/
theorem IsNearest.log_cube_bounds {w : ℚ} (nearest : ctx.IsNearest (Real.log ((n : ℝ) ^ 3)) w)
    (positive : 0 < n) : 0 ≤ w ∧ w / 3 ≤ n := by
  have nonneg : 0 ≤ Real.log ((n : ℝ) ^ 3) :=
    Real.log_nonneg (one_le_pow₀ (by exact_mod_cast positive))
  have far := nearest.near 0 ctx.holds_zero
  have half := log_le_half (show (0 : ℝ) < n by exact_mod_cast positive)
  rw [Rat.cast_zero, sub_zero, abs_of_nonneg nonneg, CubeFigures.log_eq] at far
  have most : (w : ℝ) / 3 ≤ n := by linarith [(abs_le.mp far).1]
  exact ⟨nearest.le_of_holds ctx.holds_zero (by simpa using nonneg), by exact_mod_cast most⟩

theorem CubeFigures.third_nonneg (figures : ctx.CubeFigures n l q r) (positive : 0 < n) :
    0 ≤ q := by
  rw [figures.third, rounded_of_nonneg (div_nonneg (figures.log.log_cube_bounds positive).1
    (by norm_num))]
  exact nearest_nonneg

/-- The third part of the logarithm is off by the slack of the mode where its digits end. -/
theorem CubeFigures.abs_third_sub_le (figures : ctx.CubeFigures n l q r) (nonneg : 0 ≤ l) {j : ℤ}
    (place : ctx.place (l / 3) ≤ j) : |(q : ℝ) - l / 3| ≤ ctx.rounding.slack * 10 ^ j := by
  have third : 0 ≤ l / 3 := by linarith
  have slack := ctx.rounding.half_le_slack
  have near : |q - l / 3| ≤ ctx.rounding.slack * 10 ^ j := by
    rw [figures.third, rounded_of_nonneg third]
    refine (abs_nearest_sub_le third).trans ?_
    exact mul_le_mul_of_nonneg_left (ten_zpow_le place) (by linarith)
  have cast := (Rat.cast_le (K := ℝ)).mpr near
  push_cast at cast
  exact cast

/-- The root is off by what its logarithm is off, and by half of its last digit. -/
theorem CubeFigures.abs_root_sub_le (figures : ctx.CubeFigures n l q r)
    (low : ctx.lastPlace ≤ 1 - ctx.precision) (positive : 0 < n) {d : ℝ}
    (drift : |q - Real.log n| ≤ d) (small : d ≤ 1) :
    |(r : ℝ) - n| ≤ n * (d + d ^ 2) * (1 + 10 ^ (1 - ctx.precision : ℤ) / 2) +
      n * 10 ^ (1 - ctx.precision : ℤ) / 2 := by
  have off := abs_exp_sub_le (by exact_mod_cast positive) drift small
  have one : (1 : ℝ) ≤ Real.exp q :=
    Real.one_le_exp (by exact_mod_cast figures.third_nonneg positive)
  have last := figures.exp.abs_sub_le_mul one low
  have step : (0 : ℝ) < 10 ^ (1 - ctx.precision : ℤ) := zpow_pos (by norm_num) _
  have most : Real.exp q ≤ n + n * (d + d ^ 2) := by linarith [le_abs_self (Real.exp q - n)]
  have grown := mul_le_mul_of_nonneg_right most step.le
  have split := abs_sub_le (r : ℝ) (Real.exp q) n
  rw [abs_sub_comm] at last
  linarith

/-- Small numbers have logarithms with one digit before the point. -/
theorem log_lt_of_lt_twenty {x : ℝ} (positive : 0 < x) (less : x < 20) : Real.log x < 10 / 3 := by
  rw [Real.log_lt_iff_lt_exp positive]
  have three : (2.7 : ℝ) ^ 3 ≤ Real.exp 1 ^ 3 :=
    pow_le_pow_left₀ (by norm_num) (by linarith [Real.exp_one_gt_d9]) 3
  have third := Real.add_one_le_exp (1 / 3 : ℝ)
  have split : Real.exp (10 / 3) = Real.exp 1 ^ 3 * Real.exp (1 / 3) := by
    rw [← Real.exp_nat_mul, ← Real.exp_add]
    norm_num
  rw [split]
  nlinarith

theorem two_le_log_cube (two : 2 ≤ n) : 2 ≤ Real.log ((n : ℝ) ^ 3) := by
  have le : Real.log 2 ≤ Real.log n := Real.log_le_log (by norm_num) (by exact_mod_cast two)
  rw [CubeFigures.log_eq]
  linarith [Real.log_two_gt_d9]

/-- With two digits at least, a number whose cube has no more digits than there are is small beside
them. -/
theorem mul_le_of_cube_lt {p : Nat} (digits : 2 ≤ p) (few : n ^ 3 < 10 ^ p) :
    (n : ℝ) * 10 ^ (1 - p : ℤ) ≤ 2 / 5 := by
  have scaled : 25 * n ≤ 10 ^ p := by
    rcases lt_or_ge n 5 with small | large
    · have hundred : 10 ^ 2 ≤ 10 ^ p := Nat.pow_le_pow_right (by norm_num) digits
      omega
    · have square : 5 ^ 2 ≤ n ^ 2 := Nat.pow_le_pow_left large 2
      nlinarith
  have cast : (25 : ℝ) * n ≤ 10 ^ p := by exact_mod_cast scaled
  rw [zpow_sub₀ (by norm_num), zpow_one, zpow_natCast, mul_div_assoc', div_le_iff₀ (by positivity)]
  linarith

theorem step_le {p : Nat} {k : ℤ} (digits : 1 - k ≤ p) : (10 : ℝ) ^ (1 - p : ℤ) ≤ 10 ^ k :=
  zpow_le_zpow_right₀ (by norm_num) (by omega)

/-- Two thirds of a digit, or seven sixths of one in a directed mode, do not add up to the slack. -/
theorem drift_lt_slack (mode : Rounding) {m t : ℝ} (nonneg : 0 ≤ m) (part : m * t ≤ 2 / 5)
    (step : 0 < t) (small : t ≤ 1 / 10) :
    m * ((mode.slack + 1 / 6) * t + ((mode.slack + 1 / 6) * t) ^ 2) * (1 + t / 2) + m * t / 2 <
      mode.slack := by
  have product : 0 ≤ m * t := mul_nonneg nonneg step.le
  have bound {c : ℝ} (some_ : 0 ≤ c) :
      m * (c * t + (c * t) ^ 2) * (1 + t / 2) + m * t / 2 ≤
        2 / 5 * (c * (1 + c / 10) * (21 / 20) + 1 / 2) := by
    calc m * (c * t + (c * t) ^ 2) * (1 + t / 2) + m * t / 2
        = m * t * (c * (1 + c * t) * (1 + t / 2) + 1 / 2) := by ring
      _ ≤ 2 / 5 * (c * (1 + c * (1 / 10)) * (1 + 1 / 10 / 2) + 1 / 2) := by gcongr
      _ = 2 / 5 * (c * (1 + c / 10) * (21 / 20) + 1 / 2) := by ring
  rcases mode.slack_cases with half | one
  · rw [half]
    have total := bound (show (0 : ℝ) ≤ (1 / 2 : ℚ) + 1 / 6 by norm_num)
    norm_num at total ⊢
    linarith
  · rw [one]
    have total := bound (show (0 : ℝ) ≤ (1 : ℚ) + 1 / 6 by norm_num)
    norm_num at total ⊢
    linarith

/-- The third part of the logarithm of a number below twenty has one digit before the point, or
none. -/
theorem CubeFigures.drift_of_lt (standard : ctx.IsStandard) (figures : ctx.CubeFigures n l q r)
    (two : 2 ≤ n) (less : n < 20) :
    |q - Real.log n| ≤ (ctx.rounding.slack + 1 / 6) * 10 ^ (1 - ctx.precision : ℤ) := by
  have low := standard.lastPlace_le
  have some_ := standard.some_
  have ten := log_lt_of_lt_twenty (show (0 : ℝ) < n by exact_mod_cast (by omega : 0 < n))
    (by exact_mod_cast less)
  have above := two_le_log_cube two
  have logarithm := figures.log.abs_sub_le (by linarith)
    (show ctx.lastPlace ≤ 1 - ctx.precision by omega) (by
      rw [show (ctx.precision : ℤ) + (1 - ctx.precision) = 1 by ring, log_eq]
      norm_num
      linarith)
  rw [log_eq] at logarithm above
  have unit : (10 : ℝ) ^ (1 - ctx.precision : ℤ) ≤ 1 :=
    (step_le (show 1 - (0 : ℤ) ≤ ctx.precision by omega)).trans_eq (zpow_zero 10)
  obtain ⟨least, most⟩ := abs_le.mp logarithm
  have bounds : (0 : ℝ) < l ∧ (l : ℝ) < 30 := ⟨by linarith, by linarith⟩
  have bounds' : 0 < l ∧ l < 30 := by exact_mod_cast bounds
  have place : ctx.place (l / 3) ≤ 1 - ctx.precision := by
    have log : Int.log 10 (l / 3) < 1 := log_lt_of_lt (by linarith) (by norm_num; linarith)
    unfold Context.place
    omega
  obtain ⟨least', most'⟩ := abs_le.mp (figures.abs_third_sub_le bounds'.1.le place)
  exact abs_le.mpr ⟨by linarith, by linarith⟩

theorem CubeFigures.near_of_lt (standard : ctx.IsStandard) (figures : ctx.CubeFigures n l q r)
    (digits : 2 ≤ ctx.precision) (two : 2 ≤ n) (less : n < 20)
    (few : n ^ 3 < 10 ^ ctx.precision) : |(r : ℝ) - n| < ctx.rounding.slack := by
  have low := standard.lastPlace_le
  have step : (0 : ℝ) < 10 ^ (1 - ctx.precision : ℤ) := zpow_pos (by norm_num) _
  have small : (10 : ℝ) ^ (1 - ctx.precision : ℤ) ≤ 10 ^ (-1 : ℤ) := step_le (by omega)
  norm_num at small
  have slack : (ctx.rounding.slack : ℝ) ≤ 1 := by exact_mod_cast ctx.rounding.slack_le_one
  refine (figures.abs_root_sub_le (by omega) (by omega)
    (figures.drift_of_lt standard two less) ?_).trans_lt
    (drift_lt_slack ctx.rounding (Nat.cast_nonneg n) (mul_le_of_cube_lt digits few) step small)
  nlinarith

/-- Beside twenty and more, digits of the third power are very small. -/
theorem sq_mul_le_of_cube_lt {p : Nat} (few : n ^ 3 < 10 ^ p) :
    (n : ℝ) ^ 2 * (n * 10 ^ (1 - p : ℤ)) ≤ 10 := by
  have cast : (n : ℝ) ^ 3 ≤ 10 ^ p := by exact_mod_cast few.le
  rw [zpow_sub₀ (by norm_num), zpow_one, zpow_natCast, mul_div_assoc', mul_div_assoc',
    div_le_iff₀ (by positivity)]
  linarith

theorem drift_lt_half {m t : ℝ} (twenty : 20 ≤ m) (step : 0 < t) (small : t ≤ 1 / 1000)
    (part : m ^ 2 * (m * t) ≤ 10) :
    4 / 5 * (m * t) ≤ 1 ∧
      m * (4 / 5 * (m * t) + (4 / 5 * (m * t)) ^ 2) * (1 + t / 2) + m * t / 2 < 1 / 2 := by
  have product : 0 ≤ m * t := mul_nonneg (by linarith) step.le
  have first : m * (m * t) ≤ 1 / 2 := by nlinarith
  have second : m * t ≤ 1 / 40 := by nlinarith
  refine ⟨by linarith, ?_⟩
  have nonneg : 0 ≤ m * (m * t) := mul_nonneg (by linarith) product
  calc m * (4 / 5 * (m * t) + (4 / 5 * (m * t)) ^ 2) * (1 + t / 2) + m * t / 2
      = 4 / 5 * (m * (m * t)) * (1 + 4 / 5 * (m * t)) * (1 + t / 2) + m * t / 2 := by ring
    _ ≤ 4 / 5 * (1 / 2) * (1 + 4 / 5 * (1 / 40)) * (1 + 1 / 1000 / 2) + 1 / 40 / 2 := by gcongr
    _ < 1 / 2 := by norm_num

/-- The third part of the logarithm of a number from twenty on is off by little beside the
number. -/
theorem CubeFigures.drift_of_ge (standard : ctx.IsStandard) (figures : ctx.CubeFigures n l q r)
    (large : 20 ≤ n) (digits : 3 < ctx.precision) :
    |q - Real.log n| ≤ 4 / 5 * (n * 10 ^ (1 - ctx.precision : ℤ)) := by
  have low := standard.lastPlace_le
  have step : (0 : ℝ) < 10 ^ (1 - ctx.precision : ℤ) := zpow_pos (by norm_num) _
  have small : (10 : ℝ) ^ (1 - ctx.precision : ℤ) ≤ 10 ^ (-3 : ℤ) := step_le (by omega)
  have above := two_le_log_cube (show 2 ≤ n by omega)
  have half := log_le_half (show (0 : ℝ) < n by exact_mod_cast (by omega : 0 < n))
  have logarithm := figures.log.abs_sub_le_mul (by linarith) (by omega)
  rw [log_eq] at logarithm above
  norm_num at small
  have shift : 3 * Real.log n * 10 ^ (1 - ctx.precision : ℤ) ≤ 3 * Real.log n * (1 / 1000) :=
    mul_le_mul_of_nonneg_left small (by linarith)
  obtain ⟨least, most⟩ := abs_le.mp logarithm
  have one : (1 : ℝ) ≤ l := by linarith
  have one' : 1 ≤ l := by exact_mod_cast one
  have place : (10 : ℚ) ^ ctx.place (l / 3) ≤ l / 3 * 10 ^ (1 - ctx.precision : ℤ) := by
    refine (ten_place_le (by linarith)).trans (max_le ?_ le_rfl)
    have unit : ctx.unit ≤ 10 ^ (-1 + (1 - ctx.precision) : ℤ) := ten_zpow_le (by omega)
    rw [ten_zpow_add, zpow_neg_one] at unit
    refine unit.trans (mul_le_mul_of_nonneg_right ?_ (ten_zpow_pos _).le)
    linarith
  have place' := (Rat.cast_le (K := ℝ)).mpr place
  push_cast at place'
  have slack : (ctx.rounding.slack : ℝ) ≤ 1 := by exact_mod_cast ctx.rounding.slack_le_one
  have third : |(q : ℝ) - l / 3| ≤ l / 3 * 10 ^ (1 - ctx.precision : ℤ) :=
    (figures.abs_third_sub_le (by linarith) le_rfl).trans
      ((mul_le_of_le_one_left (zpow_nonneg (by norm_num) _) slack).trans place')
  obtain ⟨least', most'⟩ := abs_le.mp third
  generalize (10 : ℝ) ^ (1 - ctx.precision : ℤ) = t at *
  have whole : (l : ℝ) * t ≤ 3 * Real.log n * t * (2001 / 2000) := by nlinarith
  have halves : Real.log n * t ≤ n / 2 * t := mul_le_mul_of_nonneg_right half step.le
  exact abs_le.mpr ⟨by linarith, by linarith⟩

theorem CubeFigures.near_of_ge (standard : ctx.IsStandard) (figures : ctx.CubeFigures n l q r)
    (large : 20 ≤ n) (few : n ^ 3 < 10 ^ ctx.precision) :
    |(r : ℝ) - n| < ctx.rounding.slack := by
  have low := standard.lastPlace_le
  have digits : 3 < ctx.precision := by
    refine (Nat.pow_lt_pow_iff_right (show 1 < 10 by norm_num)).mp (lt_of_le_of_lt ?_ few)
    exact (by norm_num : 10 ^ 3 ≤ 20 ^ 3).trans (Nat.pow_le_pow_left large 3)
  have small : (10 : ℝ) ^ (1 - ctx.precision : ℤ) ≤ 10 ^ (-3 : ℤ) := step_le (by omega)
  norm_num at small
  obtain ⟨less, total⟩ := drift_lt_half (by exact_mod_cast large) (zpow_pos (by norm_num) _) small
    (sq_mul_le_of_cube_lt few)
  have root := figures.abs_root_sub_le (by omega) (by omega)
    (figures.drift_of_ge standard large digits) less
  have slack := (Rat.cast_le (K := ℝ)).mpr ctx.rounding.half_le_slack
  push_cast at slack
  linarith

/-- With one digit, the only number is two. -/
theorem CubeFigures.near_two (standard : ctx.IsStandard) (figures : ctx.CubeFigures 2 l q r)
    (digit : ctx.precision = 1) : |(r : ℝ) - 2| < ctx.rounding.slack := by
  have low := standard.lastPlace_le
  have held : ctx.Holds |(2 : ℚ)| :=
    ⟨2, 0, by norm_num, by rw [digit]; norm_num, by omega⟩
  have two : Real.log ((2 : Nat) ^ 3 : ℝ) = 3 * Real.log 2 := log_eq 2
  -- Two itself is as near to the logarithm of eight as the logarithm that is given.
  have logarithm := figures.log.near 2 held
  rw [two, Rat.cast_ofNat] at logarithm
  have above := Real.log_two_gt_d9
  have below := Real.log_two_lt_d9
  rw [abs_of_pos (show 0 < 3 * Real.log 2 - 2 by linarith)] at logarithm
  obtain ⟨least, most⟩ := abs_le.mp logarithm
  have bounds : (0 : ℝ) < l ∧ (l : ℝ) < 3 := ⟨by linarith, by linarith⟩
  have bounds' : 0 < l ∧ l < 3 := by exact_mod_cast bounds
  have place : ctx.place (l / 3) ≤ -1 := by
    have log : Int.log 10 (l / 3) < 0 := log_lt_of_lt (by linarith) (by norm_num; linarith)
    unfold Context.place
    omega
  have third := figures.abs_third_sub_le bounds'.1.le place
  have drift : |q - Real.log (2 : Nat)| ≤ ctx.rounding.slack / 10 + 27 / 1000 := by
    obtain ⟨least', most'⟩ := abs_le.mp third
    norm_num at least' most' ⊢
    exact abs_le.mpr ⟨by linarith, by linarith⟩
  have slack : (ctx.rounding.slack : ℝ) ≤ 1 := by exact_mod_cast ctx.rounding.slack_le_one
  have off := abs_exp_sub_le (by norm_num) drift (by linarith)
  have exponential := figures.exp.near 2 held
  have split := abs_sub_le (r : ℝ) (Real.exp q) 2
  rw [abs_sub_comm] at exponential
  norm_num at off exponential
  rcases ctx.rounding.slack_cases with half | one
  · rw [half] at off ⊢
    norm_num at off ⊢
    linarith
  · rw [one] at off ⊢
    norm_num at off ⊢
    linarith

/-- The root of one is exact. -/
theorem CubeFigures.eq_one (standard : ctx.IsStandard) (figures : ctx.CubeFigures 1 l q r) :
    r = 1 := by
  obtain rfl : l = 0 := figures.log.eq_of_holds ctx.holds_zero (by simp)
  have third : q = 0 := by
    rw [figures.third, zero_div, rounded_of_nonneg le_rfl, nearest_zero]
  exact figures.exp.eq_of_holds standard.holds_abs_one (by simp [third])

/-- The approximate root of a cube is off by less than the slack of the mode. -/
theorem CubeFigures.near (standard : ctx.IsStandard) (figures : ctx.CubeFigures n l q r)
    (positive : 0 < n) (few : n ^ 3 < 10 ^ ctx.precision) :
    |(r : ℝ) - n| < ctx.rounding.slack := by
  have some_ := standard.some_
  rcases (show 1 ≤ n from positive).eq_or_lt with rfl | two
  · have half := ctx.rounding.half_le_slack
    rw [figures.eq_one standard, Nat.cast_one, Rat.cast_one, sub_self, abs_zero]
    exact_mod_cast (by linarith : 0 < ctx.rounding.slack)
  rcases some_.eq_or_lt with one | digits
  · obtain rfl : n = 2 := by
      rw [← one] at few
      by_contra other
      have three : 3 ^ 3 ≤ n ^ 3 := Nat.pow_le_pow_left (by omega) 3
      omega
    exact figures.near_two standard one.symm
  · rcases lt_or_ge n 20 with less | large
    · exact figures.near_of_lt standard digits two less few
    · exact figures.near_of_ge standard large few

end InfixCalc.Context
