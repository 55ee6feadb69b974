import InfixCalc.Proofs.Decimal.Angle

/-!
# Where sines and cosines come to rest

A factorial outgrows every power, so the terms of a series fall below the last place of the context.
In the modes that drop what is left the sum stays then. In the modes that lift it the powers of an
angle above one grow until they leave the context, and the sums of a smaller angle come to rest
where their digits end, unless they are so near to zero that every unit counts.
-/

namespace InfixCalc.Angle

open InfixCalc.Number InfixCalc.Context

variable {A : Angle}

/-- A series of nothing but its first sum. -/
theorem IsSound.sum_one (sound : A.IsSound) (none_ : A.start * A.square = 0) :
    A.sum 1 = A.sum 0 := by
  refine sound.sum_succ_of_zero ?_
  rw [term, power, power, none_, nearest_zero, zero_div, nearest_zero]

/- Modes that drop. -/

/-- A bound of the power, over the factorial. -/
def size (A : Angle) (k : Nat) : ℚ := max (A.power k) 1 / A.factorial k

theorem power_div_le_size (k : Nat) : A.power k / A.factorial k ≤ A.size k :=
  div_le_div_of_nonneg_right (le_max_left _ _) (factorial_pos k).le

/-- The bound grows by no more than a fixed factor, over two more factors of the factorial. -/
theorem IsSound.size_succ_le (sound : A.IsSound) (unit : A.work.unit ≤ 1)
    (square : A.square ≤ 40000) (k : Nat) :
    A.size (k + 1) ≤
      10 ^ 5 * A.size k / ((A.first + 2 * k + 2) * (A.first + 2 * k + 1) : Nat) := by
  have nonneg := sound.power_nonneg k
  have grown : A.power (k + 1) ≤ 2 * (A.power k * A.square) + A.work.unit :=
    nearest_le_double sound.proper.some_ (mul_nonneg nonneg sound.square)
  have product := mul_le_mul (le_max_left (A.power k) 1) square sound.square
    (zero_le_one.trans (le_max_right (A.power k) 1))
  have one := le_max_right (A.power k) 1
  have bound : max (A.power (k + 1)) 1 ≤ 10 ^ 5 * max (A.power k) 1 :=
    max_le (by linarith) (by linarith)
  rw [size, size, factorial_succ, Nat.cast_mul, ← mul_div_assoc, div_div]
  exact div_le_div_of_nonneg_right bound (by positivity)

theorem IsSound.size_le (sound : A.IsSound) (unit : A.work.unit ≤ 1) (start : A.start ≤ 1000)
    (square : A.square ≤ 40000) (k : Nat) : A.size k ≤ 10 ^ (3 + 5 * k : ℤ) := by
  induction k with
  | zero =>
    have one : (1 : ℚ) ≤ A.factorial 0 := by exact_mod_cast Nat.factorial_pos _
    have first : max A.start 1 ≤ 1000 := max_le start (by norm_num)
    calc A.size 0 ≤ max A.start 1 := div_le_self (by positivity) one
      _ ≤ 10 ^ (3 + 5 * (0 : Nat) : ℤ) := first.trans_eq (by norm_num)
  | succ k ih =>
    have positive : 0 ≤ A.size k := div_nonneg (by positivity) (factorial_pos k).le
    have one : (1 : ℚ) ≤ ((A.first + 2 * k + 2) * (A.first + 2 * k + 1) : Nat) := by
      exact_mod_cast Nat.mul_pos (Nat.succ_pos _) (Nat.succ_pos _)
    calc A.size (k + 1) ≤ 10 ^ 5 * A.size k :=
          (sound.size_succ_le unit square k).trans (div_le_self (by positivity) one)
      _ ≤ 10 ^ 5 * 10 ^ (3 + 5 * k : ℤ) := mul_le_mul_of_nonneg_left ih (by norm_num)
      _ = 10 ^ (3 + 5 * (k + 1 : Nat) : ℤ) := by
        rw [← zpow_natCast, ← ten_zpow_add]
        congr 1
        push_cast
        ring

/-- From some round on the bound falls to a tenth at each round. -/
theorem IsSound.size_late_le (sound : A.IsSound) (unit : A.work.unit ≤ 1) (start : A.start ≤ 1000)
    (square : A.square ≤ 40000) (j : Nat) : A.size (500 + j) ≤ 10 ^ (2503 - j : ℤ) := by
  induction j with
  | zero => exact (sound.size_le unit start square 500).trans (ten_zpow_le (by norm_num))
  | succ j ih =>
    have positive : 0 ≤ A.size (500 + j) := div_nonneg (by positivity) (factorial_pos _).le
    have million : (10 ^ 6 : ℚ) ≤
        ((A.first + 2 * (500 + j) + 2) * (A.first + 2 * (500 + j) + 1) : Nat) := by
      exact_mod_cast (Nat.mul_le_mul (show 1000 ≤ A.first + 2 * (500 + j) + 2 by omega)
        (show 1000 ≤ A.first + 2 * (500 + j) + 1 by omega))
    have falls := (sound.size_succ_le unit square (500 + j)).trans
      (div_le_div_of_nonneg_left (by positivity) (by norm_num) million)
    have step := ten_zpow_succ (2503 - (j + 1 : Nat))
    rw [show (2503 - (j + 1 : Nat) + 1 : ℤ) = 2503 - j by push_cast; ring] at step
    rw [step] at ih
    rw [← Nat.add_assoc]
    linarith

/-- In a mode that drops, a series of moderate figures comes to rest. -/
theorem IsSound.repeats_of_drops (sound : A.IsSound) (unit : A.work.unit ≤ 1)
    (drops : A.work.rounding.Drops A.negative) (start : A.start ≤ 1000)
    (square : A.square ≤ 40000) :
    ∃ j ≤ 500 + (2504 - A.work.lastPlace).toNat, A.sum (j + 1) = A.sum j := by
  obtain ⟨j, late⟩ : ∃ j : Nat, j = (2504 - A.work.lastPlace).toNat := ⟨_, rfl⟩
  refine ⟨499 + j, by omega, sound.sum_succ_of_zero ?_⟩
  have small : A.size (499 + j + 1) ≤ A.work.unit / 10 := by
    rw [show 499 + j + 1 = 500 + j by omega, le_div_iff₀ (by norm_num), Context.unit]
    have falls := sound.size_late_le unit start square j
    have tenth : (10 : ℚ) ^ (2503 - j : ℤ) * 10 ≤ 10 ^ A.work.lastPlace := by
      rw [← zpow_add_one₀ (by norm_num)]
      exact ten_zpow_le (by omega)
    linarith
  refine nearest_of_drops sound.proper.some_ drops
    (div_nonneg (sound.power_nonneg _) (factorial_pos _).le) ?_
  have := power_div_le_size (A := A) (499 + j + 1)
  linarith [A.work.unit_pos]

/- Modes that lift: an angle above one. -/

/-- The powers of an angle above one grow at each round. -/
theorem pow_le_power {ctx : Context} (work : A.work = ctx.extended)
    (deep : A.work.IsDeep) (some_ : 1 ≤ ctx.precision) {v : ℚ} (holds : ctx.Holds |v|)
    (above : 1 < |v|) (square : A.square = A.work.nearest false (v * v)) (start : 1 ≤ A.start)
    (k : Nat) : (1 + 10 ^ (1 - ctx.precision : ℤ)) ^ k ≤ A.power k := by
  obtain ⟨e, small⟩ : ∃ e : ℚ, e = 10 ^ (1 - ctx.precision : ℤ) := ⟨_, rfl⟩
  have positive : 0 < e := small ▸ ten_zpow_pos _
  have one : e ≤ 1 := small ▸ (ten_zpow_le (by omega)).trans_eq (zpow_zero 10)
  have digits : (10 : ℚ) ^ (1 - A.work.precision : ℤ) = e / 100 := by
    have split : (1 - A.work.precision : ℤ) = (1 - ctx.precision) + -2 := by
      rw [work]
      simp only [Context.extended]
      push_cast
      ring
    rw [split, ten_zpow_add, ← small]
    norm_num
    ring
  have tiny : A.work.unit ≤ 10 ^ (1 - A.work.precision : ℤ) := by
    linarith [deep.unit_le, A.work.unit_pos]
  have part {w : ℚ} (one : 1 ≤ w) (negative : Bool) :
      (1 - e / 100) * w ≤ A.work.nearest negative w := by
    rw [← digits]
    exact part_le_nearest tiny one
  have beside := holds.beside_one some_ above
  rw [← small] at beside ⊢
  have squared : 1 + 2 * e ≤ v * v := by
    rw [← abs_mul_abs_self]
    nlinarith
  have factor : (1 - e / 100) * (1 + 2 * e) ≤ A.square := by
    rw [square]
    exact (mul_le_mul_of_nonneg_left squared (by linarith)).trans (part (by linarith) false)
  have grows : 1 + e ≤ (1 - e / 100) * A.square := by
    have twice := mul_le_mul_of_nonneg_left factor (show 0 ≤ 1 - e / 100 by linarith)
    have second : e * e ≤ e := mul_le_of_le_one_left positive.le one
    have third : 0 ≤ e * e * e := by positivity
    linarith
  have above_one : 1 ≤ A.square := by nlinarith
  induction k with
  | zero => simpa [power] using start
  | succ k ih =>
    have least : 1 ≤ A.power k := (one_le_pow₀ (by linarith)).trans ih
    calc (1 + e) ^ (k + 1) = (1 + e) ^ k * (1 + e) := pow_succ _ _
      _ ≤ A.power k * ((1 - e / 100) * A.square) :=
        mul_le_mul ih grows (by linarith) (by linarith)
      _ = (1 - e / 100) * (A.power k * A.square) := by ring
      _ ≤ A.power (k + 1) := part (one_le_mul_of_one_le_of_one_le least above_one) _

/-- The powers of an angle above one leave the context. -/
theorem power_large {ctx : Context} (work : A.work = ctx.extended)
    (deep : A.work.IsDeep) (some_ : 1 ≤ ctx.precision) {v : ℚ} (holds : ctx.Holds |v|)
    (above : 1 < |v|) (square : A.square = A.work.nearest false (v * v)) (start : 1 ≤ A.start) :
    10 ^ (A.work.greatest + 1) ≤
      A.power (10 ^ (ctx.precision - 1) * (4 * (A.work.greatest + 1).toNat)) := by
  have doubles : (2 : ℚ) ≤ (1 + 10 ^ (1 - ctx.precision : ℤ)) ^ 10 ^ (ctx.precision - 1) := by
    have step := ten_zpow_pos (1 - ctx.precision : ℤ)
    have bernoulli := one_add_mul_le_pow
      (show (-2 : ℚ) ≤ 10 ^ (1 - ctx.precision : ℤ) by linarith) (10 ^ (ctx.precision - 1))
    refine le_trans (le_of_eq ?_) bernoulli
    rw [Nat.cast_pow, Nat.cast_ofNat, ← zpow_natCast, ← ten_zpow_add,
      show ((ctx.precision - 1 : Nat) : ℤ) + (1 - ctx.precision) = 0 by omega]
    norm_num
  have grown := pow_le_power work deep some_ holds above square start
    (10 ^ (ctx.precision - 1) * (4 * (A.work.greatest + 1).toNat))
  rw [pow_mul] at grown
  refine le_trans ?_ grown
  calc (10 : ℚ) ^ (A.work.greatest + 1) = 10 ^ (A.work.greatest + 1).toNat := by
        rw [← zpow_natCast, Int.toNat_of_nonneg (by linarith [deep.high])]
    _ ≤ (2 ^ 4) ^ (A.work.greatest + 1).toNat :=
        pow_le_pow_left₀ (by norm_num) (by norm_num) _
    _ = 2 ^ (4 * (A.work.greatest + 1).toNat) := (pow_mul _ _ _).symm
    _ ≤ _ := pow_le_pow_left₀ (by norm_num) doubles _

end InfixCalc.Angle
