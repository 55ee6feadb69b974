import InfixCalc.Decimal.Vocabulary
import InfixCalc.Proofs.Decimal.Circle

/-!
# Whole numbers and their powers

The integer next to a positive decimal is the one that the rounding mode goes to. Repeated squaring
of a whole number is exact as long as its power has no more digits than the context, so a whole
power of it is the exact one, rounded once.
-/

namespace InfixCalc

open InfixCalc.Number

namespace Context

open Decimal

variable {ctx : Context} {x : Decimal} {v : ℚ} (shows : x.value? = some v)

/- Signs. -/

include shows in
theorem value?_flip : x.flip.value? = some (-v) := by
  obtain ⟨negative, n, e, rfl, rfl⟩ := exists_of_value? shows
  rw [Decimal.flip, value?_finite]
  cases negative <;> simp [signedBy]

include shows in
theorem value?_magnitude : x.magnitude.value? = some |v| := by
  obtain ⟨negative, n, e, rfl, rfl⟩ := exists_of_value? shows
  rw [magnitude, value?_finite, abs_signedBy,
    abs_of_nonneg (mul_nonneg (Nat.cast_nonneg n) (ten_zpow_pos e).le)]
  rfl

include shows in
theorem gives_minus (proper : ctx.IsProper) : ctx.Gives (ctx.rounded (-v)) (ctx.minus x) :=
  gives_plus proper (value?_flip shows)

include shows in
theorem gives_abs (proper : ctx.IsProper) : ctx.Gives (ctx.rounded |v|) (ctx.abs x) :=
  gives_plus proper (value?_magnitude shows)

include shows in
theorem equal_zero : equal x zero = .ok (decide (v = 0)) := by
  rw [Decimal.zero, equal_eq shows (value?_ofNat 0), Nat.cast_zero]

include shows in
theorem order_zero : order x zero = .ok (compare v 0) := by
  obtain ⟨negative, n, e, rfl, rfl⟩ := exists_of_value? shows
  rw [order, Decimal.zero, ofNat]
  rcases Nat.eq_zero_or_pos n with rfl | positive
  · simp [compare?, signedBy]
  · have above : (0 : ℚ) < n * 10 ^ e :=
      mul_pos (by exact_mod_cast positive) (ten_zpow_pos e)
    cases negative with
    | false =>
      simp [compare?, signedBy, compareMagnitudes, positive.ne', compare_gt_iff_gt.mpr above]
    | true =>
      simp [compare?, signedBy, positive.ne', compare_lt_iff_lt.mpr (neg_lt_zero.mpr above)]

include shows in
theorem not_isZero_of_value? (some_ : v ≠ 0) : ¬ x.isZero = true := by
  obtain ⟨negative, n, e, rfl, rfl⟩ := exists_of_value? shows
  intro zero
  rw [beq_iff_eq.mp zero] at some_
  exact some_ (by simp [signedBy])

include shows in
theorem exists_of_pos (positive : 0 < v) :
    ∃ n e, n ≠ 0 ∧ x = .finite false n e ∧ v = n * 10 ^ e := by
  obtain ⟨negative, n, e, rfl, rfl⟩ := exists_of_value? shows
  have nonneg : (0 : ℚ) ≤ n * 10 ^ e := mul_nonneg (Nat.cast_nonneg n) (ten_zpow_pos e).le
  cases negative with
  | false =>
    refine ⟨n, e, ?_, rfl, rfl⟩
    rintro rfl
    simp [signedBy] at positive
  | true =>
    rw [signedBy, if_pos rfl] at positive
    linarith

/- Integers. -/

include shows in
/-- The integer next to a positive number is the one that the mode goes to. -/
theorem exists_toIntegral (mode : Rounding) (positive : 0 < v) :
    ∃ d, ctx.toIntegral mode x = .ok d ∧ d.value? = some (mode.nearest false v : ℚ) := by
  obtain ⟨n, e, some_, rfl, rfl⟩ := exists_of_pos shows positive
  rw [toIntegral]
  split_ifs with whole
  · obtain ⟨places, rfl⟩ := Int.eq_ofNat_of_zero_le whole
    refine ⟨_, rfl, ?_⟩
    have natural : (n : ℚ) * 10 ^ (places : ℤ) = (n * 10 ^ places : Nat) := by push_cast; rfl
    rw [value?_finite, signedBy, if_neg Bool.false_ne_true, natural, Rounding.nearest_natCast]
  · refine ⟨_, rfl, ?_⟩
    rw [value?_finite, signedBy, if_neg Bool.false_ne_true, dropPlaces_eq _ _ some_, zpow_zero,
      mul_one]
    congr 3
    rw [div_eq_mul_inv, ← zpow_natCast, Int.toNat_of_nonneg (by omega), zpow_neg, inv_inv]

theorem holds_natCast {n : Nat} (few : n ≤ 10 ^ ctx.precision) (low : ctx.lastPlace ≤ 0) :
    ctx.Holds |(n : ℚ)| := by
  rw [Nat.abs_cast]
  exact ⟨n, 0, by simp, few, low⟩

/-- A whole number that the context holds, and is not the last one, is what no other one goes to. -/
theorem rounded_natCast_eq_iff (some_ : 1 ≤ ctx.precision) (low : ctx.lastPlace ≤ 0) {m n : Nat}
    (few : n < 10 ^ ctx.precision) : ctx.rounded (m : ℚ) = n ↔ m = n := by
  have held {k : Nat} (few : k ≤ 10 ^ ctx.precision) : ctx.Holds (k : ℚ) := by
    simpa only [Nat.abs_cast] using holds_natCast few low
  rw [rounded_of_nonneg (Nat.cast_nonneg m)]
  refine ⟨fun same => ?_, fun same => same ▸ (held (same ▸ few.le)).nearest_eq some_⟩
  rcases lt_trichotomy m n with less | equal | more
  · have below : ctx.nearest false m ≤ (n - 1 : Nat) :=
      (held (by omega)).nearest_le some_ (Nat.cast_nonneg m)
        (by exact_mod_cast (by omega : m ≤ n - 1))
    rw [same] at below
    have : n ≤ n - 1 := by exact_mod_cast below
    omega
  · exact equal
  · have above : ((n + 1 : Nat) : ℚ) ≤ ctx.nearest false m :=
      (held few).le_nearest some_ (Nat.cast_nonneg _) (by exact_mod_cast more)
    rw [same] at above
    have : n + 1 ≤ n := by exact_mod_cast above
    omega

/- Powers. -/

theorem yields_mul_natCast (proper : ctx.IsProper) (low : ctx.lastPlace ≤ 0) {y : Decimal}
    {m n : Nat} (bound : Nat) (shows : x.value? = some (m : ℚ)) (shows' : y.value? = some (n : ℚ))
    (le : m * n ≤ bound) (few : bound ≤ 10 ^ ctx.precision) :
    Yields ((bound : ℚ) < 10 ^ (ctx.greatest + 1)) (fun d => d.value? = some ((m * n : Nat) : ℚ))
      (ctx.mul x y) := by
  have product := gives_mul proper shows shows'
  rw [← Nat.cast_mul, (holds_natCast (le.trans few) low).rounded_eq proper.some_] at product
  refine (product.yields fun small => ?_).mono id fun _ shown => shown.1
  rw [Nat.abs_cast]
  exact lt_of_le_of_lt (by exact_mod_cast le) small

/-- Each round takes one more binary digit of the exponent. -/
theorem yields_powerSteps (proper : ctx.IsProper) (low : ctx.lastPlace ≤ 0) {k n : Nat}
    (shows : x.value? = some (k : ℚ)) (positive : 0 < k) (few : k ^ n ≤ 10 ^ ctx.precision)
    (bits : Nat) {value : Decimal} (here : value.value? = some ((k ^ (n / 2 ^ bits) : Nat) : ℚ)) :
    Yields (((k ^ n : Nat) : ℚ) < 10 ^ (ctx.greatest + 1))
      (fun d => d.value? = some ((k ^ n : Nat) : ℚ)) (ctx.powerSteps x n bits value) := by
  induction bits generalizing value with
  | zero =>
    rw [pow_zero, Nat.div_one] at here
    exact .value here
  | succ bits ih =>
    have taken : n / 2 ^ bits = 2 * (n / 2 ^ (bits + 1)) + n / 2 ^ bits % 2 := by
      rw [pow_succ, ← Nat.div_div_eq_div_mul]
      exact (Nat.div_add_mod _ 2).symm
    have digit := Nat.toNat_testBit n bits
    have whole : k ^ (n / 2 ^ bits) ≤ k ^ n :=
      Nat.pow_le_pow_right positive (Nat.div_le_self n _)
    generalize n / 2 ^ (bits + 1) = half at here taken
    rw [← digit] at taken
    have doubled : k ^ half * k ^ half = k ^ (2 * half) := by rw [two_mul, pow_add]
    have less : k ^ half * k ^ half ≤ k ^ n := by
      rw [doubled]
      exact (Nat.pow_le_pow_right positive (by omega)).trans whole
    rw [powerSteps]
    refine (yields_mul_natCast proper low _ here here less few).bind fun squared square => ?_
    rw [doubled] at square
    have rest (value : Decimal) (here : value.value? = some ((k ^ (n / 2 ^ bits) : Nat) : ℚ)) :
        Yields (((k ^ n : Nat) : ℚ) < 10 ^ (ctx.greatest + 1))
          (fun d => d.value? = some ((k ^ n : Nat) : ℚ))
          (if value.isZero then .ok value else ctx.powerSteps x n bits value) := by
      rw [if_neg (not_isZero_of_value? here (Nat.cast_ne_zero.mpr (pow_pos positive _).ne'))]
      exact ih here
    cases one : n.testBit bits with
    | true =>
      rw [one, Bool.toNat_true] at taken
      have next := yields_mul_natCast proper low (k ^ n) square shows
      rw [← pow_succ, ← taken] at next
      exact (next whole few).bind rest
    | false =>
      rw [one, Bool.toNat_false, add_zero] at taken
      exact rest squared (taken ▸ square)

theorem yields_naturalPower (proper : ctx.IsProper) (low : ctx.lastPlace ≤ 0) {k n : Nat}
    (shows : x.value? = some (k : ℚ)) (positive : 0 < k) (some_ : n ≠ 0)
    (few : k ^ n ≤ 10 ^ ctx.precision) :
    Yields (((k ^ n : Nat) : ℚ) < 10 ^ (ctx.greatest + 1))
      (fun d => d.value? = some ((k ^ n : Nat) : ℚ)) (ctx.naturalPower x n) := by
  have first : n / 2 ^ n.log2 = 1 :=
    Nat.div_eq_of_lt_le (by simpa using Nat.log2_self_le some_)
      (by rw [one_add_one_eq_two, ← pow_succ']; exact Nat.lt_log2_self)
  refine yields_powerSteps proper low shows positive few _ ?_
  rw [first, pow_one, shows]

theorem gives_finish (proper : ctx.IsProper) {n : Nat} (shows : x.value? = some (n : ℚ)) :
    ctx.Gives (ctx.rounded n) (ctx.finish false x) := by
  obtain ⟨negative, c, e, rfl, same⟩ := exists_of_value? shows
  have size : (n : ℚ) = signedBy false (c * 10 ^ e) := by
    have nonneg : (0 : ℚ) ≤ c * 10 ^ e := mul_nonneg (Nat.cast_nonneg c) (ten_zpow_pos e).le
    rw [← abs_of_nonneg (Nat.cast_nonneg (α := ℚ) n), same, abs_signedBy, abs_of_nonneg nonneg]
    rfl
  rw [size]
  exact gives_round proper false c e

/-- The context in which a power with a positive exponent is found. -/
def powering (ctx : Context) (n : Nat) : Context where
  precision := ctx.precision + digitCount n + 2
  rounding := .halfEven
  greatest := ctx.greatest
  least := ctx.least

theorem integerPower_natCast (x : Decimal) (n : Nat) : ctx.integerPower false x n =
    (ctx.powering n).naturalPower x n >>= ctx.finish false := by
  have sign : ¬ (n : ℤ) < 0 := by omega
  simp only [integerPower, if_neg sign, Int.natAbs_natCast]
  rfl

/-- The context has room for a power of a whole number, and for what it is rounded to. -/
structure HasRoom (ctx : Context) (power : Nat) : Prop where
  exact_ : (power : ℚ) < 10 ^ (ctx.greatest + 1)
  rounded : |ctx.rounded power| < 10 ^ (ctx.greatest + 1)

theorem hasRoom_of_few (some_ : 1 ≤ ctx.precision) (low : ctx.lastPlace ≤ 0) {power : Nat}
    (few : power ≤ 10 ^ ctx.precision) (small : (power : ℚ) < 10 ^ (ctx.greatest + 1)) :
    ctx.HasRoom power := by
  refine ⟨small, ?_⟩
  rw [(holds_natCast few low).rounded_eq some_, Nat.abs_cast]
  exact small

/-- A positive power of a whole number with three digits more at most is rounded once. -/
theorem yields_integerPower (proper : ctx.IsProper) (low : ctx.lastPlace ≤ 0) {k n : Nat}
    (shows : x.value? = some (k : ℚ)) (positive : 0 < k) (some_ : n ≠ 0)
    (few : k ^ n ≤ 10 ^ (ctx.precision + 3)) :
    Yields (ctx.HasRoom (k ^ n))
      (fun d => d.value? = some (ctx.rounded ((k ^ n : Nat) : ℚ)))
      (ctx.integerPower false x n) := by
  have count := digitCount_pos n
  have more : ctx.precision + 3 ≤ (ctx.powering n).precision := by
    simp only [powering]
    omega
  have least : (ctx.powering n).lastPlace ≤ ctx.lastPlace := by
    simp only [lastPlace, powering]
    omega
  have proper' : (ctx.powering n).IsProper := ⟨by omega, least.trans proper.room⟩
  have power := (yields_naturalPower proper' (least.trans low) shows positive some_
    (few.trans (Nat.pow_le_pow_right (by norm_num) more))).mono
      (fun room : ctx.HasRoom (k ^ n) => room.exact_) fun _ => id
  rw [integerPower_natCast]
  exact power.bind fun value exact_ =>
    ((gives_finish proper exact_).yields HasRoom.rounded).mono id fun _ shown => shown.1

/-- The logarithm of a magnitude above one is judged by its digits before the point. -/
theorem logarithmSize_le {c : Nat} {p : ℤ} (above : (1 : ℚ) < c * 10 ^ p) {digits : Nat}
    (small : (c : ℚ) * 10 ^ p < 10 ^ (10 ^ digits)) :
    logarithmSize c p ≤ digits := by
  have positive : c ≠ 0 := by
    rintro rfl
    norm_num at above
  have top := leading_eq positive p
  have least : 0 ≤ leading c p := top ▸ le_log_of_le (by rw [zpow_zero]; exact above.le)
  rw [logarithmSize]
  dsimp only
  split_ifs with large under one
  · have most : leading c p < (10 ^ digits : Nat) := by
      rw [top]
      refine log_lt_of_lt (by linarith) ?_
      rw [zpow_natCast]
      exact small
    have count : digitCount (leading c p).toNat ≤ digits + 1 := by
      by_contra more
      have pow := pow_digitCount_le (show (leading c p).toNat ≠ 0 by omega)
      have grown : 10 ^ digits ≤ 10 ^ (digitCount (leading c p).toNat - 1) :=
        Nat.pow_le_pow_right (by norm_num) (by omega)
      rw [Nat.pow_eq] at pow
      omega
    omega
  · omega
  · -- What the number has above one is no larger than the number itself.
    have unit := scaled_unit 1 (min_le_right p 0)
    have value := scaled_unit c (min_le_left p 0)
    rw [show (0 - min p 0).toNat = (-p).toNat by omega, one_mul] at unit
    rw [show (p - min p 0).toNat = p.toNat by omega] at value
    generalize c * Nat.pow 10 p.toNat = whole at value ⊢
    generalize Nat.pow 10 (-p).toNat = point at unit ⊢
    have scale := ten_zpow_pos (min p 0)
    have more : point < whole := by
      have ordered : (point : ℚ) * 10 ^ min p 0 < whole * 10 ^ min p 0 := by
        rw [unit, value]
        simpa using above
      exact_mod_cast lt_of_mul_lt_mul_right ordered scale.le
    have rest : ((whole : ℤ) - point).natAbs = whole - point := by omega
    have log : Int.log 10 (((whole - point : Nat) : ℚ) * 10 ^ min p 0) < 1 := by
      have room := lt_ten_log ((c : ℚ) * 10 ^ p)
      rw [← top, one, zero_add] at room
      refine log_lt_of_lt (mul_pos (by exact_mod_cast Nat.sub_pos_of_lt more) scale) ?_
      rw [Nat.cast_sub more.le, sub_mul, value]
      have some_ : (0 : ℚ) ≤ point * 10 ^ min p 0 := mul_nonneg (Nat.cast_nonneg _) scale.le
      linarith
    rw [rest]
    rw [← leading_eq (by omega)] at log
    omega
  · omega

theorem value?_unitPower (ctx : Context) (places : Nat) :
    (ctx.unitPower false places).value? = some 1 := by
  rw [unitPower, value?_finite, signedBy, if_neg Bool.false_ne_true, Nat.pow_eq, Nat.cast_pow,
    Nat.cast_ofNat, ← zpow_natCast, ← ten_zpow_add, add_neg_cancel, zpow_zero]

theorem leading_digit {n : Nat} (digit : n < 10) : leading n 0 = 0 := by
  interval_cases n <;> rfl

/-- A power of a whole number, with one digit as exponent, is rounded once. -/
theorem yields_power (proper : ctx.IsProper) (low : ctx.lastPlace ≤ 0) (high : 0 ≤ ctx.greatest)
    {k n : Nat} (shows : x.value? = some (k : ℚ)) (positive : 0 < k) (some_ : n ≠ 0)
    (digit : n < 10) (few : k ^ n ≤ 10 ^ (ctx.precision + 3)) :
    Yields (ctx.HasRoom (k ^ n)) (fun d => d.value? = some (ctx.rounded ((k ^ n : Nat) : ℚ)))
      (ctx.power x (.ofNat n)) := by
  have integer := yields_integerPower proper low shows positive some_ few
  obtain ⟨c, p, coefficient, rfl, size⟩ := exists_of_pos shows (by exact_mod_cast positive)
  simp only [power, ofNat, if_neg coefficient, Bool.false_and, if_neg Bool.false_ne_true,
    if_neg some_]
  split_ifs with one
  · rw [compareMagnitudes_eq_iff, ← size] at one
    obtain rfl : k = 1 := by simpa using one
    have unit : ctx.powerOfOne false (-p).toNat false n 0 =
        ctx.unitPower false ((-p).toNat * n) := by
      have few : ¬ (digitCount ctx.precision : ℤ) < leading n 0 := by
        rw [leading_digit digit]
        omega
      simp [powerOfOne, isWhole, few, whole?]
    have held : ctx.Holds |(1 : ℚ)| := abs_one (α := ℚ) ▸ holds_one low
    rw [unit, one_pow, Nat.cast_one, held.rounded_eq proper.some_]
    exact .value (value?_unitPower ctx _)
  · have above : (1 : ℚ) < c * 10 ^ p := by
      rw [← size]
      refine lt_of_le_of_ne (by exact_mod_cast positive) fun same => one ?_
      rw [compareMagnitudes_eq_iff, ← size, ← same]
      norm_num
    have least : ¬ leading c p < 0 := by
      rw [not_lt, leading_eq coefficient]
      exact le_log_of_le (by rw [zpow_zero]; exact above.le)
    have whole : (finite false n 0).toInt? = some (n : ℤ) := by
      simp [toInt?, whole?, signed]
    rw [finitePower, if_pos (decide_eq_false least), leading_digit digit]
    split_ifs with large
    · refine .overflow fun room => large.not_ge ?_
      have digits := lt_pow_digitCount ctx.greatest.natAbs
      rw [Nat.pow_eq] at digits
      have root : (k : ℚ) ≤ (k ^ n : Nat) := by exact_mod_cast Nat.le_self_pow some_ k
      have small : (c : ℚ) * 10 ^ p < 10 ^ (10 ^ digitCount ctx.greatest.natAbs) := by
        rw [← size, ← zpow_natCast]
        exact root.trans_lt (room.exact_.trans_le (ten_zpow_le (by omega)))
      linarith [logarithmSize_le above small]
    · rw [Bool.false_and, finitePower.compute, whole]
      exact integer

end Context
end InfixCalc
