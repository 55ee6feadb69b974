import InfixCalc.Proofs.Binary64.Nearest

/-!
# Shortest digits round back

Some decimal number with seventeen digits lies in the interval of every finite double, so the
search for the shortest one finds a number there.
-/

namespace InfixCalc.Binary64

open InfixCalc.Number

/-- The number that digits stand for. -/
def Digits.value (d : Digits) : ℚ := d.digits * 10 ^ d.exponent

/-- The number of a significand and an exponent, as a quotient. -/
theorem ratio_spec {significand : Nat} (positive : 0 < significand) (exponent : Int) :
    0 < (ratio significand exponent).1 ∧ 0 < (ratio significand exponent).2 ∧
      ((ratio significand exponent).1 : ℚ) / (ratio significand exponent).2 =
        significand * 2 ^ exponent := by
  unfold ratio
  split
  · rename_i above
    have power := zpow_of_nonneg 2 above
    refine ⟨by simpa [Nat.shiftLeft_eq] using positive, Nat.one_pos, ?_⟩
    simp [Nat.shiftLeft_eq, power]
  · rename_i below
    have power := zpow_of_neg 2 below
    refine ⟨positive, by simp [Nat.shiftLeft_eq], ?_⟩
    simp [Nat.shiftLeft_eq, power, div_eq_mul_inv]

/- What the search tests. -/

/-- A power with an integer exponent, as a quotient of natural numbers. -/
theorem zpow_eq_div {base : Nat} (positive : 0 < base) (exponent : Int) :
    0 < (if 0 ≤ exponent then 1 else Nat.pow base (-exponent).toNat) ∧
      (base : ℚ) ^ exponent =
        ((if 0 ≤ exponent then Nat.pow base exponent.toNat else 1 : Nat) : ℚ) /
          ((if 0 ≤ exponent then 1 else Nat.pow base (-exponent).toNat : Nat) : ℚ) := by
  split
  · rename_i above
    refine ⟨Nat.one_pos, ?_⟩
    rw [Nat.cast_one, div_one, Nat.pow_eq, Nat.cast_pow, zpow_of_nonneg _ above]
  · rename_i below
    refine ⟨Nat.pow_pos positive, ?_⟩
    rw [Nat.cast_one, Nat.pow_eq, Nat.cast_pow, zpow_of_neg _ below, one_div]

theorem contains_iff (i : Interval) (d : Digits) : i.contains d = true ↔ i.Holds d.value := by
  obtain ⟨unitPositive, unit⟩ := zpow_eq_div (show 0 < 2 by decide) i.unit
  obtain ⟨placePositive, place⟩ := zpow_eq_div (show 0 < 10 by decide) d.exponent
  simp only [Nat.cast_ofNat] at unit place
  unfold Interval.contains Interval.Holds Digits.value
  rw [unit, place]
  dsimp only
  generalize (if 0 ≤ i.unit then Nat.pow 2 i.unit.toNat else 1) = unitUp
  generalize (if 0 ≤ i.unit then 1 else Nat.pow 2 (-i.unit).toNat) = unitDown at unitPositive ⊢
  generalize (if 0 ≤ d.exponent then Nat.pow 10 d.exponent.toNat else 1) = placeUp
  generalize (if 0 ≤ d.exponent then 1 else Nat.pow 10 (-d.exponent).toNat) = placeDown
    at placePositive ⊢
  have downUnit : (0 : ℚ) < unitDown := by exact_mod_cast unitPositive
  have downPlace : (0 : ℚ) < placeDown := by exact_mod_cast placePositive
  have scaled (side : Nat) :
      (side * unitUp * placeDown ≤ d.digits * placeUp * unitDown ↔
        (side : ℚ) * (unitUp / unitDown) ≤ d.digits * (placeUp / placeDown)) ∧
      (d.digits * placeUp * unitDown ≤ side * unitUp * placeDown ↔
        (d.digits : ℚ) * (placeUp / placeDown) ≤ side * (unitUp / unitDown)) := by
    constructor
    · rw [mul_div_assoc', mul_div_assoc', div_le_div_iff₀ downUnit downPlace]
      norm_cast
    · rw [mul_div_assoc', mul_div_assoc', div_le_div_iff₀ downPlace downUnit]
      norm_cast
  split
  · rw [Bool.and_eq_true, decide_eq_true_eq, decide_eq_true_eq, (scaled _).1, (scaled _).2]
  · rw [Bool.and_eq_true, decide_eq_true_eq, decide_eq_true_eq, ← not_le, ← not_le, ← not_le,
      ← not_le, (scaled _).1, (scaled _).2]

/- The place of the first digit. -/

theorem digitCount_bounds {n : Nat} (some_ : n ≠ 0) :
    (10 : ℚ) ^ ((digitCount n : Int) - 1) ≤ n ∧ (n : ℚ) < 10 ^ (digitCount n : Int) := by
  have low := pow_digitCount_le some_
  have high := lt_pow_digitCount n
  have count := digitCount_pos n
  have place : (digitCount n : Int) - 1 = (digitCount n - 1 : Nat) := by omega
  rw [place, zpow_natCast, zpow_natCast]
  exact_mod_cast And.intro low high

/-- The place of the first digit is not too high. -/
theorem decimalExponent_le {num den : Nat} (numerator : 0 < num) (denominator : 0 < den) :
    (10 : ℚ) ^ decimalExponent num den ≤ num / den := by
  have positive : (0 : ℚ) < den := by exact_mod_cast denominator
  have ten : (10 : ℚ) ≠ 0 := by norm_num
  have numLow := (digitCount_bounds (Nat.ne_of_gt numerator)).1
  have denHigh := (digitCount_bounds (Nat.ne_of_gt denominator)).2
  have low : (10 : ℚ) ^ ((digitCount num : Int) - digitCount den - 1) ≤ num / den := by
    rw [le_div_iff₀ positive]
    calc (10 : ℚ) ^ ((digitCount num : Int) - digitCount den - 1) * den
        ≤ 10 ^ ((digitCount num : Int) - digitCount den - 1) * 10 ^ (digitCount den : Int) := by
          gcongr
      _ = 10 ^ ((digitCount num : Int) - 1) := by
          rw [← zpow_add₀ ten]
          congr 1
          omega
      _ ≤ num := numLow
  have below (guess : Int) : (if 0 ≤ guess then num < den * Nat.pow 10 guess.toNat
      else num * Nat.pow 10 (-guess).toNat < den) ↔ (num : ℚ) / den < 10 ^ guess := by
    split
    · rename_i nonneg
      rw [div_lt_iff₀ positive, zpow_of_nonneg 10 nonneg, mul_comm]
      exact_mod_cast Iff.rfl
    · rename_i negative
      have power : (0 : ℚ) < 10 ^ (-guess).toNat := by positivity
      rw [div_lt_iff₀ positive, zpow_of_neg 10 negative, inv_mul_eq_div, lt_div_iff₀ power]
      exact_mod_cast Iff.rfl
  unfold decimalExponent
  by_cases under : (num : ℚ) / den < 10 ^ ((digitCount num : Int) - digitCount den)
  · rw [if_pos ((below _).mpr under)]
    exact low
  · rw [if_neg (mt (below _).mp under)]
    exact not_lt.mp under

/- The search. -/

theorem holds_of_onGrid {i : Interval} {num den : Nat} {exponent : Int} {d : Digits}
    (found : onGrid i num den exponent = some d) : i.Holds d.value := by
  unfold onGrid at found
  simp only at found
  split at found
  · rename_i near
    cases found
    exact (contains_iff _ _).mp near
  · rw [Option.ite_none_right_eq_some] at found
    obtain ⟨far, same⟩ := found
    cases same
    exact (contains_iff _ _).mp far

theorem inUnits_spec (num : Nat) {den : Nat} (denominator : 0 < den) (place : Int) :
    0 < (inUnits num den place).2 ∧
      ((inUnits num den place).1 : ℚ) / (inUnits num den place).2 = num / den / 10 ^ place := by
  unfold inUnits
  split
  · rename_i above
    have power := zpow_of_nonneg 10 above
    refine ⟨Nat.mul_pos denominator (Nat.pow_pos (by decide)), ?_⟩
    simp [power, div_div]
  · rename_i below
    have power := zpow_of_neg 10 below
    refine ⟨denominator, ?_⟩
    simp [power, mul_div_right_comm]

/-- The nearer neighbour on a grid is half a unit away at most. -/
theorem near_bounds (num : Nat) {den : Nat} (denominator : 0 < den) (place : Int) :
    let near := Rounding.halfEven.quotient false (inUnits num den place).1 (inUnits num den place).2
    (num : ℚ) / den - 10 ^ place / 2 ≤ near * 10 ^ place ∧
      near * 10 ^ place ≤ (num : ℚ) / den + 10 ^ place / 2 := by
  obtain ⟨positive, same⟩ := inUnits_spec num denominator place
  obtain ⟨above, below⟩ := halfEven_quotient_near (inUnits num den place).1 positive
  dsimp only
  generalize Rounding.halfEven.quotient false (inUnits num den place).1 (inUnits num den place).2 =
    near at above below ⊢
  generalize (inUnits num den place).1 = n at same above below
  generalize (inUnits num den place).2 = d at positive same above below
  have unit : (0 : ℚ) < 10 ^ place := by positivity
  have scale : (0 : ℚ) < d := by exact_mod_cast positive
  have aboveCast : (2 * (near * d) : ℚ) ≤ 2 * n + d := by exact_mod_cast above
  have belowCast : (2 * n : ℚ) ≤ 2 * (near * d) + d := by exact_mod_cast below
  have whole : (num : ℚ) / den = n / d * 10 ^ place := by
    rw [same, div_mul_cancel₀ _ unit.ne']
  have nearHigh : (near : ℚ) ≤ n / d + 1 / 2 := by
    rw [← sub_le_iff_le_add, le_div_iff₀ scale]
    linarith
  have nearLow : (n : ℚ) / d - 1 / 2 ≤ near := by
    rw [sub_le_iff_le_add, div_le_iff₀ scale]
    linarith
  rw [whole]
  constructor
  · nlinarith
  · nlinarith

/-- On a grid with seventeen digits of a finite double, what is half a unit away from it lies in its
interval. -/
theorem holds_of_near {significand : Nat} {exponent : Int} (fits : Fits significand exponent)
    (positive : 0 < significand) {place : Int}
    (fine : 10 ^ 16 * (10 : ℚ) ^ place ≤ significand * 2 ^ exponent) {q : ℚ}
    (low : significand * 2 ^ exponent - 10 ^ place / 2 ≤ q)
    (high : q ≤ significand * 2 ^ exponent + 10 ^ place / 2) :
    (interval significand exponent).Holds q := by
  obtain ⟨margin, lower, _, margins⟩ := interval_low positive exponent
  have unit : (0 : ℚ) < 2 ^ (exponent - 2) := by positivity
  have step : (0 : ℚ) < 10 ^ place := by positivity
  have whole : (2 : ℚ) ^ exponent = 2 ^ 2 * 2 ^ (exponent - 2) := two_zpow_eq 2 (by omega)
  have small : (significand : ℚ) < 2 ^ 53 := by exact_mod_cast fits.small
  have scaled := mul_lt_mul_of_pos_right small unit
  rw [whole] at fine low high
  have wide : 10 ^ place / 2 < 2 * (2 : ℚ) ^ (exponent - 2) := by linarith
  have room : 10 ^ place / 2 < margin * 2 ^ (exponent - 2) := by
    rcases margins with ⟨rfl, edge, _⟩ | ⟨rfl, _⟩
    · have value : (significand : ℚ) = 2 ^ 52 := by
        rw [edge]
        norm_num
      rw [value] at fine
      linarith
    · exact wide
  refine Interval.holds_of_strict ?_ ?_
  · change _ * (2 : ℚ) ^ (exponent - 2) < q
    rw [lower]
    linarith
  · change q < ((4 * significand + 2 : Nat) : ℚ) * 2 ^ (exponent - 2)
    push_cast
    linarith

/-- A grid with seventeen digits of a finite double has a point in its interval. -/
theorem onGrid_ne_none {significand : Nat} {exponent : Int} (fits : Fits significand exponent)
    (positive : 0 < significand) {num den : Nat} (denominator : 0 < den)
    (same : (num : ℚ) / den = significand * 2 ^ exponent) {place : Int}
    (fine : 10 ^ 16 * (10 : ℚ) ^ place ≤ num / den) :
    onGrid (interval significand exponent) num den place ≠ none := by
  obtain ⟨low, high⟩ := near_bounds num denominator place
  rw [same] at fine low high
  have inside : (interval significand exponent).contains
      ⟨Rounding.halfEven.quotient false (inUnits num den place).1 (inUnits num den place).2,
        place⟩ =
        true := (contains_iff _ _).mpr (holds_of_near fits positive fine low high)
  unfold onGrid
  simp [inside]

theorem value_stripZeros (d : Digits) : (stripZeros d).value = d.value := by
  fun_induction stripZeros d with
  | case1 d more ih =>
    have split : d.digits = 10 * (d.digits / 10) := by omega
    have cast : (d.digits : ℚ) = 10 * (d.digits / 10 : Nat) := by exact_mod_cast split
    rw [ih, Digits.value, Digits.value, zpow_add_one₀ (by norm_num), cast]
    ring
  | case2 d done => rfl

/-- The shortest digits of a finite double lie in its interval. -/
theorem holds_shortest {significand : Nat} {exponent : Int} (fits : Fits significand exponent)
    (positive : 0 < significand) :
    (interval significand exponent).Holds (shortest significand exponent).value := by
  obtain ⟨numerator, denominator, same⟩ := ratio_spec positive exponent
  unfold shortest
  simp only
  rw [value_stripZeros]
  generalize (ratio significand exponent).1 = num at numerator same ⊢
  generalize (ratio significand exponent).2 = den at denominator same ⊢
  have first := decimalExponent_le numerator denominator
  generalize decimalExponent num den = top at first
  cases found : ((List.range 17).map fun (n : Nat) => top - (n : Int)).findSome?
      (onGrid (interval significand exponent) num den) with
  | some d =>
    obtain ⟨place, _, hit⟩ := List.exists_of_findSome?_eq_some found
    exact holds_of_onGrid hit
  | none =>
    have last : top - 16 ∈ (List.range 17).map fun (n : Nat) => top - (n : Int) :=
      List.mem_map.mpr ⟨16, by decide, rfl⟩
    have scaled : 10 ^ 16 * (10 : ℚ) ^ (top - 16) = 10 ^ top := by
      rw [← zpow_natCast, ← zpow_add₀ (by norm_num)]
      congr 1
      omega
    have missed := List.findSome?_eq_none_iff.mp found _ last
    exact absurd missed (onGrid_ne_none fits positive denominator same (scaled.trans_le first))

/- The double of the digits. -/

theorem value_bounds {digits : Nat} (some_ : digits ≠ 0) (place : Int) :
    (10 : ℚ) ^ (digitCount digits + place - 1) ≤ digits * 10 ^ place ∧
      digits * (10 : ℚ) ^ place < 10 ^ (digitCount digits + place) := by
  have ten : (10 : ℚ) ≠ 0 := by norm_num
  have unit : (0 : ℚ) < 10 ^ place := by positivity
  obtain ⟨low, high⟩ := digitCount_bounds some_
  have lowest : (digitCount digits : Int) + place - 1 = digitCount digits - 1 + place := by omega
  rw [lowest, zpow_add₀ ten, zpow_add₀ ten]
  constructor
  · gcongr
  · gcongr

/-- The powers of two that bound the doubles, and a power of ten beyond them. -/
theorem pow_two_lt_pow_ten : (2 : ℚ) ^ 1075 < 10 ^ 400 :=
  calc (2 : ℚ) ^ 1075 ≤ 2 ^ (3 * 400) := pow_le_pow_right₀ one_le_two (by omega)
    _ = (2 ^ 3) ^ 400 := pow_mul _ _ _
    _ < 10 ^ 400 := pow_lt_pow_left₀ (by norm_num) (by norm_num) (by omega)

/-- The numbers that round to a finite double are neither very small nor very large. -/
theorem bounds_of_holds {significand : Nat} {exponent : Int} (fits : Fits significand exponent)
    (positive : 0 < significand) {q : ℚ} (holds : (interval significand exponent).Holds q) :
    (10 : ℚ) ^ (-400 : Int) < q ∧ q < 10 ^ (400 : Int) := by
  have least := fits.least
  have most := fits.most
  have bottom : leastExponent = -1074 := rfl
  have low := (roundsTo_of_holds positive holds).low
  have high := lt_of_holds fits positive holds
  have half : (2 : ℚ) ^ exponent = 2 ^ 1 * 2 ^ (exponent - 1) := two_zpow_eq 1 (by omega)
  have unit : (0 : ℚ) < 2 ^ (exponent - 1) := by positivity
  have one : (1 : ℚ) ≤ significand := by exact_mod_cast positive
  constructor
  · calc (10 : ℚ) ^ (-400 : Int) < 2 ^ (-1075 : Int) :=
          inv_strictAnti₀ (by positivity) pow_two_lt_pow_ten
      _ ≤ 2 ^ (exponent - 1) := zpow_le_zpow_right₀ one_le_two (by omega)
      _ ≤ (significand - 1 / 2) * 2 ^ exponent := by
          rw [half]
          nlinarith
      _ ≤ q := low
  · calc q < 2 ^ (exponent + 53) := high
      _ ≤ 2 ^ (1075 : Int) := zpow_le_zpow_right₀ one_le_two (by omega)
      _ < 10 ^ (400 : Int) := pow_two_lt_pow_ten

/-- Digits that round to a finite double are not those that are infinite or zero in any case. -/
theorem size_of_holds {significand : Nat} {exponent : Int} (fits : Fits significand exponent)
    (positive : 0 < significand) {digits : Nat} {place : Int}
    (holds : (interval significand exponent).Holds (digits * 10 ^ place)) :
    digits ≠ 0 ∧ digitCount digits + place ≤ 400 ∧ -400 ≤ digitCount digits + place := by
  obtain ⟨low, high⟩ := bounds_of_holds fits positive holds
  have ten : (1 : ℚ) < 10 := by norm_num
  have some_ : digits ≠ 0 := by
    rintro rfl
    have power : (0 : ℚ) < 10 ^ (-400 : Int) := by positivity
    rw [Nat.cast_zero, zero_mul] at low
    exact lt_asymm low power
  obtain ⟨first, last⟩ := value_bounds some_ place
  have above := (zpow_lt_zpow_iff_right₀ ten).mp (first.trans_lt high)
  have below := (zpow_lt_zpow_iff_right₀ ten).mp (low.trans last)
  exact ⟨some_, by omega, below.le⟩

/-- What lies in the interval of a finite double is read as this double. -/
theorem ofDecimal_of_holds {significand : Nat} {exponent : Int} (fits : Fits significand exponent)
    (positive : 0 < significand) {digits : Nat} {place : Int}
    (holds : (interval significand exponent).Holds (digits * 10 ^ place)) :
    ofDecimal false digits place = signed false (word significand exponent) := by
  obtain ⟨some_, notLarge, notSmall⟩ := size_of_holds fits positive holds
  have numerator := Nat.pos_of_ne_zero some_
  unfold ofDecimal
  rw [if_neg some_, if_neg (by omega), if_neg (by omega)]
  split
  · rename_i above
    have power := zpow_of_nonneg 10 above
    have many : 0 < digits * Nat.pow 10 place.toNat :=
      Nat.mul_pos numerator (Nat.pow_pos (by decide))
    rw [ofRatio, ratioWord_of_holds fits positive holds many Nat.one_pos]
    simp [power]
  · rename_i below
    have power := zpow_of_neg 10 below
    have many : 0 < Nat.pow 10 (-place).toNat := Nat.pow_pos (by decide)
    rw [ofRatio, ratioWord_of_holds fits positive holds numerator many]
    simp [power, div_eq_mul_inv]

end InfixCalc.Binary64
