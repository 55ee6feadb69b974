import Mathlib.Analysis.SpecialFunctions.Log.Basic
import InfixCalc.Proofs.Decimal.Circle

/-!
# Decimals near to real numbers

A correctly rounded function gives a number of the context that is nearest to its real value. It is
off by half a unit where the digits end; a magnitude that is rounded in some mode is off by a unit
at most, and by half of one where the mode goes to the nearest number.
-/

namespace InfixCalc

open InfixCalc.Number

namespace Number.Rounding

/-- How many units a rounded magnitude may be off. -/
def slack : Rounding → ℚ
  | .halfUp | .halfDown | .halfEven => 1 / 2
  | _ => 1

theorem slack_cases (mode : Rounding) : mode.slack = 1 / 2 ∨ mode.slack = 1 := by
  cases mode <;> simp [slack]

theorem half_le_slack (mode : Rounding) : 1 / 2 ≤ mode.slack := by
  rcases mode.slack_cases with half | one <;> linarith

theorem slack_le_one (mode : Rounding) : mode.slack ≤ 1 := by
  rcases mode.slack_cases with half | one <;> linarith

/-- The modes that go to the nearest number. -/
theorem slack_of_mem {mode : Rounding} (half : mode ∈ [.halfUp, .halfDown, .halfEven]) :
    mode.slack = 1 / 2 := by
  simp only [List.mem_cons, List.not_mem_nil, or_false] at half
  rcases half with rfl | rfl | rfl <;> rfl

/-- With less slack than a unit, what is less than a half is dropped and what is more is lifted. -/
theorem goesUp_of_slack {mode : Rounding} (near : mode.slack < 1) (negative : Bool) (kept : Nat) :
    mode.goesUp negative kept .lt = false ∧ mode.goesUp negative kept .gt = true := by
  cases mode <;> first | exact ⟨rfl, rfl⟩ | exact absurd near (lt_irrefl 1)

theorem abs_nearest_sub_le (mode : Rounding) (negative : Bool) {q : ℚ} (nonneg : 0 ≤ q) :
    |mode.nearest negative q - q| ≤ mode.slack := by
  have half := mode.half_le_slack
  obtain ⟨n, low, high⟩ : ∃ n : Nat, n ≤ q ∧ q < n + 1 :=
    ⟨⌊q⌋₊, Nat.floor_le nonneg, Nat.lt_floor_add_one q⟩
  rcases low.eq_or_lt with rfl | above
  · rw [nearest_natCast, sub_self, abs_zero]
    linarith
  · rw [nearest_of_between above high]
    rcases mode.slack_le_one.eq_or_lt with one | near
    · rw [one, abs_le]
      split_ifs <;> push_cast <;> constructor <;> linarith
    · obtain ⟨drops, lifts⟩ := goesUp_of_slack near negative n
      rcases lt_trichotomy (2 * (q - n)) 1 with less | same | more
      · rw [compare_lt_iff_lt.mpr less, drops, if_neg Bool.false_ne_true, abs_le]
        constructor <;> linarith
      · rw [abs_le]
        split_ifs <;> push_cast <;> constructor <;> linarith
      · rw [compare_gt_iff_gt.mpr more, lifts, if_pos rfl, abs_le]
        push_cast
        constructor <;> linarith

/-- The integer next to a number that is less than one away from an integer is one away at most. -/
theorem nearest_bounds (mode : Rounding) {r : ℚ} {m : Nat} (one : 1 ≤ r) (near : |r - m| < 1) :
    1 ≤ mode.nearest false r ∧ mode.nearest false r ≤ m + 1 ∧ m ≤ mode.nearest false r + 1 := by
  have low := mode.floor_le_nearest false r
  have high := mode.nearest_le_succ false r
  obtain ⟨least, most⟩ := abs_lt.mp near
  have below : ⌊r⌋₊ < m + 1 := (Nat.floor_lt (by linarith)).mpr (by push_cast; linarith)
  have above : m < ⌊r⌋₊ + 1 + 1 := by
    have next := Nat.lt_floor_add_one r
    exact_mod_cast (by linarith : (m : ℚ) < ⌊r⌋₊ + 1 + 1)
  have some_ : 1 ≤ ⌊r⌋₊ := (Nat.one_le_floor_iff r).mpr one
  omega

theorem nearest_eq_of_near {mode : Rounding} (half : mode ∈ [.halfUp, .halfDown, .halfEven])
    {r : ℚ} {m : Nat} (nonneg : 0 ≤ r) (near : |r - m| < 1 / 2) : mode.nearest false r = m := by
  have own := mode.abs_nearest_sub_le false nonneg
  rw [slack_of_mem half] at own
  obtain ⟨least, most⟩ := abs_lt.mp near
  obtain ⟨least', most'⟩ := abs_le.mp own
  have below : mode.nearest false r < m + 1 := by
    exact_mod_cast (by linarith : (mode.nearest false r : ℚ) < m + 1)
  have above : m < mode.nearest false r + 1 := by
    exact_mod_cast (by linarith : (m : ℚ) < mode.nearest false r + 1)
  omega

/-- Down, a number that is less than one away from an integer goes there unless it is below. -/
theorem nearest_eq_iff_of_mem {mode : Rounding} (down : mode ∈ [.down, .floor]) {r : ℚ} {m : Nat}
    (nonneg : 0 ≤ r) (near : |r - m| < 1) : mode.nearest false r = m ↔ (m : ℚ) ≤ r := by
  have floor : mode.nearest false r = ⌊r⌋₊ := by
    simp only [List.mem_cons, List.not_mem_nil, or_false] at down
    rcases down with rfl | rfl <;> simp [nearest, goesUp]
  rw [floor, Nat.floor_eq_iff nonneg, and_iff_left]
  linarith [(abs_lt.mp near).2]

end Number.Rounding

theorem exists_natCast_near {x : ℝ} (nonneg : 0 ≤ x) {n : Nat} (le : x ≤ n) :
    ∃ m : Nat, m ≤ n ∧ |x - m| ≤ 1 / 2 := by
  have low := Nat.floor_le (show 0 ≤ x + 1 / 2 by linarith)
  have high := Nat.lt_floor_add_one (x + 1 / 2)
  refine ⟨⌊x + 1 / 2⌋₊, ?_, abs_le.mpr ⟨by linarith, by linarith⟩⟩
  have cast : (⌊x + 1 / 2⌋₊ : ℝ) < n + 1 := by linarith
  exact Nat.lt_succ_iff.mp (by exact_mod_cast cast)

namespace Context

variable {ctx : Context} {negative : Bool} {y : ℝ} {v : ℚ}

theorem abs_nearest_sub_le (nonneg : 0 ≤ v) :
    |ctx.nearest negative v - v| ≤ ctx.rounding.slack * 10 ^ ctx.place v := by
  have unit := ten_zpow_pos (ctx.place v)
  have near := ctx.rounding.abs_nearest_sub_le negative (div_nonneg nonneg unit.le)
  have same : ctx.nearest negative v - v =
      (ctx.rounding.nearest negative (v / 10 ^ ctx.place v) - v / 10 ^ ctx.place v) *
        10 ^ ctx.place v := by
    rw [nearest, sub_mul, div_mul_cancel₀ _ unit.ne']
  rw [same, abs_mul, abs_of_pos unit]
  exact mul_le_mul_of_nonneg_right near unit.le

/-- A number of the context to which the real is as near as to any other one. -/
structure IsNearest (ctx : Context) (y : ℝ) (v : ℚ) : Prop where
  holds : ctx.Holds |v|
  near : ∀ w : ℚ, ctx.Holds |w| → |y - v| ≤ |y - w|

theorem IsNearest.le_of_holds (nearest : ctx.IsNearest y v) {w : ℚ} (holds : ctx.Holds |w|)
    (le : (w : ℝ) ≤ y) : w ≤ v := by
  by_contra less
  have below : (v : ℝ) < w := by exact_mod_cast not_le.mp less
  have near := nearest.near w holds
  rw [abs_of_nonneg (by linarith), abs_of_nonneg (by linarith)] at near
  linarith

theorem IsNearest.eq_of_holds (nearest : ctx.IsNearest y v) {w : ℚ} (holds : ctx.Holds |w|)
    (same : y = w) : v = w := by
  have near := nearest.near w holds
  rw [same, sub_self, abs_zero] at near
  exact_mod_cast (sub_eq_zero.mp (abs_eq_zero.mp (near.antisymm (abs_nonneg _)))).symm

/-- A number of the context that is nearest to a real is off by half a unit where its digits end. -/
theorem IsNearest.abs_sub_le (nearest : ctx.IsNearest y v) (nonneg : 0 ≤ y) {j : ℤ}
    (low : ctx.lastPlace ≤ j) (high : y ≤ 10 ^ (ctx.precision + j)) : |y - v| ≤ 10 ^ j / 2 := by
  have unit : (0 : ℝ) < 10 ^ j := zpow_pos (by norm_num) j
  have few : y / 10 ^ j ≤ (10 ^ ctx.precision : Nat) := by
    rw [div_le_iff₀ unit, Nat.cast_pow, Nat.cast_ofNat, ← zpow_natCast, ← zpow_add₀ (by norm_num)]
    exact high
  obtain ⟨m, digits, half⟩ := exists_natCast_near (div_nonneg nonneg unit.le) few
  have held : ctx.Holds |(m : ℚ) * 10 ^ j| := by
    rw [abs_of_nonneg (mul_nonneg (Nat.cast_nonneg m) (ten_zpow_pos j).le)]
    exact ⟨m, j, rfl, digits, low⟩
  calc |y - v| ≤ |y - ((m : ℚ) * 10 ^ j : ℚ)| := nearest.near _ held
    _ = |(y / 10 ^ j - m) * 10 ^ j| := by
      rw [sub_mul, div_mul_cancel₀ _ unit.ne']
      push_cast
      rfl
    _ ≤ 1 / 2 * 10 ^ j := by
      rw [abs_mul, abs_of_pos unit]
      exact mul_le_mul_of_nonneg_right half unit.le
    _ = 10 ^ j / 2 := by ring

/-- A real above one is off by half of its last digit. -/
theorem IsNearest.abs_sub_le_mul (nearest : ctx.IsNearest y v) (one : 1 ≤ y)
    (low : ctx.lastPlace ≤ 1 - ctx.precision) :
    |y - v| ≤ y * 10 ^ (1 - ctx.precision : ℤ) / 2 := by
  have positive : 0 < y := by linarith
  have above : 0 ≤ Int.log 10 y := by
    refine (Int.zpow_le_iff_le_log (by norm_num) positive).mp ?_
    simpa using one
  have least : (10 : ℝ) ^ Int.log 10 y ≤ y := by
    exact_mod_cast Int.zpow_log_le_self (b := 10) (by norm_num) positive
  have most : y < 10 ^ (Int.log 10 y + 1) := by
    exact_mod_cast Int.lt_zpow_succ_log_self (b := 10) (by norm_num) y
  refine (nearest.abs_sub_le positive.le
    (show ctx.lastPlace ≤ Int.log 10 y + (1 - ctx.precision) by omega) ?_).trans ?_
  · rw [show (ctx.precision : ℤ) + (Int.log 10 y + (1 - ctx.precision)) = Int.log 10 y + 1 by ring]
    exact most.le
  · rw [zpow_add₀ (by norm_num)]
    have step : (0 : ℝ) < 10 ^ (1 - ctx.precision : ℤ) := zpow_pos (by norm_num) _
    linarith [mul_le_mul_of_nonneg_right least step.le]

/-- Numbers of the context are a unit apart where the digits of one of them end. -/
theorem Holds.eq_or_apart {m : Nat} {j : ℤ} (long : 10 ^ (ctx.precision - 1) < m) {w : ℚ}
    (some_ : 1 ≤ ctx.precision) (holds : ctx.Holds |w|) :
    w = m * 10 ^ j ∨ (10 : ℚ) ^ j ≤ |m * 10 ^ j - w| := by
  have unit := ten_zpow_pos j
  obtain ⟨n, i, same, few, _⟩ := holds
  have below (less : |w| ≤ (m - 1 : ℚ) * 10 ^ j) : (10 : ℚ) ^ j ≤ |m * 10 ^ j - w| := by
    refine le_trans ?_ (le_abs_self _)
    linarith [le_abs_self w]
  rcases le_or_gt j i with multiple | deep
  · obtain ⟨k, scaled⟩ := exists_ten_zpow_eq multiple
    rcases le_or_gt 0 w with nonneg | negative
    · rw [abs_of_nonneg nonneg, scaled, ← mul_assoc, ← Nat.cast_mul] at same
      rw [same, ← sub_mul, abs_mul, abs_of_pos unit]
      rcases eq_or_ne (n * k) m with rfl | other
      · exact .inl rfl
      · refine .inr (le_mul_of_one_le_left unit.le ?_)
        have apart : (m : ℤ) - (n * k : Nat) ≠ 0 := by omega
        exact_mod_cast Int.one_le_abs apart
    · refine .inr (le_trans ?_ (le_abs_self _))
      have one : (1 : ℚ) ≤ m := by exact_mod_cast Nat.one_le_of_lt long
      linarith [le_mul_of_one_le_left unit.le one]
  · refine .inr (below ?_)
    have whole : (10 ^ (ctx.precision - 1) : ℚ) ≤ m - 1 := by
      have : (10 ^ (ctx.precision - 1) : ℚ) + 1 ≤ m := by exact_mod_cast long
      linarith
    calc |w| = n * 10 ^ i := same
      _ ≤ 10 ^ ctx.precision * 10 ^ (j - 1) :=
        mul_le_mul (by exact_mod_cast few) (ten_zpow_le (by omega)) (ten_zpow_pos i).le
          (by positivity)
      _ = 10 ^ (ctx.precision - 1) * 10 ^ j := by
        rw [← zpow_natCast, ← zpow_natCast, ← ten_zpow_add, ← ten_zpow_add]
        congr 1
        omega
      _ ≤ (m - 1 : ℚ) * 10 ^ j := mul_le_mul_of_nonneg_right whole unit.le

theorem isNearest_of_near {m : Nat} {j : ℤ} (long : 10 ^ (ctx.precision - 1) < m)
    (few : m ≤ 10 ^ ctx.precision) (some_ : 1 ≤ ctx.precision) (low : ctx.lastPlace ≤ j)
    (near : |y - m * 10 ^ j| ≤ 10 ^ j / 2) : ctx.IsNearest y (m * 10 ^ j) := by
  refine ⟨?_, fun w holds => ?_⟩
  · rw [abs_of_nonneg (mul_nonneg (Nat.cast_nonneg m) (ten_zpow_pos j).le)]
    exact ⟨m, j, rfl, few, low⟩
  · rcases holds.eq_or_apart (j := j) long some_ with rfl | apart
    · exact le_rfl
    · have cast := (Rat.cast_le (K := ℝ)).mpr apart
      push_cast at cast
      have split := abs_sub_le (m * 10 ^ j : ℝ) y w
      rw [abs_sub_comm (m * 10 ^ j : ℝ) y] at split
      push_cast
      linarith

end Context
end InfixCalc
