import Mathlib.Algebra.Order.Floor.Semifield
import Mathlib.Data.Int.Log
import Mathlib.Data.Rat.Floor
import Mathlib.Tactic.FieldSimp
import Mathlib.Tactic.Linarith
import Mathlib.Tactic.Positivity
import Mathlib.Tactic.Ring
import InfixCalc.Decimal.Context

/-!
# The nearest number of a context

A rounding mode takes a rational number to one of the integers around it, and a context takes a
magnitude to a multiple of the place where its digits end. Two magnitudes without half a unit of
that place between them go to the same number.
-/

namespace InfixCalc

open InfixCalc.Number

namespace Number.Rounding

variable (mode : Rounding) (negative : Bool)

/-- The integer that a rational number goes to; the sign only steers the directed modes. -/
def nearest (q : ℚ) : Nat :=
  if Int.fract q = 0 then ⌊q⌋₊
  else if mode.goesUp negative ⌊q⌋₊ (compare (2 * Int.fract q) 1) then ⌊q⌋₊ + 1
  else ⌊q⌋₊

theorem nearest_natCast (n : Nat) : mode.nearest negative n = n := by simp [nearest]

theorem quotient_eq_nearest (num : Nat) {den : Nat} (positive : 0 < den) :
    mode.quotient negative num den = mode.nearest negative (num / den) := by
  have unit : (0 : ℚ) < den := by exact_mod_cast positive
  have part : Int.fract ((num : ℚ) / den) = ((num % den : Nat) : ℚ) / den :=
    Int.fract_div_natCast_eq_div_natCast_mod
  have none_left : ((num % den : Nat) : ℚ) / den = 0 ↔ num % den = 0 := by
    rw [div_eq_zero_iff, Nat.cast_eq_zero, or_iff_left unit.ne']
  have half : compare (2 * (((num % den : Nat) : ℚ) / den)) 1 =
      compare (2 * (num % den)) den := by
    have scaled : 2 * (((num % den : Nat) : ℚ) / den) = ((2 * (num % den) : Nat) : ℚ) / den := by
      push_cast
      ring
    rw [scaled]
    rcases lt_trichotomy (2 * (num % den)) den with less | same | more
    · rw [compare_lt_iff_lt.mpr less, compare_lt_iff_lt, div_lt_one unit]
      exact_mod_cast less
    · rw [compare_eq_iff_eq.mpr same, compare_eq_iff_eq, same, div_self unit.ne']
    · rw [compare_gt_iff_gt.mpr more, compare_gt_iff_gt, one_lt_div unit]
      exact_mod_cast more
  unfold quotient nearest
  simp only [part, none_left, half, Nat.floor_div_eq_div]

theorem floor_le_nearest (q : ℚ) : ⌊q⌋₊ ≤ mode.nearest negative q := by
  unfold nearest
  split_ifs <;> omega

theorem nearest_le_succ (q : ℚ) : mode.nearest negative q ≤ ⌊q⌋₊ + 1 := by
  unfold nearest
  split_ifs <;> omega

variable {mode negative} {p q : ℚ} {n : Nat}

theorem floor_eq (low : n ≤ q) (high : q < n + 1) : ⌊q⌋₊ = n :=
  (Nat.floor_eq_iff ((Nat.cast_nonneg n).trans low)).mpr ⟨low, high⟩

theorem fract_eq (low : n ≤ q) (high : q < n + 1) : Int.fract q = q - n := by
  have whole : ⌊q⌋ = (n : ℤ) := Int.floor_eq_iff.mpr ⟨by exact_mod_cast low, by exact_mod_cast high⟩
  rw [Int.fract, whole, Int.cast_natCast]

/-- Between two integers the nearest one depends on the side of the middle. -/
theorem nearest_of_between (low : n < q) (high : q < n + 1) :
    mode.nearest negative q =
      if mode.goesUp negative n (compare (2 * (q - n)) 1) then n + 1 else n := by
  have inexact : q - n ≠ 0 := sub_ne_zero.mpr low.ne'
  rw [nearest, floor_eq low.le high, fract_eq low.le high, if_neg inexact]

/-- Numbers without an integer or the middle of two between them go to the same integer. -/
theorem nearest_congr (nonneg : 0 ≤ p) (ordered : p ≤ q)
    (apart : ∀ k : Nat, p ≤ k / 2 → q < k / 2) :
    mode.nearest negative p = mode.nearest negative q := by
  obtain ⟨n, low, high⟩ : ∃ n : Nat, n ≤ p ∧ p < n + 1 :=
    ⟨⌊p⌋₊, Nat.floor_le nonneg, Nat.lt_floor_add_one p⟩
  have under : q < n + 1 := by
    have next := apart (2 * n + 2)
    push_cast at next
    linarith [next (by linarith)]
  have above : n < p := by
    refine lt_of_le_of_ne low fun same => ?_
    have here := apart (2 * n)
    push_cast at here
    linarith [here (by linarith)]
  have middle : compare (2 * (p - n)) 1 = compare (2 * (q - n)) 1 := by
    have half := apart (2 * n + 1)
    push_cast at half
    by_cases less : p ≤ (2 * n + 1) / 2
    · rw [compare_lt_iff_lt.mpr (by linarith [half less]),
        compare_lt_iff_lt.mpr (by linarith [half less])]
    · rw [compare_gt_iff_gt.mpr (by linarith), compare_gt_iff_gt.mpr (by linarith)]
  rw [nearest_of_between above high, nearest_of_between (above.trans_le ordered) under, middle]

theorem goesUp_mono {half other : Ordering}
    (le : half = other ∨ half = .lt ∨ other = .gt)
    (up : mode.goesUp negative n half = true) : mode.goesUp negative n other = true := by
  rcases le with rfl | rfl | rfl
  · exact up
  · cases mode <;> cases other <;> simp_all [goesUp]
  · cases mode <;> cases half <;> simp_all [goesUp]

theorem nearest_mono (nonneg : 0 ≤ p) (ordered : p ≤ q) :
    mode.nearest negative p ≤ mode.nearest negative q := by
  obtain ⟨n, low, high⟩ : ∃ n : Nat, n ≤ p ∧ p < n + 1 :=
    ⟨⌊p⌋₊, Nat.floor_le nonneg, Nat.lt_floor_add_one p⟩
  have most := mode.nearest_le_succ negative p
  have least := mode.floor_le_nearest negative q
  rw [floor_eq low high] at most
  rcases le_or_gt ((n : ℚ) + 1) q with beyond | under
  · have next : n + 1 ≤ ⌊q⌋₊ := Nat.le_floor (by exact_mod_cast beyond)
    omega
  · rcases low.eq_or_lt with rfl | above
    · rw [nearest_natCast]
      rwa [floor_eq ordered under] at least
    · have sides : compare (2 * (p - n)) 1 = compare (2 * (q - n)) 1 ∨
          compare (2 * (p - n)) 1 = .lt ∨ compare (2 * (q - n)) 1 = .gt := by
        rcases lt_trichotomy (2 * (p - n)) 1 with less | same | more
        · exact .inr (.inl (compare_lt_iff_lt.mpr less))
        · rcases ordered.eq_or_lt with rfl | further
          · exact .inl rfl
          · exact .inr (.inr (compare_gt_iff_gt.mpr (by linarith)))
        · exact .inr (.inr (compare_gt_iff_gt.mpr (by linarith)))
      rw [nearest_of_between above high, nearest_of_between (above.trans_le ordered) under]
      split_ifs with up up'
      · exact le_rfl
      · exact absurd (goesUp_mono sides up) up'
      · omega
      · exact le_rfl

/-- Where the number goes does not depend on the side of the middle. -/
def IsDirected (mode : Rounding) : Prop :=
  ∀ negative kept half other, mode.goesUp negative kept half = mode.goesUp negative kept other

/-- In a directed mode all numbers between two integers go to the same one. -/
theorem IsDirected.nearest_eq (directed : mode.IsDirected) (low : n < p) (high : p < n + 1)
    (low' : n < q) (high' : q < n + 1) : mode.nearest negative p = mode.nearest negative q := by
  rw [nearest_of_between low high, nearest_of_between low' high', directed negative n _ _]

/-- What is less than a half is dropped. -/
def Drops (mode : Rounding) (negative : Bool) : Prop :=
  ∀ kept, mode.goesUp negative kept .lt = false

theorem Drops.nearest_eq (drops : mode.Drops negative) (low : n ≤ q) (high : q < n + 1 / 2) :
    mode.nearest negative q = n := by
  rcases low.eq_or_lt with rfl | above
  · exact nearest_natCast mode negative n
  · have less : compare (2 * (q - n)) 1 = .lt := compare_lt_iff_lt.mpr (by linarith)
    rw [nearest_of_between above (by linarith), less, drops, if_neg Bool.false_ne_true]

end Number.Rounding

/- Powers of ten. -/

theorem ten_zpow_pos (place : ℤ) : (0 : ℚ) < 10 ^ place := zpow_pos (by norm_num) place

theorem ten_zpow_le {p q : ℤ} (le : p ≤ q) : (10 : ℚ) ^ p ≤ 10 ^ q :=
  zpow_le_zpow_right₀ (by norm_num) le

theorem ten_zpow_add (p q : ℤ) : (10 : ℚ) ^ (p + q) = 10 ^ p * 10 ^ q :=
  zpow_add₀ (by norm_num) p q

theorem ten_zpow_succ (p : ℤ) : (10 : ℚ) ^ (p + 1) = 10 * 10 ^ p := by
  rw [ten_zpow_add, zpow_one, mul_comm]

/-- A power of ten is a multiple of any lower one. -/
theorem exists_ten_zpow_eq {p q : ℤ} (le : p ≤ q) : ∃ n : Nat, (10 : ℚ) ^ q = n * 10 ^ p := by
  refine ⟨10 ^ (q - p).toNat, ?_⟩
  rw [Nat.cast_pow, Nat.cast_ofNat, ← zpow_natCast, Int.toNat_of_nonneg (by omega), ← ten_zpow_add,
    sub_add_cancel]

theorem log_eq {v : ℚ} {k : ℤ} (low : 10 ^ k ≤ v) (high : v < 10 ^ (k + 1)) :
    Int.log 10 v = k := by
  have positive : 0 < v := (ten_zpow_pos k).trans_le low
  have below : k ≤ Int.log 10 v :=
    (Int.zpow_le_iff_le_log (by norm_num) positive).mp (by exact_mod_cast low)
  have above : Int.log 10 v < k + 1 :=
    (Int.lt_zpow_iff_log_lt (by norm_num) positive).mp (by exact_mod_cast high)
  omega

theorem ten_log_le {v : ℚ} (positive : 0 < v) : 10 ^ Int.log 10 v ≤ v := by
  exact_mod_cast Int.zpow_log_le_self (b := 10) (by norm_num) positive

theorem lt_ten_log (v : ℚ) : v < 10 ^ (Int.log 10 v + 1) := by
  exact_mod_cast Int.lt_zpow_succ_log_self (b := 10) (by norm_num) v

theorem log_lt_of_lt {v : ℚ} {k : ℤ} (positive : 0 < v) (high : v < 10 ^ k) : Int.log 10 v < k :=
  (Int.lt_zpow_iff_log_lt (by norm_num) positive).mp (by exact_mod_cast high)

theorem le_log_of_le {v : ℚ} {k : ℤ} (low : 10 ^ k ≤ v) : k ≤ Int.log 10 v :=
  (Int.zpow_le_iff_le_log (by norm_num) ((ten_zpow_pos k).trans_le low)).mp (by exact_mod_cast low)

namespace Context

variable (ctx : Context)

/-- The unit in the last place of the context. -/
def unit : ℚ := 10 ^ ctx.lastPlace

theorem unit_pos : 0 < ctx.unit := ten_zpow_pos _

/-- The place where the digits of a magnitude end. -/
def place (v : ℚ) : ℤ := max ctx.lastPlace (Int.log 10 v - ctx.precision + 1)

/-- The number of the context that a magnitude goes to. -/
def nearest (negative : Bool) (v : ℚ) : ℚ :=
  ctx.rounding.nearest negative (v / 10 ^ ctx.place v) * 10 ^ ctx.place v

/-- The magnitude has no more digits than the context, and none below its last place. -/
def Holds (v : ℚ) : Prop :=
  ∃ (n : Nat) (place : ℤ), v = n * 10 ^ place ∧ n ≤ 10 ^ ctx.precision ∧ ctx.lastPlace ≤ place

variable {ctx} {negative : Bool} {v w : ℚ}

theorem lt_ten_place (v : ℚ) : v < 10 ^ (ctx.place v + ctx.precision) := by
  refine (lt_ten_log v).trans_le (ten_zpow_le ?_)
  have := le_max_right ctx.lastPlace (Int.log 10 v - ctx.precision + 1)
  unfold place
  omega

theorem div_lt_precision (v : ℚ) : v / 10 ^ ctx.place v < 10 ^ ctx.precision := by
  rw [div_lt_iff₀ (ten_zpow_pos _), ← zpow_natCast, ← ten_zpow_add, add_comm]
  exact lt_ten_place v

/-- One unit where the digits end is one unit of the last place, or little beside the magnitude. -/
theorem ten_place_le (positive : 0 < v) :
    10 ^ ctx.place v ≤ max ctx.unit (v * 10 ^ (1 - ctx.precision : ℤ)) := by
  unfold place
  rcases le_total (Int.log 10 v - ctx.precision + 1) ctx.lastPlace with low | high
  · rw [max_eq_left low]
    exact le_max_left _ _
  · rw [max_eq_right high, show Int.log 10 v - ctx.precision + 1 =
      Int.log 10 v + (1 - ctx.precision) by ring, ten_zpow_add]
    exact le_max_of_le_right
      (mul_le_mul_of_nonneg_right (ten_log_le positive) (ten_zpow_pos _).le)

theorem nearest_zero : ctx.nearest negative 0 = 0 := by
  have none_ := ctx.rounding.nearest_natCast negative 0
  rw [Nat.cast_zero] at none_
  rw [nearest, zero_div, none_, Nat.cast_zero, zero_mul]

theorem nearest_nonneg : 0 ≤ ctx.nearest negative v :=
  mul_nonneg (Nat.cast_nonneg _) (ten_zpow_pos _).le

theorem nearest_le (nonneg : 0 ≤ v) : ctx.nearest negative v ≤ v + 10 ^ ctx.place v := by
  have unit := ten_zpow_pos (ctx.place v)
  have near := ctx.rounding.nearest_le_succ negative (v / 10 ^ ctx.place v)
  have low := Nat.floor_le (div_nonneg nonneg unit.le)
  have cast : (ctx.rounding.nearest negative (v / 10 ^ ctx.place v) : ℚ) ≤
      v / 10 ^ ctx.place v + 1 :=
    (by exact_mod_cast near : (_ : ℚ) ≤ (⌊v / 10 ^ ctx.place v⌋₊ : ℚ) + 1).trans (by linarith)
  calc ctx.nearest negative v ≤ (v / 10 ^ ctx.place v + 1) * 10 ^ ctx.place v :=
        mul_le_mul_of_nonneg_right cast unit.le
    _ = v + 10 ^ ctx.place v := by field_simp

theorem le_nearest (v : ℚ) : v - 10 ^ ctx.place v ≤ ctx.nearest negative v := by
  have unit := ten_zpow_pos (ctx.place v)
  have near := ctx.rounding.floor_le_nearest negative (v / 10 ^ ctx.place v)
  have low := Nat.lt_floor_add_one (v / 10 ^ ctx.place v)
  have cast : v / 10 ^ ctx.place v - 1 ≤
      (ctx.rounding.nearest negative (v / 10 ^ ctx.place v) : ℚ) := by
    have : (⌊v / 10 ^ ctx.place v⌋₊ : ℚ) ≤
        ctx.rounding.nearest negative (v / 10 ^ ctx.place v) := by
      exact_mod_cast near
    linarith
  calc v - 10 ^ ctx.place v = (v / 10 ^ ctx.place v - 1) * 10 ^ ctx.place v := by field_simp
    _ ≤ ctx.nearest negative v := mul_le_mul_of_nonneg_right cast unit.le

theorem place_mono (positive : 0 < v) (ordered : v ≤ w) : ctx.place v ≤ ctx.place w := by
  have : Int.log 10 v ≤ Int.log 10 w := Int.log_mono_right positive ordered
  unfold place
  omega

theorem le_nearest_of_multiple {n : Nat} (low : n * 10 ^ ctx.place v ≤ v) :
    n * 10 ^ ctx.place v ≤ ctx.nearest negative v := by
  have unit := ten_zpow_pos (ctx.place v)
  have floor : n ≤ ⌊v / 10 ^ ctx.place v⌋₊ := Nat.le_floor ((le_div_iff₀ unit).mpr low)
  have near := ctx.rounding.floor_le_nearest negative (v / 10 ^ ctx.place v)
  exact mul_le_mul_of_nonneg_right (Nat.cast_le.mpr (floor.trans near)) unit.le

/-- Counted in units of its place, a rounded number has the digits of the context. -/
theorem units_le_precision (nonneg : 0 ≤ v) :
    ctx.rounding.nearest negative (v / 10 ^ ctx.place v) ≤ 10 ^ ctx.precision := by
  have near := ctx.rounding.nearest_le_succ negative (v / 10 ^ ctx.place v)
  have floor : ⌊v / 10 ^ ctx.place v⌋₊ < 10 ^ ctx.precision :=
    (Nat.floor_lt (div_nonneg nonneg (ten_zpow_pos _).le)).mpr
      (by exact_mod_cast div_lt_precision v)
  exact near.trans floor

theorem nearest_le_ten_place (nonneg : 0 ≤ v) :
    ctx.nearest negative v ≤ 10 ^ (ctx.place v + ctx.precision) := by
  rw [ten_zpow_add, mul_comm, zpow_natCast]
  exact mul_le_mul_of_nonneg_right (by exact_mod_cast units_le_precision nonneg)
    (ten_zpow_pos _).le

/-- A number of the context goes to itself. -/
theorem nearest_of_multiple {n : Nat} {j : ℤ} (same : v = n * 10 ^ j) (low : ctx.place v ≤ j) :
    ctx.nearest negative v = v := by
  obtain ⟨m, scaled⟩ := exists_ten_zpow_eq low
  have whole : v / 10 ^ ctx.place v = ((n * m : Nat) : ℚ) := by
    rw [div_eq_iff (ten_zpow_pos _).ne', Nat.cast_mul, mul_assoc, ← scaled]
    exact same
  rw [nearest, whole, Rounding.nearest_natCast, ← whole, div_mul_cancel₀ _ (ten_zpow_pos _).ne']

variable (some_ : 1 ≤ ctx.precision)
include some_

theorem Holds.exists_multiple (holds : ctx.Holds v) :
    ∃ (n : Nat) (j : ℤ), v = n * 10 ^ j ∧ n < 10 ^ ctx.precision ∧ ctx.lastPlace ≤ j := by
  obtain ⟨n, j, same, small, low⟩ := holds
  rcases small.lt_or_eq with less | full
  · exact ⟨n, j, same, less, low⟩
  · refine ⟨10 ^ (ctx.precision - 1), j + 1, ?_, Nat.pow_lt_pow_right (by norm_num) (by omega),
      by omega⟩
    obtain ⟨p, next⟩ : ∃ p, ctx.precision = p + 1 := ⟨ctx.precision - 1, by omega⟩
    rw [same, full, next, Nat.add_sub_cancel, ten_zpow_succ]
    push_cast
    ring

theorem Holds.nearest_eq (holds : ctx.Holds v) : ctx.nearest negative v = v := by
  obtain ⟨n, j, same, small, low⟩ := holds.exists_multiple some_
  rcases Nat.eq_zero_or_pos n with rfl | positive
  · rw [Nat.cast_zero, zero_mul] at same
    rw [same, nearest_zero]
  · refine nearest_of_multiple same (max_le low ?_)
    have high : v < 10 ^ (j + ctx.precision) := by
      rw [ten_zpow_add, mul_comm, same, zpow_natCast]
      exact mul_lt_mul_of_pos_right (by exact_mod_cast small) (ten_zpow_pos j)
    have above : 0 < v := by
      rw [same]
      exact mul_pos (by exact_mod_cast positive) (ten_zpow_pos j)
    have := log_lt_of_lt above high
    omega

omit some_ in
theorem holds_nearest (nonneg : 0 ≤ v) : ctx.Holds (ctx.nearest negative v) :=
  ⟨_, ctx.place v, rfl, units_le_precision nonneg, le_max_left _ _⟩

theorem Holds.exists_eq (holds : ctx.Holds v) : ∃ m : Nat, v = m * 10 ^ ctx.place v := by
  have same : ctx.nearest false v = v := holds.nearest_eq some_
  exact ⟨_, same.symm⟩

theorem nearest_mono (nonneg : 0 ≤ v) (ordered : v ≤ w) :
    ctx.nearest negative v ≤ ctx.nearest negative w := by
  rcases nonneg.eq_or_lt with rfl | positive
  · rw [nearest_zero]
    exact nearest_nonneg
  have unit := ten_zpow_pos (ctx.place v)
  rcases (place_mono positive ordered : ctx.place v ≤ ctx.place w).eq_or_lt with same | less
  · rw [nearest, nearest, ← same]
    refine mul_le_mul_of_nonneg_right (Nat.cast_le.mpr ?_) unit.le
    exact Rounding.nearest_mono (div_nonneg nonneg unit.le)
      (div_le_div_of_nonneg_right ordered unit.le)
  · -- The power of ten below the larger magnitude lies between the two results.
    have top : ctx.place w = Int.log 10 w - ctx.precision + 1 := by
      have := le_max_left ctx.lastPlace (Int.log 10 v - ctx.precision + 1)
      unfold place at less ⊢
      omega
    have whole : (10 : ℚ) ^ Int.log 10 w = (10 ^ (ctx.precision - 1) : Nat) * 10 ^ ctx.place w := by
      rw [Nat.cast_pow, Nat.cast_ofNat, ← zpow_natCast, ← ten_zpow_add]
      congr 1
      omega
    calc ctx.nearest negative v ≤ 10 ^ (ctx.place v + ctx.precision) := nearest_le_ten_place nonneg
      _ ≤ 10 ^ Int.log 10 w := ten_zpow_le (by omega)
      _ ≤ ctx.nearest negative w := by
        rw [whole]
        refine le_nearest_of_multiple ?_
        rw [← whole]
        exact ten_log_le (positive.trans_le ordered)

/-- Rounding does not pass a number of the context. -/
theorem Holds.nearest_le (holds : ctx.Holds w) (nonneg : 0 ≤ v) (le : v ≤ w) :
    ctx.nearest negative v ≤ w :=
  (nearest_mono some_ nonneg le).trans_eq (holds.nearest_eq some_)

theorem Holds.le_nearest (holds : ctx.Holds v) (nonneg : 0 ≤ v) (le : v ≤ w) :
    v ≤ ctx.nearest negative w :=
  (holds.nearest_eq some_).symm.trans_le (nearest_mono some_ nonneg le)

/- Magnitudes that go to the same number. -/

omit some_ in
theorem place_eq {j : ℤ} (positive : 0 < v) (ordered : v ≤ w) (deep : j < ctx.place v)
    (apart : ∀ n : Nat, v ≤ n * (5 * 10 ^ j) → w < n * (5 * 10 ^ j)) :
    ctx.place w = ctx.place v := by
  have log_le : Int.log 10 v ≤ Int.log 10 w := Int.log_mono_right positive ordered
  rcases le_or_gt j (Int.log 10 v) with above | below
  · obtain ⟨m, tens⟩ := exists_ten_zpow_eq (show j + 1 ≤ Int.log 10 v + 1 by omega)
    have between := apart (2 * m)
    rw [show ((2 * m : Nat) : ℚ) * (5 * 10 ^ j) = 10 ^ (Int.log 10 v + 1) by
      rw [tens, ten_zpow_succ]
      push_cast
      ring] at between
    have := log_lt_of_lt (positive.trans_le ordered) (between (lt_ten_log v).le)
    rw [place, place, show Int.log 10 w = Int.log 10 v by omega]
  · have between := apart 2
    rw [show ((2 : Nat) : ℚ) * (5 * 10 ^ j) = 10 ^ (j + 1) by
      rw [ten_zpow_succ]
      push_cast
      ring] at between
    have small : v ≤ 10 ^ (j + 1) := (lt_ten_log v).le.trans (ten_zpow_le (by omega))
    have := log_lt_of_lt (positive.trans_le ordered) (between small)
    unfold place at deep ⊢
    omega

omit some_ in
/-- Magnitudes without half a unit of the place between them go to the same number. -/
theorem nearest_congr {j : ℤ} (positive : 0 < v) (ordered : v ≤ w) (deep : j < ctx.place v)
    (apart : ∀ n : Nat, v ≤ n * (5 * 10 ^ j) → w < n * (5 * 10 ^ j)) :
    ctx.nearest negative v = ctx.nearest negative w := by
  obtain ⟨m, tens⟩ := exists_ten_zpow_eq (show j + 1 ≤ ctx.place v by omega)
  have unit := ten_zpow_pos (ctx.place v)
  have halves (k : Nat) : (k : ℚ) / 2 * 10 ^ ctx.place v = ((k * m : Nat) : ℚ) * (5 * 10 ^ j) := by
    rw [tens, ten_zpow_succ]
    push_cast
    ring
  have same : ctx.rounding.nearest negative (v / 10 ^ ctx.place v) =
      ctx.rounding.nearest negative (w / 10 ^ ctx.place v) := by
    refine Rounding.nearest_congr (div_nonneg positive.le unit.le)
      (div_le_div_of_nonneg_right ordered unit.le) fun k low => ?_
    rw [div_le_iff₀ unit, halves] at low
    rw [div_lt_iff₀ unit, halves]
    exact apart _ low
  rw [nearest, nearest, place_eq positive ordered deep apart, same]

/-- Magnitudes in one gap between multiples of a place have the same place. -/
theorem place_of_gap {m : Nat} (low : m * 10 ^ ctx.place v < v)
    (high : v < (m + 1) * 10 ^ ctx.place v) (low' : m * 10 ^ ctx.place v < w)
    (high' : w < (m + 1) * 10 ^ ctx.place v) : ctx.place w = ctx.place v := by
  have unit := ten_zpow_pos (ctx.place v)
  have positive (n : Nat) : (0 : ℚ) ≤ n * 10 ^ ctx.place v :=
    mul_nonneg (Nat.cast_nonneg n) unit.le
  have full : m + 1 ≤ 10 ^ ctx.precision := by
    have less := lt_of_mul_lt_mul_right (low.trans ((lt_ten_place v).trans_eq
      (by rw [ten_zpow_add, mul_comm]))) unit.le
    rw [zpow_natCast] at less
    exact_mod_cast less
  have reach : w < 10 ^ (ctx.place v + ctx.precision) := by
    refine high'.trans_le ?_
    rw [ten_zpow_add, mul_comm, zpow_natCast]
    exact mul_le_mul_of_nonneg_left (by exact_mod_cast full) unit.le
  have top := log_lt_of_lt ((positive m).trans_lt low') reach
  have bottom : ctx.lastPlace < ctx.place v → Int.log 10 v ≤ Int.log 10 w := by
    intro normal
    have here : Int.log 10 v = ctx.place v + (ctx.precision - 1) := by
      unfold place at normal ⊢
      omega
    obtain ⟨n, tens⟩ := exists_ten_zpow_eq
      (show ctx.place v ≤ ctx.place v + (ctx.precision - 1) by omega)
    have least : (n : ℚ) * 10 ^ ctx.place v < (m + 1) * 10 ^ ctx.place v := by
      rw [← tens, ← here]
      exact (ten_log_le ((positive m).trans_lt low)).trans_lt high
    have counted : n < m + 1 := by exact_mod_cast lt_of_mul_lt_mul_right least unit.le
    rw [here]
    refine le_log_of_le (le_trans ?_ low'.le)
    rw [tens]
    exact mul_le_mul_of_nonneg_right (by exact_mod_cast Nat.le_of_lt_succ counted) unit.le
  unfold place at *
  omega

/-- In a directed mode all magnitudes in one gap go to the same number. -/
theorem nearest_of_gap (directed : ctx.rounding.IsDirected) {m : Nat}
    (low : m * 10 ^ ctx.place v < v) (high : v < (m + 1) * 10 ^ ctx.place v)
    (low' : m * 10 ^ ctx.place v < w) (high' : w < (m + 1) * 10 ^ ctx.place v) :
    ctx.nearest negative w = ctx.nearest negative v := by
  have unit := ten_zpow_pos (ctx.place v)
  rw [nearest, nearest, place_of_gap some_ low high low' high']
  rw [← lt_div_iff₀ unit] at low low'
  rw [← div_lt_iff₀ unit] at high high'
  rw [directed.nearest_eq low' high' low high]

end Context
end InfixCalc
