import InfixCalc.Decimal.Series
import InfixCalc.Proofs.Decimal.Rounded

/-!
# How far rounding goes

Rounding changes a magnitude by one unit where its digits end at most. Below half a unit in the last
place it is dropped in most modes; the others lift it to a whole unit. These modes do not look at
the size of what is dropped, so a sum with small terms of alternating sign comes to rest there too.
-/

namespace InfixCalc

open InfixCalc.Number

namespace Number.Rounding

variable {mode : Rounding} {negative : Bool} {q : ℚ}

/-- The rounding modes that lift what is above zero to one. -/
def Lifts (mode : Rounding) (negative : Bool) : Prop :=
  mode = .zeroFiveUp ∨ mode = .floor ∧ negative = true

/-- The rounding modes in which a series of positive terms comes to rest. -/
def Rests (mode : Rounding) : Prop := mode ≠ .up ∧ mode ≠ .ceiling

theorem Rests.drops_or_lifts (rests : mode.Rests) (negative : Bool) :
    mode.Drops negative ∨ mode.Lifts negative := by
  obtain ⟨notUp, notCeiling⟩ := rests
  cases mode with
  | up => exact (notUp rfl).elim
  | ceiling => exact (notCeiling rfl).elim
  | down => exact .inl fun _ => rfl
  | halfUp => exact .inl fun _ => rfl
  | halfDown => exact .inl fun _ => rfl
  | halfEven => exact .inl fun _ => rfl
  | zeroFiveUp => exact .inr (.inl rfl)
  | floor =>
    cases negative with
    | false => exact .inl fun _ => rfl
    | true => exact .inr (.inr ⟨rfl, rfl⟩)

theorem Lifts.isDirected (lifts : mode.Lifts negative) : mode.IsDirected := by
  rcases lifts with rfl | ⟨rfl, rfl⟩ <;> exact fun _ _ _ _ => rfl

/-- What is small does not lift a positive number twice. -/
theorem Rests.goesUp_succ (rests : mode.Rests) {kept : Nat}
    (up : mode.goesUp false kept .lt = true) : mode.goesUp false (kept + 1) .lt = false := by
  obtain ⟨notUp, notCeiling⟩ := rests
  cases mode with
  | up => exact (notUp rfl).elim
  | ceiling => exact (notCeiling rfl).elim
  | zeroFiveUp =>
    simp only [goesUp, beq_iff_eq, beq_eq_false_iff_ne] at up ⊢
    omega
  | _ => cases up

theorem Lifts.one_le_nearest (lifts : mode.Lifts negative) (positive : 0 < q) :
    1 ≤ mode.nearest negative q := by
  rcases lt_or_ge q 1 with small | large
  · have up (half : Ordering) : mode.goesUp negative 0 half = true := by
      rcases lifts with rfl | ⟨rfl, rfl⟩ <;> rfl
    have between : mode.nearest negative q = if mode.goesUp negative 0 _ then 0 + 1 else 0 :=
      nearest_of_between (by exact_mod_cast positive)
        (by rw [Nat.cast_zero, zero_add]; exact small)
    rw [between, up, if_pos rfl]
  · exact (Nat.floor_pos.mpr large).trans_le (floor_le_nearest mode negative q)

end Number.Rounding

namespace Context

open Decimal

variable {ctx : Context} {negative : Bool} {v w : ℚ}

/- Signs. -/

theorem rounded_of_nonneg (nonneg : 0 ≤ v) : ctx.rounded v = ctx.nearest false v := by
  rw [rounded, if_neg nonneg.not_gt]

theorem signedBy_decide (v : ℚ) : signedBy (decide (v < 0)) |v| = v := by
  rcases lt_or_ge v 0 with below | above
  · rw [decide_eq_true below, signedBy, if_pos rfl, abs_of_neg below, neg_neg]
  · rw [decide_eq_false above.not_gt, signedBy, if_neg Bool.false_ne_true, abs_of_nonneg above]

theorem abs_rounded (v : ℚ) : |ctx.rounded v| = ctx.nearest (decide (v < 0)) |v| := by
  nth_rewrite 1 [← signedBy_decide v]
  rw [rounded_signedBy _ (abs_nonneg v), abs_signedBy, abs_of_nonneg nearest_nonneg]

theorem holds_rounded (v : ℚ) : ctx.Holds |ctx.rounded v| := by
  rw [abs_rounded]
  exact holds_nearest (abs_nonneg v)

/- What the context holds. -/

theorem holds_one (low : ctx.lastPlace ≤ 0) : ctx.Holds 1 :=
  ⟨1, 0, by simp, Nat.one_le_pow _ _ (by norm_num), low⟩

theorem holds_unit : ctx.Holds ctx.unit :=
  ⟨1, ctx.lastPlace, by simp [unit], Nat.one_le_pow _ _ (by norm_num), le_rfl⟩

/-- Few units of the last place are exact. -/
theorem holds_units {n : Nat} (few : (n : ℚ) * ctx.unit ≤ 10 ^ ctx.precision * ctx.unit) :
    ctx.Holds (n * ctx.unit) :=
  ⟨n, ctx.lastPlace, rfl, by exact_mod_cast le_of_mul_le_mul_right few ctx.unit_pos, le_rfl⟩

theorem Holds.exists_units (holds : ctx.Holds v) : ∃ n : Nat, v = n * ctx.unit := by
  obtain ⟨n, place, same, _, low⟩ := holds
  obtain ⟨m, scaled⟩ := exists_ten_zpow_eq low
  exact ⟨n * m, by rw [same, scaled, Nat.cast_mul, mul_assoc, unit]⟩

/-- Two digits more hold the same numbers. -/
theorem Holds.extended (holds : ctx.Holds v) : ctx.extended.Holds v := by
  obtain ⟨n, place, same, few, low⟩ := holds
  refine ⟨n, place, same, few.trans (Nat.pow_le_pow_right (by norm_num) (Nat.le_add_right _ 2)), ?_⟩
  simp only [lastPlace, Context.extended] at low ⊢
  omega

theorem Holds.rounded_eq (some_ : 1 ≤ ctx.precision) (holds : ctx.Holds |v|) :
    ctx.rounded v = v := by
  nth_rewrite 1 [← signedBy_decide v]
  rw [rounded_signedBy _ (abs_nonneg v), holds.nearest_eq some_, signedBy_decide]

/- Sizes. -/

/-- With three digits a magnitude grows by a hundredth and a unit at most. -/
theorem nearest_le_hundredth (digits : 3 ≤ ctx.precision) (nonneg : 0 ≤ v) :
    ctx.nearest negative v ≤ 101 / 100 * v + ctx.unit := by
  rcases nonneg.eq_or_lt with rfl | positive
  · rw [nearest_zero]
    linarith [ctx.unit_pos]
  · have hundredth : (10 : ℚ) ^ (1 - ctx.precision : ℤ) ≤ 1 / 100 :=
      (ten_zpow_le (show 1 - (ctx.precision : ℤ) ≤ -2 by omega)).trans_eq (by norm_num)
    have place : (10 : ℚ) ^ ctx.place v ≤ ctx.unit + v / 100 := by
      refine (ten_place_le positive).trans (max_le (by linarith) ?_)
      have := mul_le_mul_of_nonneg_left hundredth nonneg
      linarith [ctx.unit_pos]
    have near : ctx.nearest negative v ≤ v + 10 ^ ctx.place v := nearest_le nonneg
    linarith

theorem nearest_le_double (some_ : 1 ≤ ctx.precision) (nonneg : 0 ≤ v) :
    ctx.nearest negative v ≤ 2 * v + ctx.unit := by
  rcases nonneg.eq_or_lt with rfl | positive
  · rw [nearest_zero]
    linarith [ctx.unit_pos]
  · have one : (10 : ℚ) ^ (1 - ctx.precision : ℤ) ≤ 1 :=
      (ten_zpow_le (by omega)).trans_eq (zpow_zero 10)
    have place : (10 : ℚ) ^ ctx.place v ≤ ctx.unit + v := by
      refine (ten_place_le positive).trans (max_le (by linarith) ?_)
      have := mul_le_mul_of_nonneg_left one nonneg
      linarith [ctx.unit_pos]
    have near : ctx.nearest negative v ≤ v + 10 ^ ctx.place v := nearest_le nonneg
    linarith

theorem abs_rounded_le (some_ : 1 ≤ ctx.precision) (v : ℚ) :
    |ctx.rounded v| ≤ 2 * |v| + ctx.unit := by
  rw [abs_rounded]
  exact nearest_le_double some_ (abs_nonneg v)

/-- A magnitude above one shrinks by its last digit at most. -/
theorem part_le_nearest (tiny : ctx.unit ≤ 10 ^ (1 - ctx.precision : ℤ)) (one : 1 ≤ v) :
    (1 - 10 ^ (1 - ctx.precision : ℤ)) * v ≤ ctx.nearest negative v := by
  have positive : 0 < v := by linarith
  have step := ten_zpow_pos (1 - ctx.precision : ℤ)
  have place : (10 : ℚ) ^ ctx.place v ≤ v * 10 ^ (1 - ctx.precision : ℤ) :=
    (ten_place_le positive).trans
      (max_le (tiny.trans (le_mul_of_one_le_left step.le one)) le_rfl)
  have near : v - 10 ^ ctx.place v ≤ ctx.nearest negative v := le_nearest v
  linarith

/-- Next to one the context holds nothing nearer than its last digit. -/
theorem Holds.beside_one (some_ : 1 ≤ ctx.precision) (holds : ctx.Holds v) (above : 1 < v) :
    1 + 10 ^ (1 - ctx.precision : ℤ) ≤ v := by
  obtain ⟨m, whole⟩ := holds.exists_eq some_
  have log := le_log_of_le (k := 0) (v := v) (by simpa using above.le)
  obtain ⟨k, scaled⟩ := exists_ten_zpow_eq
    (show (1 - ctx.precision : ℤ) ≤ ctx.place v by unfold place; omega)
  obtain ⟨n, ones⟩ := exists_ten_zpow_eq (show (1 - ctx.precision : ℤ) ≤ 0 by omega)
  have step := ten_zpow_pos (1 - ctx.precision : ℤ)
  rw [zpow_zero] at ones
  rw [scaled, ← mul_assoc] at whole
  rw [whole, ones] at above
  have counted : n < m * k := by exact_mod_cast lt_of_mul_lt_mul_right above step.le
  have next : (n : ℚ) + 1 ≤ m * k := by exact_mod_cast counted
  have := mul_le_mul_of_nonneg_right next step.le
  rw [whole]
  nth_rewrite 1 [ones]
  linarith

/- Below the last place. -/

theorem place_of_lt_unit (some_ : 1 ≤ ctx.precision) (positive : 0 < v) (small : v < ctx.unit) :
    ctx.place v = ctx.lastPlace := by
  have := log_lt_of_lt positive small
  unfold place
  omega

theorem nearest_of_drops (some_ : 1 ≤ ctx.precision) (drops : ctx.rounding.Drops negative)
    (nonneg : 0 ≤ v) (small : v < ctx.unit / 2) : ctx.nearest negative v = 0 := by
  rcases nonneg.eq_or_lt with rfl | positive
  · exact nearest_zero
  · have here := place_of_lt_unit some_ positive (by linarith [ctx.unit_pos])
    have none_ : ctx.rounding.nearest negative (v / 10 ^ ctx.place v) = 0 := by
      rw [here]
      refine drops.nearest_eq ?_ ?_
      · rw [Nat.cast_zero]
        exact div_nonneg nonneg (ten_zpow_pos _).le
      · rw [Nat.cast_zero, zero_add, div_lt_iff₀ (ten_zpow_pos _), ← unit]
        linarith
    rw [nearest, none_, Nat.cast_zero, zero_mul]

theorem nearest_pos (lifts : ctx.rounding.Lifts negative) (positive : 0 < v) :
    0 < ctx.nearest negative v := by
  have some_ := lifts.one_le_nearest (div_pos positive (ten_zpow_pos (ctx.place v)))
  exact mul_pos (by exact_mod_cast some_) (ten_zpow_pos _)

/- Small amounts beside a number. -/

/-- A number of the context is a multiple of the place where the digits of a smaller one end. -/
theorem Holds.exists_multiple_below (some_ : 1 ≤ ctx.precision) (holds : ctx.Holds v)
    (positive : 0 < w) (less : w < v) : ∃ n : Nat, v = (n + 1) * 10 ^ ctx.place w := by
  obtain ⟨m, whole⟩ := holds.exists_eq some_
  obtain ⟨k, scaled⟩ := exists_ten_zpow_eq (place_mono positive less.le : ctx.place w ≤ ctx.place v)
  rw [scaled, ← mul_assoc] at whole
  have counted : m * k ≠ 0 := by
    intro none_
    rw [← Nat.cast_mul, none_, Nat.cast_zero, zero_mul] at whole
    linarith
  refine ⟨m * k - 1, ?_⟩
  rw [← Nat.cast_succ, Nat.succ_eq_add_one, Nat.sub_add_cancel (Nat.one_le_iff_ne_zero.mpr counted),
    Nat.cast_mul]
  exact whole

/-- A magnitude from which little is taken ends its digits at most one place lower. -/
theorem place_le_of_little (some_ : 1 ≤ ctx.precision) (positive : 0 < v)
    (deep : ctx.lastPlace < ctx.place v) (small : 10 * w < 10 ^ ctx.place v) :
    (10 : ℚ) ^ ctx.place v ≤ 10 * 10 ^ ctx.place (v - w) := by
  have least := ten_log_le positive
  have under : (10 : ℚ) ^ ctx.place v ≤ 10 ^ Int.log 10 v := by
    refine ten_zpow_le ?_
    unfold place at deep ⊢
    omega
  have step := ten_zpow_succ (Int.log 10 v - 1)
  rw [sub_add_cancel] at step
  have low : Int.log 10 v - 1 ≤ Int.log 10 (v - w) :=
    le_log_of_le (by linarith [ten_zpow_pos (Int.log 10 v - 1)])
  rw [← ten_zpow_succ]
  refine ten_zpow_le ?_
  unfold place at deep ⊢
  omega

/-- In a directed mode, a number of the context from which a small amount is taken either stays, or
goes where it stays when a small amount is added again. -/
theorem nearest_beside (some_ : 1 ≤ ctx.precision) (directed : ctx.rounding.IsDirected)
    (holds : ctx.Holds v) {t t' : ℚ} (left : 0 < v - t) (amount : 0 < t)
    (small : t < 10 ^ ctx.place (v - t)) (amount' : 0 < t') (small' : t' < 10 ^ ctx.place (v - t)) :
    ctx.nearest negative (v - t) = v ∨
      ctx.nearest negative (ctx.nearest negative (v - t) + t') = ctx.nearest negative (v - t) := by
  obtain ⟨n, whole⟩ := holds.exists_multiple_below some_ left (sub_lt_self v amount)
  have step := ten_zpow_pos (ctx.place (v - t))
  have low : n * 10 ^ ctx.place (v - t) < v - t := by linarith
  have high : v - t < (n + 1) * 10 ^ ctx.place (v - t) := by linarith
  have goes : ctx.nearest negative (v - t) = (n + 1) * 10 ^ ctx.place (v - t) ∨
      ctx.nearest negative (v - t) = n * 10 ^ ctx.place (v - t) := by
    rw [Context.nearest,
      Rounding.nearest_of_between ((lt_div_iff₀ step).mpr low) ((div_lt_iff₀ step).mpr high)]
    split_ifs
    · exact .inl (by push_cast; rfl)
    · exact .inr rfl
  rcases goes with up | down
  · exact .inl (up.trans whole.symm)
  · right
    nth_rewrite 1 [down]
    exact nearest_of_gap some_ directed low high (by linarith) (by linarith)

/- Small amounts added to numbers with one digit before the point. -/

theorem linear_le_ten_pow {n : Nat} (two : 2 ≤ n) : 12 * (n + 6) ≤ 10 ^ n := by
  induction n, two using Nat.le_induction with
  | base => norm_num
  | succ n two ih =>
    rw [Nat.pow_succ]
    omega

/-- Few units beside one with the digits of the context are together less than one. -/
theorem few_places (digits : 3 ≤ ctx.precision) :
    (ctx.precision + 5) * (10 : ℚ) ^ (1 - ctx.precision : ℤ) ≤ 1 / 12 := by
  obtain ⟨n, more, two⟩ : ∃ n, ctx.precision = n + 1 ∧ 2 ≤ n := ⟨ctx.precision - 1, by omega⟩
  have scaled : (12 : ℚ) * (n + 6) ≤ 10 ^ n := by exact_mod_cast linear_le_ten_pow two
  rw [more, show (1 : ℤ) - (n + 1 : Nat) = -(n : ℤ) by push_cast; ring, zpow_neg, zpow_natCast,
    ← div_eq_mul_inv, div_le_iff₀ (by positivity)]
  push_cast
  linarith

theorem place_of_digit (low : ctx.lastPlace ≤ 1 - ctx.precision)
    (one : 1 ≤ v) (ten : v < 10) : ctx.place v = 1 - ctx.precision := by
  have log : Int.log 10 v = 0 := log_eq (by simpa using one) (by simpa using ten)
  unfold place
  omega

/-- Less than half a unit beside a number of the context does not show, or shows only once. -/
theorem nearest_add_small {m : Nat}
    (whole : v = m * 10 ^ ctx.place v) (nonneg : 0 ≤ w) (small : w < 10 ^ ctx.place v / 2)
    (same : ctx.place (v + w) = ctx.place v) :
    ctx.nearest false (v + w) = v ∨
      ctx.rounding.goesUp false m .lt = true ∧
        ctx.nearest false (v + w) = (m + 1) * 10 ^ ctx.place v := by
  have step := ten_zpow_pos (ctx.place v)
  rcases nonneg.eq_or_lt with rfl | positive
  · rw [add_zero]
    exact .inl (nearest_of_multiple whole le_rfl)
  · have low : (m : ℚ) < (v + w) / 10 ^ ctx.place v := by
      rw [lt_div_iff₀ step]
      linarith
    have half : 2 * ((v + w) / 10 ^ ctx.place v - m) < 1 := by
      have : (v + w) / 10 ^ ctx.place v < m + 1 / 2 := by
        rw [div_lt_iff₀ step]
        linarith
      linarith
    rw [Context.nearest, same, Rounding.nearest_of_between low (by linarith),
      compare_lt_iff_lt.mpr half]
    split_ifs with up
    · exact .inr ⟨up, by push_cast; rfl⟩
    · exact .inl whole.symm

end Context
end InfixCalc
