import InfixCalc.Proofs.Decimal.Ending
import InfixCalc.Proofs.Decimal.Settings

/-!
# The circle number comes to rest

The terms of the series for the circle number shrink to a quarter at each round, so within twice as
many rounds as there are digits a term is less than half a unit beside the sum. Then the sum stays,
or it is lifted once.
-/

namespace InfixCalc.Context

open InfixCalc.Number InfixCalc.Decimal

/-- A context that holds small numbers beside its digits. -/
structure IsDeep (ctx : Context) : Prop where
  digits : 3 ≤ ctx.precision
  low : ctx.lastPlace ≤ -ctx.precision - 20
  high : 20 ≤ ctx.greatest

variable {work : Context}

theorem IsDeep.proper (deep : work.IsDeep) : work.IsProper :=
  ⟨by linarith [deep.digits], by linarith [deep.low, deep.high]⟩

/-- A unit of the last place is little beside the digits of a small number. -/
theorem IsDeep.unit_le (deep : work.IsDeep) :
    1000 * work.unit ≤ 10 ^ (1 - work.precision : ℤ) := by
  have low : work.lastPlace ≤ (1 - work.precision : ℤ) + -3 := by
    have := deep.low
    omega
  have less := ten_zpow_le low
  rw [ten_zpow_add] at less
  norm_num at less
  rw [unit]
  linarith

theorem IsDeep.unit_le_one {ctx : Context} (deep : ctx.extended.IsDeep) : ctx.unit ≤ 1 := by
  have low : ctx.lastPlace ≤ 0 := by
    have := deep.low
    simp only [lastPlace, extended] at this ⊢
    omega
  exact (ten_zpow_le low).trans_eq (zpow_zero 10)

/- The figures of the series. -/

def circleTerm (work : Context) : Nat → ℚ
  | 0 => 3
  | k + 1 => work.nearest false
      (work.nearest false (circleTerm work k * ((2 * k + 1) ^ 2 : Nat)) /
        (8 * (k + 1) * (2 * k + 3) : Nat))

def circleSum (work : Context) : Nat → ℚ
  | 0 => 3
  | k + 1 => work.nearest false (circleSum work k + circleTerm work (k + 1))

theorem circleTerm_nonneg (work : Context) (k : Nat) : 0 ≤ circleTerm work k := by
  cases k with
  | zero => exact Nat.ofNat_nonneg 3
  | succ k => exact nearest_nonneg

theorem circleSum_nonneg (work : Context) (k : Nat) : 0 ≤ circleSum work k := by
  cases k with
  | zero => exact Nat.ofNat_nonneg 3
  | succ k => exact nearest_nonneg

/-- The state of the series after some rounds. -/
structure CircleSum.At (work : Context) (k : Nat) (s : CircleSum) : Prop where
  term : work.Shows (circleTerm work k) s.term
  sum : work.Shows (circleSum work k) s.sum
  n : s.n + s.nStep = (2 * k + 1) ^ 2
  nStep : s.nStep = 8 * k
  d : s.d + s.dStep = 8 * (k + 1) * (2 * k + 3)
  dStep : s.dStep = 24 + 32 * k

theorem value?_ofNat (n : Nat) : (Decimal.ofNat n).value? = some (n : ℚ) := by
  rw [ofNat, value?_finite]
  simp [signedBy]

theorem CircleSum.at_start (deep : work.IsDeep) : CircleSum.At work 0 .start := by
  have small : |(3 : ℚ)| < 10 ^ (work.greatest + 1) := by
    have := ten_zpow_le (show 1 ≤ work.greatest + 1 by linarith [deep.high])
    rw [abs_of_pos (by norm_num)]
    norm_num at this ⊢
    linarith
  exact ⟨⟨value?_ofNat 3, small⟩, ⟨value?_ofNat 3, small⟩, rfl, rfl, rfl, rfl⟩

/-- The figures of the next round fit into the context. -/
def CircleFits (work : Context) (k : Nat) : Prop :=
  work.nearest false (circleTerm work k * ((2 * k + 1) ^ 2 : Nat)) < 10 ^ (work.greatest + 1) ∧
    circleTerm work (k + 1) < 10 ^ (work.greatest + 1) ∧
    circleSum work (k + 1) < 10 ^ (work.greatest + 1)

/-- The next state shows the next figures, unless they do not fit. -/
theorem CircleSum.At.yields_next (proper : work.IsProper) {k : Nat} {s : CircleSum}
    (here : CircleSum.At work k s) :
    Yields (CircleFits work k) (CircleSum.At work (k + 1)) (s.next work) := by
  have divisor : ((s.d + s.dStep : Nat) : ℚ) ≠ 0 := by
    rw [here.d]
    positivity
  have nonneg := circleTerm_nonneg work k
  have products := gives_mul proper here.term.1 (value?_ofNat (s.n + s.nStep))
  rw [here.n, rounded_of_nonneg (mul_nonneg nonneg (Nat.cast_nonneg _))] at products
  unfold CircleSum.next
  rw [here.n]
  refine (products.yields fun fits => ?_).bind fun product shown => ?_
  · rw [abs_of_nonneg nearest_nonneg]
    exact fits.1
  have terms := gives_div proper shown.1 (value?_ofNat _) divisor
  rw [rounded_of_nonneg (div_nonneg nearest_nonneg (Nat.cast_nonneg _)), here.d] at terms
  rw [here.d]
  refine (terms.yields fun fits => ?_).bind fun term shown => ?_
  · rw [abs_of_nonneg nearest_nonneg]
    exact fits.2.1
  have sums := gives_add proper here.sum.1 shown.1
  rw [rounded_of_nonneg (add_nonneg (circleSum_nonneg work k) nearest_nonneg)] at sums
  refine (sums.yields fun fits => ?_).bind fun sum total => ?_
  · rw [abs_of_nonneg nearest_nonneg]
    exact fits.2.2
  refine .value ⟨shown, total, ?_, ?_, ?_, ?_⟩
  · simp only [here.nStep]
    ring
  · simp only [here.nStep]
    ring
  · simp only [here.dStep]
    ring
  · simp only [here.dStep]
    ring

/-- A series that repeats a sum ends with a sum that it has reached by then, unless the figures do
not fit. -/
theorem CircleSum.At.yields_rest (proper : work.IsProper) {j rounds k : Nat} {s : CircleSum}
    (here : CircleSum.At work k s)
    (same : circleSum work (k + j + 1) = circleSum work (k + j)) (enough : j < rounds) :
    Yields (∀ i ≤ k + j, CircleFits work i)
      (fun d => ∃ i ≤ k + j + 1, work.Shows (circleSum work i) d) (s.rest work rounds) := by
  obtain ⟨rounds, rfl⟩ := Nat.exists_eq_succ_of_ne_zero (Nat.ne_zero_of_lt enough)
  induction j generalizing k s rounds with
  | zero =>
    refine ((here.yields_next proper).mono (fun fits => fits k le_rfl) fun _ => id).bind
      fun next there => ?_
    have repeated : circleSum work (k + 1) = circleSum work k := same
    rw [equal_eq there.sum.1 here.sum.1, decide_eq_true repeated]
    show Yields _ _ (.ok next.sum)
    exact .value ⟨k + 1, le_rfl, there.sum⟩
  | succ j ih =>
    obtain ⟨rounds, rfl⟩ := Nat.exists_eq_succ_of_ne_zero (show rounds ≠ 0 by omega)
    refine ((here.yields_next proper).mono (fun fits => fits k (by omega)) fun _ => id).bind
      fun next there => ?_
    rw [equal_eq there.sum.1 here.sum.1]
    by_cases repeated : circleSum work (k + 1) = circleSum work k
    · rw [decide_eq_true repeated]
      show Yields _ _ (.ok next.sum)
      exact .value ⟨k + 1, by omega, there.sum⟩
    · rw [decide_eq_false repeated]
      have further := ih there (by rwa [show k + 1 + j = k + (j + 1) by omega]) rounds (by omega)
      rw [show k + 1 + j = k + (j + 1) by omega] at further
      exact further

/-- More rounds change nothing once the series has ended. -/
theorem CircleSum.rest_eq_ok_of_le {rounds more : Nat} {s : CircleSum} {sum : Decimal}
    (ended : s.rest work rounds = .ok sum) (le : rounds ≤ more) : s.rest work more = .ok sum := by
  induction rounds generalizing more s with
  | zero => cases ended
  | succ rounds ih =>
    obtain ⟨more, rfl⟩ := Nat.exists_eq_succ_of_ne_zero (Nat.ne_of_gt (Nat.zero_lt_of_lt le))
    obtain ⟨next, came, ended⟩ := bind_eq_ok_iff.mp ended
    obtain ⟨same, compared, ended⟩ := bind_eq_ok_iff.mp ended
    refine bind_eq_ok_iff.mpr ⟨next, came, bind_eq_ok_iff.mpr ⟨same, compared, ?_⟩⟩
    cases same with
    | true => exact ended
    | false => exact ih ended (Nat.le_of_succ_le_succ le)

/- Bounds. -/

theorem circleTerm_succ_le (deep : work.IsDeep) (k : Nat) :
    circleTerm work (k + 1) ≤ 13 / 50 * circleTerm work k + 2 * work.unit := by
  have unit := work.unit_pos
  have nonneg := circleTerm_nonneg work k
  rw [circleTerm]
  generalize circleTerm work k = term at nonneg ⊢
  have product : work.nearest false (term * ((2 * k + 1) ^ 2 : Nat)) ≤
      101 / 100 * (term * ((2 * k + 1) ^ 2 : Nat)) + work.unit :=
    nearest_le_hundredth deep.digits (mul_nonneg nonneg (Nat.cast_nonneg _))
  have divisor : (0 : ℚ) < (8 * (k + 1) * (2 * k + 3) : Nat) := by positivity
  have quarter : work.nearest false (term * ((2 * k + 1) ^ 2 : Nat)) /
      (8 * (k + 1) * (2 * k + 3) : Nat) ≤ 101 / 400 * term + work.unit / 24 := by
    rw [div_le_iff₀ divisor]
    refine product.trans ?_
    push_cast
    have first : term * ((2 * k + 1) ^ 2 : ℚ) ≤ term * (8 * (k + 1) * (2 * k + 3) / 4) :=
      mul_le_mul_of_nonneg_left (by nlinarith [Nat.cast_nonneg (α := ℚ) k]) nonneg
    have second : work.unit * 24 ≤ work.unit * (8 * (k + 1) * (2 * k + 3)) :=
      mul_le_mul_of_nonneg_left (by nlinarith [Nat.cast_nonneg (α := ℚ) k]) unit.le
    linarith
  have quotient : work.nearest false (work.nearest false (term * ((2 * k + 1) ^ 2 : Nat)) /
      (8 * (k + 1) * (2 * k + 3) : Nat)) ≤ 101 / 100 * (work.nearest false
        (term * ((2 * k + 1) ^ 2 : Nat)) / (8 * (k + 1) * (2 * k + 3) : Nat)) + work.unit :=
    nearest_le_hundredth deep.digits (div_nonneg nearest_nonneg divisor.le)
  linarith

theorem circleTerm_le (deep : work.IsDeep) (k : Nat) :
    circleTerm work k ≤ 3 * (13 / 50) ^ k + 3 * work.unit := by
  have unit := work.unit_pos
  induction k with
  | zero =>
    rw [circleTerm]
    linarith
  | succ k ih =>
    have next := circleTerm_succ_le deep k
    rw [pow_succ]
    linarith

/-- Within twice as many rounds as there are digits, the terms do not show any more. -/
theorem circleTerm_lt_half (deep : work.IsDeep) {k : Nat} (late : 2 * work.precision ≤ k) :
    circleTerm work k < 10 ^ (1 - work.precision : ℤ) / 2 := by
  have le := circleTerm_le deep k
  have unit := deep.unit_le
  have falls : (13 / 50 : ℚ) ^ k ≤ 1 / 10 * 10 ^ (1 - work.precision : ℤ) := by
    calc (13 / 50 : ℚ) ^ k ≤ (13 / 50) ^ (2 * work.precision) :=
          pow_le_pow_of_le_one (by norm_num) (by norm_num) late
      _ = ((13 / 50) ^ 2) ^ work.precision := pow_mul _ _ _
      _ ≤ (1 / 10) ^ work.precision := pow_le_pow_left₀ (by norm_num) (by norm_num) _
      _ = 1 / 10 * 10 ^ (1 - work.precision : ℤ) := by
        rw [sub_eq_add_neg, ten_zpow_add, zpow_neg, zpow_natCast, one_div_pow]
        norm_num
        ring
  linarith [ten_zpow_pos (1 - work.precision : ℤ)]

theorem IsDeep.place_eq (deep : work.IsDeep) {v : ℚ} (one : 1 ≤ v) (ten : v < 10) :
    work.place v = 1 - work.precision :=
  place_of_digit (by linarith [deep.low]) one ten

theorem IsDeep.holds_three (deep : work.IsDeep) : work.Holds 3 := by
  refine ⟨3, 0, by norm_num, ?_, by linarith [deep.low]⟩
  calc 3 ≤ 10 ^ 1 := by norm_num
    _ ≤ 10 ^ work.precision := Nat.pow_le_pow_right (by norm_num) (by linarith [deep.digits])

theorem holds_circleSum (deep : work.IsDeep) (k : Nat) : work.Holds (circleSum work k) := by
  cases k with
  | zero => exact deep.holds_three
  | succ k => exact holds_nearest (add_nonneg (circleSum_nonneg work k) (circleTerm_nonneg work _))

theorem three_le_circleSum (deep : work.IsDeep) (k : Nat) : 3 ≤ circleSum work k := by
  induction k with
  | zero => exact le_rfl
  | succ k ih =>
    have nonneg : 0 ≤ circleTerm work (k + 1) := circleTerm_nonneg work _
    exact deep.holds_three.le_nearest deep.proper.some_ (by norm_num) (by linarith)

/-- What is left of the terms is part of the bound. -/
theorem circleSum_le (deep : work.IsDeep) {k : Nat} (few : k ≤ 2 * work.precision + 2) :
    circleSum work k + circleTerm work k / 2 ≤
      9 / 2 + 2 * k * 10 ^ (1 - work.precision : ℤ) ∧ circleSum work k ≤ 6 := by
  have places := few_places deep.digits
  have unit := deep.unit_le
  have step := ten_zpow_pos (1 - work.precision : ℤ)
  have total {k : Nat} (few : k ≤ 2 * work.precision + 2) :
      2 * (k : ℚ) * 10 ^ (1 - work.precision : ℤ) ≤ 1 := by
    have : (k : ℚ) ≤ 2 * work.precision + 2 := by exact_mod_cast few
    have := mul_le_mul_of_nonneg_right this step.le
    linarith
  have bound {k : Nat} (few : k ≤ 2 * work.precision + 2)
      (le : circleSum work k + circleTerm work k / 2 ≤
        9 / 2 + 2 * k * 10 ^ (1 - work.precision : ℤ)) : circleSum work k ≤ 6 := by
    linarith [total few, circleTerm_nonneg work k]
  induction k with
  | zero =>
    have first : circleSum work 0 + circleTerm work 0 / 2 ≤
        9 / 2 + 2 * (0 : Nat) * 10 ^ (1 - work.precision : ℤ) := by
      rw [circleSum, circleTerm]
      norm_num
    exact ⟨first, bound few first⟩
  | succ k ih =>
    obtain ⟨le, six⟩ := ih (by omega)
    have three := three_le_circleSum deep k
    have nonneg := circleTerm_nonneg work (k + 1)
    have falls := circleTerm_succ_le deep k
    have term := circleTerm_le deep (k + 1)
    have small : (13 / 50 : ℚ) ^ (k + 1) ≤ 13 / 50 :=
      pow_le_of_le_one (by norm_num) (by norm_num) k.succ_ne_zero
    have tiny : (10 : ℚ) ^ (1 - work.precision : ℤ) ≤ 1 / 12 :=
      (le_mul_of_one_le_left step.le
        (by linarith [Nat.cast_nonneg (α := ℚ) work.precision])).trans places
    have near : work.nearest false (circleSum work k + circleTerm work (k + 1)) ≤
        circleSum work k + circleTerm work (k + 1) + 10 ^ work.place _ :=
      nearest_le (by linarith)
    rw [deep.place_eq (by linarith) (by linarith)] at near
    have next : circleSum work (k + 1) + circleTerm work (k + 1) / 2 ≤
        9 / 2 + 2 * (k + 1 : Nat) * 10 ^ (1 - work.precision : ℤ) := by
      rw [circleSum]
      push_cast
      linarith
    exact ⟨next, bound few next⟩

/-- A late sum stays, or it goes up by one where its digits end. -/
theorem circleSum_late (deep : work.IsDeep) {k m : Nat} (late : 2 * work.precision ≤ k)
    (few : k ≤ 2 * work.precision + 2)
    (whole : circleSum work k = m * 10 ^ (1 - work.precision : ℤ)) :
    circleSum work (k + 1) = circleSum work k ∨
      work.rounding.goesUp false m .lt = true ∧
        circleSum work (k + 1) = (m + 1 : Nat) * 10 ^ (1 - work.precision : ℤ) := by
  have three := three_le_circleSum deep k
  have six := (circleSum_le deep few).2
  have nonneg : 0 ≤ circleTerm work (k + 1) := circleTerm_nonneg work _
  have small := circleTerm_lt_half deep (Nat.le_succ_of_le late)
  have unit := (ten_zpow_le (show (1 - work.precision : ℤ) ≤ 0 by linarith [deep.digits])).trans_eq
    (zpow_zero (10 : ℚ))
  have here := deep.place_eq (show 1 ≤ circleSum work k by linarith) (by linarith)
  have there := deep.place_eq (show 1 ≤ circleSum work k + circleTerm work (k + 1) by linarith)
    (by linarith)
  rw [← here] at whole small
  have goes := nearest_add_small whole nonneg small (there.trans here.symm)
  rw [here] at goes
  push_cast
  exact goes

/-- The sums come to rest, at the latest after they have gone up once. -/
theorem circleSum_repeats (deep : work.IsDeep) (rests : work.rounding.Rests) :
    ∃ j ≤ 2 * work.precision + 1, circleSum work (j + 1) = circleSum work j := by
  have some_ := three_le_circleSum deep (2 * work.precision)
  obtain ⟨m, whole⟩ := (holds_circleSum deep (2 * work.precision)).exists_eq deep.proper.some_
  rw [deep.place_eq (by linarith) (by linarith [(circleSum_le deep (Nat.le_add_right _ 2)).2])]
    at whole
  rcases circleSum_late deep le_rfl (Nat.le_add_right _ 2) whole with stays | ⟨up, next⟩
  · exact ⟨_, Nat.le_succ _, stays⟩
  · rcases circleSum_late deep (Nat.le_succ _) (by omega) next with stays | ⟨again, _⟩
    · exact ⟨_, le_rfl, stays⟩
    · rw [rests.goesUp_succ up] at again
      cases again

/-- The context has room for the numerators of the series. -/
def IsRoomy (work : Context) : Prop :=
  6 * ((4 * work.precision + 5) ^ 2 : Nat) < (10 : ℚ) ^ (work.greatest + 1)

theorem IsRoomy.fits (roomy : work.IsRoomy) (deep : work.IsDeep) {k : Nat}
    (few : k ≤ 2 * work.precision + 1) : CircleFits work k := by
  unfold IsRoomy at roomy
  have unit := work.unit_pos
  have tiny := deep.unit_le
  have step : (10 : ℚ) ^ (1 - work.precision : ℤ) ≤ 1 :=
    (ten_zpow_le (by linarith [deep.digits])).trans_eq (zpow_zero 10)
  have bound (k : Nat) : circleTerm work k ≤ 4 := by
    have : (13 / 50 : ℚ) ^ k ≤ 1 := pow_le_one₀ (by norm_num) (by norm_num)
    linarith [circleTerm_le deep k]
  have square : ((2 * k + 1) ^ 2 : Nat) ≤ ((4 * work.precision + 5) ^ 2 : Nat) :=
    Nat.pow_le_pow_left (by omega) 2
  have one : (1 : ℚ) ≤ ((4 * work.precision + 5) ^ 2 : Nat) := by
    exact_mod_cast Nat.one_le_pow _ _ (by omega)
  have cast : (((2 * k + 1) ^ 2 : Nat) : ℚ) ≤ ((4 * work.precision + 5) ^ 2 : Nat) := by
    exact_mod_cast square
  have nonneg : 0 ≤ circleTerm work k * ((2 * k + 1) ^ 2 : Nat) :=
    mul_nonneg (circleTerm_nonneg work k) (Nat.cast_nonneg _)
  have product : work.nearest false (circleTerm work k * ((2 * k + 1) ^ 2 : Nat)) ≤
      101 / 100 * (circleTerm work k * ((2 * k + 1) ^ 2 : Nat)) + work.unit :=
    nearest_le_hundredth deep.digits nonneg
  have factor := mul_le_mul (bound k) cast (Nat.cast_nonneg _) (by norm_num : (0 : ℚ) ≤ 4)
  exact ⟨by linarith, by linarith [bound (k + 1)],
    by linarith [(circleSum_le deep (show k + 1 ≤ 2 * work.precision + 2 by omega)).2]⟩

/-- The series for the circle number ends within twice as many rounds as it has digits. -/
theorem yields_circleSum (deep : work.IsDeep) (rests : work.rounding.Rests) {rounds : Nat}
    (enough : 2 * work.precision + 2 ≤ rounds) :
    Yields work.IsRoomy (fun d => ∃ v, work.Shows v d ∧ 0 ≤ v ∧ v ≤ 6)
      (CircleSum.start.rest work rounds) := by
  obtain ⟨j, few, same⟩ := circleSum_repeats deep rests
  rw [← Nat.zero_add j] at same
  refine ((CircleSum.at_start deep).yields_rest deep.proper same (by omega)).mono
    (fun roomy i le => roomy.fits deep (by omega)) fun sum rest => ?_
  obtain ⟨i, early, shown⟩ := rest
  exact ⟨_, shown, circleSum_nonneg work i, (circleSum_le deep (by omega)).2⟩

/-- The circle number comes to rest at a number of moderate size. -/
theorem yields_pi {ctx : Context} (proper : ctx.IsProper) (deep : ctx.extended.IsDeep)
    (rests : ctx.rounding.Rests) (patient : 2 * ctx.precision + 6 ≤ ctx.patience) :
    Yields ctx.extended.IsRoomy (fun d => ∃ v, ctx.Shows v d ∧ |v| ≤ 13) ctx.pi := by
  have digits : ctx.extended.precision = ctx.precision + 2 := rfl
  refine (yields_circleSum deep rests (by omega)).bind fun sum rest => ?_
  obtain ⟨v, shown, nonneg, six⟩ := rest
  have near := abs_rounded_le proper.some_ v
  rw [abs_of_nonneg nonneg] at near
  have small : |ctx.rounded v| ≤ 13 := by linarith [deep.unit_le_one]
  have room : (100 : ℚ) ≤ 10 ^ (ctx.greatest + 1) :=
    (ten_zpow_le (show (2 : ℤ) ≤ ctx.greatest + 1 by
      linarith [show 20 ≤ ctx.greatest from deep.high])).trans' (by norm_num)
  exact ((gives_plus proper shown.1).yields fun _ => by linarith).mono id
    fun _ shown => ⟨_, shown, small⟩

/- Standard contexts. -/

variable {ctx : Context}

theorem IsStandard.lastPlace_eq (standard : ctx.IsStandard) :
    ctx.extended.lastPlace = -(ctx.precision : ℤ) - 1000000 := by
  rw [lastPlace, extended]
  dsimp only
  rw [standard.least]
  push_cast
  ring

theorem IsStandard.proper (standard : ctx.IsStandard) : ctx.IsProper := by
  refine ⟨standard.some_, ?_⟩
  rw [lastPlace, standard.least, standard.greatest]
  linarith

theorem IsStandard.deep (standard : ctx.IsStandard) : ctx.extended.IsDeep := by
  have digits : ctx.extended.precision = ctx.precision + 2 := rfl
  have some_ := standard.some_
  refine ⟨by omega, ?_, ?_⟩
  · rw [standard.lastPlace_eq, digits]
    omega
  · change 20 ≤ ctx.greatest
    rw [standard.greatest]
    norm_num

theorem le_patience (ctx : Context) : 2 * ctx.precision + 6 ≤ ctx.patience := by
  have grown : ctx.precision < 10 ^ ctx.precision := Nat.lt_pow_self (by norm_num)
  rw [patience, Nat.pow_eq, pow_add]
  omega

theorem IsStandard.yields_pi (standard : ctx.IsStandard) (rests : ctx.rounding.Rests) :
    Yields ctx.extended.IsRoomy (fun d => ∃ v, ctx.Shows v d ∧ |v| ≤ 13) ctx.pi :=
  Context.yields_pi standard.proper standard.deep rests ctx.le_patience

end InfixCalc.Context
