import InfixCalc.Proofs.Decimal.AngleRest

/-!
# Sums of small angles

The powers of an angle up to one do not grow. Where what is left is lifted, no term of such a series
is zero. Sums that are small enough to be exact to the last unit then move for ever; the others come
to rest where their digits end.
-/

namespace InfixCalc.Angle

open InfixCalc.Number InfixCalc.Context InfixCalc.Decimal

variable {A : Angle}

/-- The figures of an angle up to one, with a factorial that starts at one. -/
structure IsSmall (A : Angle) : Prop extends A.IsSound where
  square_le : A.square ≤ 1
  first : A.first ≤ 1

theorem IsSmall.holds_power (small : A.IsSmall) (k : Nat) : A.work.Holds (A.power k) := by
  cases k with
  | zero => exact small.holds
  | succ k => exact holds_nearest (mul_nonneg (small.power_nonneg k) small.square)

theorem IsSmall.power_succ_le (small : A.IsSmall) (k : Nat) : A.power (k + 1) ≤ A.power k :=
  (small.holds_power k).nearest_le small.proper.some_
    (mul_nonneg (small.power_nonneg k) small.square)
    (mul_le_of_le_one_right (small.power_nonneg k) small.square_le)

theorem IsSmall.power_le (small : A.IsSmall) (k : Nat) : A.power k ≤ A.start := by
  induction k with
  | zero => exact le_rfl
  | succ k ih => exact (small.power_succ_le k).trans ih

theorem factorial_le_succ (k : Nat) : (A.factorial k : ℚ) ≤ A.factorial (k + 1) := by
  exact_mod_cast Nat.factorial_le (by omega)

theorem IsSmall.factorial_zero (small : A.IsSmall) : A.factorial 0 = 1 :=
  Nat.factorial_eq_one.mpr small.first

theorem IsSmall.term_succ_le (small : A.IsSmall) (k : Nat) : A.term (k + 1) ≤ A.term k :=
  nearest_mono small.proper.some_
    (div_nonneg (small.power_nonneg (k + 1)) (factorial_pos (k + 1)).le)
    (div_le_div₀ (small.power_nonneg k) (small.power_succ_le k) (factorial_pos k)
      (factorial_le_succ k))

theorem IsSmall.term_zero (small : A.IsSmall) : A.term 0 = A.start := by
  rw [term, small.factorial_zero, Nat.cast_one, div_one]
  exact small.holds.nearest_eq small.proper.some_

theorem IsSmall.term_le (small : A.IsSmall) (k : Nat) : A.term k ≤ A.start := by
  induction k with
  | zero => exact small.term_zero.le
  | succ k ih => exact (small.term_succ_le k).trans ih

theorem IsSmall.holds_term (small : A.IsSmall) (k : Nat) : A.work.Holds (A.term k) :=
  holds_nearest (div_nonneg (small.power_nonneg k) (factorial_pos k).le)

/-- A sum with the sign of its series follows from the one before, which has the sign too. -/
theorem sum_succ_of_signed {k : Nat} {w : ℚ} (signed : A.sum k = signedBy A.negative w)
    (nonneg : 0 ≤ w + signedBy (k + 1).bodd (A.term (k + 1))) :
    A.sum (k + 1) = signedBy A.negative
      (A.work.nearest A.negative (w + signedBy (k + 1).bodd (A.term (k + 1)))) := by
  have joined : signedBy A.negative w + signedBy (A.negative != (k + 1).bodd) (A.term (k + 1)) =
      signedBy A.negative (w + signedBy (k + 1).bodd (A.term (k + 1))) := by
    cases A.negative <;> cases (k + 1).bodd <;> simp [signedBy] <;> ring
  rw [sum, signed, joined, rounded_signedBy _ nonneg]

/- Sums that are exact to the last unit. -/

theorem term_pos (lifts : A.work.rounding.Lifts A.negative)
    (start : 0 < A.start) (square : 0 < A.square) (k : Nat) : 0 < A.term k := by
  have power : 0 < A.power k := by
    induction k with
    | zero => exact start
    | succ k ih => exact nearest_pos lifts (mul_pos ih square)
  exact nearest_pos lifts (div_pos power (factorial_pos k))

/-- A sum of whole units, no larger than the first one, and so far from it and from zero that the
next term does not lead beyond. -/
structure Hovers (A : Angle) (k : Nat) (w : ℚ) : Prop where
  signed : A.sum k = signedBy A.negative w
  units : ∃ n : Nat, w = n * A.work.unit
  between : if k.bodd then w + A.term k ≤ A.start else A.term k ≤ w ∧ w ≤ A.start

theorem IsSmall.hovers_zero (small : A.IsSmall) : A.Hovers 0 A.start where
  signed := rfl
  units := small.holds.exists_units
  between := ⟨small.term_zero.le, le_rfl⟩

theorem Hovers.nonneg {k : Nat} {w : ℚ} (hovers : A.Hovers k w) : 0 ≤ w := by
  obtain ⟨n, rfl⟩ := hovers.units
  exact mul_nonneg (Nat.cast_nonneg n) A.work.unit_pos.le

theorem Hovers.le {k : Nat} {w : ℚ} (hovers : A.Hovers k w) : w ≤ A.start := by
  have between := hovers.between
  split_ifs at between
  · have : 0 ≤ A.term k := term_nonneg k
    linarith
  · exact between.2

/-- Where all sums are exact, a sum differs from the one before by the whole next term. -/
theorem IsSmall.hovers_succ (small : A.IsSmall)
    (least : A.start ≤ 10 ^ A.work.precision * A.work.unit) {k : Nat} {w : ℚ}
    (hovers : A.Hovers k w) :
    A.Hovers (k + 1) (w + signedBy (k + 1).bodd (A.term (k + 1))) := by
  have unit := A.work.unit_pos
  have above := hovers.nonneg
  have shrinks := small.term_succ_le k
  have nonneg : 0 ≤ A.term (k + 1) := term_nonneg _
  obtain ⟨n, whole⟩ := hovers.units
  obtain ⟨m, part⟩ := (small.holds_term (k + 1)).exists_units
  have parity : (k + 1).bodd = !k.bodd := Nat.bodd_succ k
  have between := hovers.between
  obtain ⟨⟨n', whole'⟩, between'⟩ :
      (∃ n' : Nat, w + signedBy (k + 1).bodd (A.term (k + 1)) = n' * A.work.unit) ∧
      if (k + 1).bodd then w + signedBy (k + 1).bodd (A.term (k + 1)) + A.term (k + 1) ≤ A.start
      else A.term (k + 1) ≤ w + signedBy (k + 1).bodd (A.term (k + 1)) ∧
        w + signedBy (k + 1).bodd (A.term (k + 1)) ≤ A.start := by
    rw [parity]
    cases odd : k.bodd with
    | false =>
      rw [odd, if_neg Bool.false_ne_true] at between
      simp only [Bool.not_false, signedBy, if_true]
      refine ⟨⟨n - m, ?_⟩, by linarith⟩
      have le : m ≤ n := by
        have : (m : ℚ) * A.work.unit ≤ n * A.work.unit := by linarith
        exact_mod_cast le_of_mul_le_mul_right this unit
      rw [Nat.cast_sub le, whole, part]
      ring
    | true =>
      rw [odd, if_pos rfl] at between
      simp only [Bool.not_true, signedBy, Bool.false_eq_true, if_false]
      refine ⟨⟨n + m, ?_⟩, by linarith, by linarith⟩
      rw [whole, part]
      push_cast
      ring
  have low : 0 ≤ w + signedBy (k + 1).bodd (A.term (k + 1)) := by
    rw [whole']
    exact mul_nonneg (Nat.cast_nonneg _) unit.le
  have high : w + signedBy (k + 1).bodd (A.term (k + 1)) ≤ A.start := by
    split_ifs at between'
    · linarith
    · exact between'.2
  have holds : A.work.Holds (w + signedBy (k + 1).bodd (A.term (k + 1))) := by
    rw [whole'] at high ⊢
    exact holds_units (high.trans least)
  refine ⟨?_, ⟨n', whole'⟩, between'⟩
  rw [sum_succ_of_signed hovers.signed low, holds.nearest_eq small.proper.some_]

/-- Sums that are exact to the last unit move for ever, and their figures stay small. -/
theorem IsSmall.moves (small : A.IsSmall) (deep : A.work.IsDeep)
    (lifts : A.work.rounding.Lifts A.negative) (start : 0 < A.start)
    (least : A.start ≤ 10 ^ A.work.precision * A.work.unit) (square : 0 < A.square) (k : Nat) :
    A.sum (k + 1) ≠ A.sum k ∧ A.Fits k := by
  obtain ⟨w, hovers⟩ : ∃ w, A.Hovers k w := by
    induction k with
    | zero => exact ⟨_, small.hovers_zero⟩
    | succ k ih => exact ih.imp' _ fun w => small.hovers_succ least
  have room : (1 : ℚ) < 10 ^ (A.work.greatest + 1) :=
    one_lt_zpow₀ (by norm_num) (by linarith [deep.high])
  constructor
  · intro same
    have term := term_pos lifts start square (k + 1)
    rw [(small.hovers_succ least hovers).signed, hovers.signed, signedBy_inj, add_eq_left] at same
    have size := abs_signedBy (k + 1).bodd (A.term (k + 1))
    rw [same, abs_zero, abs_of_pos term] at size
    exact term.ne size
  · refine ⟨small.square_le.trans_lt room, (small.power_le k).trans_lt small.small,
      (small.term_le k).trans_lt small.small, ?_⟩
    rw [hovers.signed, abs_signedBy, abs_of_nonneg hovers.nonneg]
    exact hovers.le.trans_lt small.small

/- Sums that end their digits above the last place. -/

/-- The first sum is large beside the last place. -/
def IsFar (A : Angle) : Prop := 100 * (10 ^ A.work.precision * A.work.unit) < A.start

theorem IsFar.unit_le (far : A.IsFar) :
    1000 * A.work.unit ≤ A.start * 10 ^ (1 - A.work.precision : ℤ) := by
  have step := ten_zpow_pos (1 - A.work.precision : ℤ)
  have ten : (10 : ℚ) ^ A.work.precision * 10 ^ (1 - A.work.precision : ℤ) = 10 := by
    rw [← zpow_natCast, ← ten_zpow_add, add_sub_cancel, zpow_one]
  have scaled := mul_le_mul_of_nonneg_right far.le step.le
  linear_combination scaled - 100 * A.work.unit * ten

theorem IsSmall.term_le_ratio (small : A.IsSmall) (deep : A.work.IsDeep) (k : Nat) :
    A.term k ≤ 101 / 100 * (A.start / A.factorial k) + A.work.unit := by
  have ratio : A.power k / A.factorial k ≤ A.start / A.factorial k :=
    div_le_div_of_nonneg_right (small.power_le k) (factorial_pos k).le
  have near : A.term k ≤ 101 / 100 * (A.power k / A.factorial k) + A.work.unit :=
    nearest_le_hundredth deep.digits (div_nonneg (small.power_nonneg k) (factorial_pos k).le)
  linarith

theorem two_le_factorial_one : (2 : ℚ) ≤ A.factorial 1 := by
  exact_mod_cast Nat.factorial_le (show 2 ≤ A.first + 2 * 1 by omega)

theorem twelve_mul_factorial_le {k : Nat} (later : 1 ≤ k) :
    12 * (A.factorial k : ℚ) ≤ A.factorial (k + 1) := by
  rw [factorial_succ, Nat.cast_mul, mul_comm]
  refine mul_le_mul_of_nonneg_left ?_ (Nat.cast_nonneg _)
  exact_mod_cast Nat.mul_le_mul (show 4 ≤ A.first + 2 * k + 2 by omega)
    (show 3 ≤ A.first + 2 * k + 1 by omega)

/-- One round takes a sum no further than the term and two units of its last digit. -/
theorem IsSmall.exists_sum_succ (small : A.IsSmall) (far : A.IsFar)
    {k : Nat} {w : ℚ} (signed : A.sum k = signedBy A.negative w)
    (near : |w - A.start| + A.term (k + 1) ≤ 9 / 10 * A.start) :
    ∃ w', A.sum (k + 1) = signedBy A.negative w' ∧ A.work.Holds w' ∧
      |w' - A.start| ≤ |w - A.start| + A.term (k + 1) +
        2 * (A.start * 10 ^ (1 - A.work.precision : ℤ)) := by
  have step := ten_zpow_pos (1 - A.work.precision : ℤ)
  have size := abs_signedBy (k + 1).bodd (A.term (k + 1))
  rw [abs_of_nonneg (term_nonneg (k + 1))] at size
  obtain ⟨low, high⟩ := abs_le.mp size.le
  obtain ⟨under, above⟩ := abs_le.mp (le_refl |w - A.start|)
  have starts := small.starts
  obtain ⟨total, added⟩ : ∃ v, v = w + signedBy (k + 1).bodd (A.term (k + 1)) := ⟨_, rfl⟩
  have positive : 0 < total := by
    have := A.work.unit_pos
    have := far.unit_le
    have : 0 < A.start := by
      refine lt_of_le_of_ne starts fun zero => ?_
      rw [← zero] at this
      linarith
    linarith
  have place : (10 : ℚ) ^ A.work.place total ≤ 2 * (A.start * 10 ^ (1 - A.work.precision : ℤ)) := by
    refine (ten_place_le positive).trans (max_le ?_ ?_)
    · linarith [far.unit_le, A.work.unit_pos]
    · have := mul_le_mul_of_nonneg_right (show total ≤ 2 * A.start by linarith) step.le
      linarith
  refine ⟨A.work.nearest A.negative total, ?_, holds_nearest positive.le, ?_⟩
  · rw [added]
    exact sum_succ_of_signed signed (by linarith)
  · have most : A.work.nearest A.negative total ≤ total + 10 ^ A.work.place total :=
      nearest_le positive.le
    have least : total - 10 ^ A.work.place total ≤ A.work.nearest A.negative total :=
      le_nearest total
    rw [abs_le]
    constructor <;> linarith

/-- The sums of the first rounds stay near the first one: what is left of the terms is part of the
bound. -/
theorem IsSmall.exists_sum_near (small : A.IsSmall) (deep : A.work.IsDeep) (far : A.IsFar)
    {k : Nat} (later : 1 ≤ k) (few : k ≤ A.work.precision + 5) :
    ∃ w, A.sum k = signedBy A.negative w ∧ A.work.Holds w ∧
      |w - A.start| + 101 / 1100 * (A.start / A.factorial k) ≤
        303 / 550 * A.start + 3 * k * (A.start * 10 ^ (1 - A.work.precision : ℤ)) := by
  have unit := A.work.unit_pos
  have tiny := far.unit_le
  have starts := small.starts
  have places : (A.work.precision + 5) * (A.start * 10 ^ (1 - A.work.precision : ℤ)) ≤
      A.start / 12 := by
    have := mul_le_mul_of_nonneg_left (few_places deep.digits) starts
    linarith
  have step : 0 ≤ A.start * 10 ^ (1 - A.work.precision : ℤ) :=
    mul_nonneg starts (ten_zpow_pos _).le
  have one : A.start * 10 ^ (1 - A.work.precision : ℤ) ≤ A.start / 12 :=
    (le_mul_of_one_le_left step (by linarith [Nat.cast_nonneg (α := ℚ) A.work.precision])).trans
      places
  induction k, later using Nat.le_induction with
  | base =>
    have half : A.start / A.factorial 1 ≤ A.start / 2 :=
      div_le_div_of_nonneg_left starts (by norm_num) two_le_factorial_one
    have term := small.term_le_ratio deep 1
    have none_ : |A.start - A.start| = 0 := by rw [sub_self, abs_zero]
    obtain ⟨w, signed, holds, near⟩ := small.exists_sum_succ far (k := 0) rfl
      (show |A.start - A.start| + A.term 1 ≤ 9 / 10 * A.start by linarith)
    change |w - A.start| ≤ |A.start - A.start| + A.term 1 + _ at near
    refine ⟨w, signed, holds, ?_⟩
    rw [none_] at near
    push_cast
    linarith
  | succ k later ih =>
    obtain ⟨w, signed, _, near⟩ := ih (by omega)
    have count : (k : ℚ) ≤ A.work.precision + 5 := by exact_mod_cast (by omega)
    have total := mul_le_mul_of_nonneg_right count step
    have ratio : 0 ≤ A.start / A.factorial k := div_nonneg starts (factorial_pos k).le
    have falls : 12 * (A.start / A.factorial (k + 1)) ≤ A.start / A.factorial k := by
      rw [← mul_div_assoc, div_le_div_iff₀ (factorial_pos _) (factorial_pos _)]
      have := mul_le_mul_of_nonneg_left (twelve_mul_factorial_le (A := A) later) starts
      linarith
    have term := small.term_le_ratio deep (k + 1)
    obtain ⟨w', signed', holds', near'⟩ := small.exists_sum_succ far signed (by linarith)
    refine ⟨w', signed', holds', ?_⟩
    push_cast
    linarith

theorem pow_le_factorial (k : Nat) : 2 * (12 : ℚ) ^ k ≤ A.factorial (k + 1) := by
  induction k with
  | zero => simpa using two_le_factorial_one
  | succ k ih =>
    have grows := twelve_mul_factorial_le (A := A) (Nat.le_add_left 1 k)
    rw [pow_succ]
    linarith

/-- The terms of late rounds are small beside the last digits of the sums. -/
theorem IsSmall.term_late_le (small : A.IsSmall) (deep : A.work.IsDeep) (far : A.IsFar) {k : Nat}
    (late : A.work.precision + 3 ≤ k) :
    10 * A.term k ≤ 7 / 500 * (A.start * 10 ^ (1 - A.work.precision : ℤ)) := by
  obtain ⟨j, rfl⟩ : ∃ j, k = j + 1 := ⟨k - 1, by omega⟩
  have large : 288 * (10 : ℚ) ^ A.work.precision ≤ A.factorial (j + 1) := by
    calc 288 * (10 : ℚ) ^ A.work.precision ≤ 288 * 12 ^ A.work.precision :=
          mul_le_mul_of_nonneg_left (pow_le_pow_left₀ (by norm_num) (by norm_num) _) (by norm_num)
      _ = 2 * 12 ^ (A.work.precision + 2) := by ring
      _ ≤ 2 * 12 ^ j :=
          mul_le_mul_of_nonneg_left (pow_le_pow_right₀ (by norm_num) (by omega)) (by norm_num)
      _ ≤ A.factorial (j + 1) := pow_le_factorial j
  have ratio : A.start / A.factorial (j + 1) ≤
      A.start * 10 ^ (1 - A.work.precision : ℤ) / 2880 := by
    refine (div_le_div_of_nonneg_left small.starts (by positivity) large).trans_eq ?_
    rw [sub_eq_add_neg, ten_zpow_add, zpow_neg, zpow_natCast, zpow_one]
    have := pow_pos (show (0 : ℚ) < 10 by norm_num) A.work.precision
    field_simp
    ring
  have term := small.term_le_ratio deep (j + 1)
  have step : 0 ≤ A.start * 10 ^ (1 - A.work.precision : ℤ) :=
    mul_nonneg small.starts (ten_zpow_pos _).le
  linarith [far.unit_le]

theorem IsFar.start_pos (far : A.IsFar) : 0 < A.start := by
  have units : 0 < 10 ^ A.work.precision * A.work.unit :=
    mul_pos (by positivity) A.work.unit_pos
  unfold IsFar at far
  linarith

/-- After the first rounds a good part of the first sum is still there. -/
theorem IsSmall.exists_sum_ge (small : A.IsSmall) (deep : A.work.IsDeep) (far : A.IsFar) {k : Nat}
    (later : 1 ≤ k) (few : k ≤ A.work.precision + 4) :
    ∃ w, A.sum k = signedBy A.negative w ∧ A.work.Holds w ∧ 3 / 20 * A.start ≤ w := by
  obtain ⟨w, signed, holds, near⟩ := small.exists_sum_near deep far later (by omega)
  refine ⟨w, signed, holds, ?_⟩
  have start := far.start_pos
  have places := mul_le_mul_of_nonneg_left (few_places deep.digits) start.le
  have count : (k : ℚ) ≤ A.work.precision + 5 := by exact_mod_cast (by omega)
  have total := mul_le_mul_of_nonneg_right count
    (mul_nonneg start.le (ten_zpow_pos (1 - A.work.precision : ℤ)).le)
  have ratio : 0 ≤ A.start / A.factorial k := div_nonneg start.le (factorial_pos k).le
  obtain ⟨under, _⟩ := abs_le.mp (le_refl |w - A.start|)
  linarith

/-- Such a sum ends its digits above the last place, and far above the terms. -/
theorem IsFar.place_spec (far : A.IsFar) {w : ℚ} (low : 3 / 20 * A.start ≤ w) :
    A.work.lastPlace < A.work.place w ∧
      7 / 500 * (A.start * 10 ^ (1 - A.work.precision : ℤ)) < 10 ^ A.work.place w := by
  have start := far.start_pos
  constructor
  · have log : A.work.lastPlace + A.work.precision ≤ Int.log 10 w := by
      refine le_log_of_le ?_
      have units : 0 < 10 ^ A.work.precision * A.work.unit :=
        mul_pos (by positivity) A.work.unit_pos
      unfold IsFar at far
      rw [ten_zpow_add, zpow_natCast, mul_comm]
      change 10 ^ A.work.precision * A.work.unit ≤ w
      linarith
    unfold place
    omega
  · have step := ten_zpow_pos (1 - A.work.precision : ℤ)
    have top : w < 10 ^ (A.work.place w + A.work.precision) := lt_ten_place w
    have ten : (10 : ℚ) ^ (A.work.place w + A.work.precision) *
        10 ^ (1 - A.work.precision : ℤ) = 10 * 10 ^ A.work.place w := by
      rw [← ten_zpow_add, ← ten_zpow_succ]
      congr 1
      ring
    have scaled := mul_lt_mul_of_pos_right top step
    have part := mul_le_mul_of_nonneg_right low step.le
    rw [ten] at scaled
    linarith [mul_pos start step]

/-- In a directed mode, a sum from which a small term is taken repeats before long. -/
theorem IsSmall.repeats_beside (small : A.IsSmall) (directed : A.work.rounding.IsDirected)
    {k : Nat} {w : ℚ} (even : k.bodd = false) (signed : A.sum k = signedBy A.negative w)
    (holds : A.work.Holds w) (left : 0 < w - A.term (k + 1))
    (term : A.term (k + 1) < 10 ^ A.work.place (w - A.term (k + 1))) :
    A.sum (k + 1) = A.sum k ∨ A.sum (k + 2) = A.sum (k + 1) := by
  have odd : (k + 1).bodd = true := by rw [Nat.bodd_succ, even, Bool.not_false]
  have even' : (k + 2).bodd = false := by rw [Nat.bodd_succ, odd, Bool.not_true]
  rcases (term_nonneg (k + 1) : 0 ≤ A.term (k + 1)).eq_or_lt with none_ | some_
  · exact .inl (small.sum_succ_of_zero none_.symm)
  rcases (term_nonneg (k + 2) : 0 ≤ A.term (k + 2)).eq_or_lt with none_ | some_'
  · exact .inr (small.sum_succ_of_zero none_.symm)
  have down : A.sum (k + 1) =
      signedBy A.negative (A.work.nearest A.negative (w - A.term (k + 1))) := by
    have taken : w + signedBy true (A.term (k + 1)) = w - A.term (k + 1) :=
      (sub_eq_add_neg _ _).symm
    rw [sum_succ_of_signed signed (by rw [odd, taken]; exact left.le), odd, taken]
  have up : A.sum (k + 2) = signedBy A.negative (A.work.nearest A.negative
      (A.work.nearest A.negative (w - A.term (k + 1)) + A.term (k + 2))) := by
    rw [sum_succ_of_signed down (by rw [even']; exact add_nonneg nearest_nonneg (term_nonneg _)),
      even']
    rfl
  rcases nearest_beside small.proper.some_ directed holds left some_ term some_'
    ((small.term_succ_le (k + 1)).trans_lt term) with stays | back
  · exact .inl (by rw [down, stays, signed])
  · exact .inr (by rw [up, back, down])

/-- In a directed mode, the sums of a small angle that is far from zero come to rest. -/
theorem IsSmall.repeats_of_far (small : A.IsSmall) (deep : A.work.IsDeep) (far : A.IsFar)
    (directed : A.work.rounding.IsDirected) :
    ∃ j ≤ A.work.precision + 5, A.sum (j + 1) = A.sum j := by
  -- The next term is taken from an even sum.
  obtain ⟨n, even, early, late⟩ : ∃ n, n.bodd = false ∧ A.work.precision + 3 ≤ n ∧
      n ≤ A.work.precision + 4 := by
    cases odd : A.work.precision.bodd with
    | false => exact ⟨A.work.precision + 4, by simp [odd], by omega, le_rfl⟩
    | true => exact ⟨A.work.precision + 3, by simp [odd], le_rfl, by omega⟩
  obtain ⟨w, signed, holds, low⟩ := small.exists_sum_ge deep far (by omega) late
  obtain ⟨place, room⟩ := far.place_spec low
  have start := far.start_pos
  have late_term := small.term_late_le deep far (k := n + 1) (by omega)
  have one : (10 : ℚ) ^ (1 - A.work.precision : ℤ) ≤ 1 :=
    (ten_zpow_le (by linarith [deep.digits])).trans_eq (zpow_zero 10)
  have part := mul_le_mul_of_nonneg_left one start.le
  have below := place_le_of_little small.proper.some_ (by linarith) place (late_term.trans_lt room)
  rcases small.repeats_beside directed even signed holds (by linarith) (by linarith)
    with same | same
  · exact ⟨n, by omega, same⟩
  · exact ⟨n + 1, by omega, same⟩

/-- The first sum is above the numbers that are exact to the last unit, and the powers are lost. -/
def IsBeside (A : Angle) : Prop :=
  10 ^ A.work.precision * A.work.unit < A.start ∧ A.start * A.square ≤ A.work.unit

/-- In a directed mode, the sums of an angle just above those come to rest at once. -/
theorem IsSmall.repeats_of_beside (small : A.IsSmall) (beside : A.IsBeside)
    (directed : A.work.rounding.IsDirected) : ∃ j ≤ 1, A.sum (j + 1) = A.sum j := by
  obtain ⟨above, lost⟩ := beside
  have unit := A.work.unit_pos
  have power : A.power 1 ≤ A.work.unit :=
    holds_unit.nearest_le small.proper.some_ (mul_nonneg small.starts small.square) lost
  have term : A.term 1 ≤ A.work.unit := by
    refine holds_unit.nearest_le small.proper.some_
      (div_nonneg (small.power_nonneg 1) (factorial_pos 1).le) ?_
    have two : (2 : ℚ) ≤ A.factorial 1 := two_le_factorial_one
    rw [div_le_iff₀ (factorial_pos 1)]
    have := mul_le_mul_of_nonneg_left two unit.le
    linarith
  obtain ⟨n, units⟩ := small.holds.exists_units
  have least : 10 ^ A.work.precision * A.work.unit ≤ A.start - A.term 1 := by
    rw [units] at above ⊢
    have counted : 10 ^ A.work.precision < n := by
      exact_mod_cast lt_of_mul_lt_mul_right above unit.le
    have next : (10 : ℚ) ^ A.work.precision + 1 ≤ n := by exact_mod_cast counted
    have := mul_le_mul_of_nonneg_right next unit.le
    linarith
  have positive : 0 < 10 ^ A.work.precision * A.work.unit := mul_pos (by positivity) unit
  have place : A.work.lastPlace + 1 ≤ A.work.place (A.start - A.term 1) := by
    have log : A.work.lastPlace + A.work.precision ≤ Int.log 10 (A.start - A.term 1) := by
      refine le_log_of_le ?_
      rw [ten_zpow_add, zpow_natCast, mul_comm]
      exact least
    unfold Context.place
    omega
  have room := ten_zpow_le place
  rw [ten_zpow_succ] at room
  change 10 * A.work.unit ≤ _ at room
  rcases small.repeats_beside (k := 0) directed rfl rfl small.holds (by linarith)
    (show A.term 1 < 10 ^ A.work.place (A.start - A.term 1) by linarith) with same | same
  · exact ⟨0, by omega, same⟩
  · exact ⟨1, le_rfl, same⟩

end InfixCalc.Angle
