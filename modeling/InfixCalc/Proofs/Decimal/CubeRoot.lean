import InfixCalc.Proofs.Decimal.RootError
import InfixCalc.Proofs.Decimal.Whole
import InfixCalc.Proofs.Decimal.Words

/-!
# Roots of cubes

The word `cbrt` finds a root through logarithms, and takes the integer next to it if that is the
exact root. Where logarithms and exponentials are correctly rounded, the root of a cube is off by
less than a half in a mode that goes to the nearest number, so it is exact. In the other modes it is
exact if the mode takes the approximate root to the exact one.
-/

namespace InfixCalc

open InfixCalc.Number

namespace Context

open Decimal

/-- The logarithm of the number is correctly rounded, if it has one. -/
def LnRounds (ctx : Context) (x : Decimal) : Prop :=
  ∀ v, x.value? = some v → 0 < v →
    ∃ d w, ctx.ln x = .ok d ∧ d.value? = some w ∧ ctx.IsNearest (Real.log v) w

/-- The exponential of the number is correctly rounded. -/
def ExpRounds (ctx : Context) (x : Decimal) : Prop :=
  ∀ v, x.value? = some v →
    ∃ d w, ctx.exp x = .ok d ∧ d.value? = some w ∧ ctx.IsNearest (Real.exp v) w

/-- The root as it is found through logarithms. -/
def logRoot (ctx : Context) (x : Decimal) : Outcome Decimal := do
  let size ← ctx.abs x
  ctx.exp (← ctx.div (← ctx.ln size) (.ofNat 3))

/-- The logarithm and the exponential are correctly rounded where the root of a number takes
them. -/
structure RootRounds (ctx : Context) (x : Decimal) : Prop where
  ln : ∀ size, ctx.abs x = .ok size → ctx.LnRounds size
  exp : ∀ size l q, ctx.abs x = .ok size → ctx.ln size = .ok l → ctx.div l (.ofNat 3) = .ok q →
    ctx.ExpRounds q

/-- The decimal is the cube of an integer, and the cube has no more digits than the context. -/
structure IsCube (ctx : Context) (n : ℤ) (x : Decimal) : Prop where
  value : x.value? = some ((n : ℚ) ^ 3)
  few : n.natAbs ^ 3 < 10 ^ ctx.precision

variable {ctx : Context} {x : Decimal} {n : ℤ}

theorem abs_cube (n : ℤ) : |(n : ℚ) ^ 3| = (n.natAbs ^ 3 : Nat) := by
  rw [abs_pow, Nat.cast_pow, Nat.cast_natAbs, Int.cast_abs]

theorem IsCube.gives_abs (standard : ctx.IsStandard) (cube : ctx.IsCube n x) :
    ctx.Gives (n.natAbs ^ 3 : Nat) (ctx.abs x) := by
  have size := Context.gives_abs cube.value standard.proper
  rwa [abs_cube, (holds_natCast cube.few.le standard.low).rounded_eq standard.some_] at size

theorem IsCube.exists_abs (standard : ctx.IsStandard) (cube : ctx.IsCube n x)
    (small : ((n.natAbs ^ 3 : Nat) : ℚ) < 10 ^ (ctx.greatest + 1)) :
    ∃ size, ctx.abs x = .ok size ∧ size.value? = some ((n.natAbs ^ 3 : Nat) : ℚ) := by
  have size := (cube.gives_abs standard).yields fun _ : True => by rwa [Nat.abs_cast]
  exact (size.mono id fun _ shown => shown.1).exists_eq_ok trivial

/-- The root of a cube is found through logarithms, and is off by less than the slack of the
mode. -/
theorem IsCube.exists_logRoot (standard : ctx.IsStandard) (cube : ctx.IsCube n x)
    (some_ : n ≠ 0) (small : ((n.natAbs ^ 3 : Nat) : ℚ) < 10 ^ (ctx.greatest + 1))
    (rounds : ctx.RootRounds x) :
    ∃ root r, ctx.logRoot x = .ok root ∧ root.value? = some r ∧ ctx.Holds |r| ∧ 1 ≤ r ∧
      |r - n.natAbs| < ctx.rounding.slack := by
  obtain ⟨size, came, shows⟩ := cube.exists_abs standard small
  have few := cube.few
  have positive : 0 < n.natAbs := Int.natAbs_pos.mpr some_
  generalize n.natAbs = m at few small shows positive ⊢
  have held : ctx.Holds ((m ^ 3 : Nat) : ℚ) := by
    simpa only [Nat.abs_cast] using holds_natCast few.le standard.low
  obtain ⟨l, w, logarithm, shown, nearLog⟩ :=
    rounds.ln size came _ shows (by exact_mod_cast pow_pos positive 3)
  rw [Rat.cast_natCast, Nat.cast_pow] at nearLog
  obtain ⟨nonneg, below⟩ := nearLog.log_cube_bounds positive
  have third : 0 ≤ w / 3 := div_nonneg nonneg (by norm_num)
  -- A third of the logarithm is below the cube, for which there is room.
  have room : |ctx.rounded (w / 3)| < 10 ^ (ctx.greatest + 1) := by
    rw [rounded_of_nonneg third, abs_of_nonneg nearest_nonneg]
    refine (held.nearest_le standard.some_ third (below.trans ?_)).trans_lt small
    exact_mod_cast Nat.le_self_pow three_ne_zero m
  obtain ⟨q, divided, quotient, _⟩ := ((gives_div standard.proper shown (value?_ofNat 3)
    (by norm_num)).yields fun _ : True => room).exists_eq_ok trivial
  obtain ⟨root, r, found, shows', nearExp⟩ :=
    rounds.exp size l q came logarithm divided _ quotient
  have figures : ctx.CubeFigures m w (ctx.rounded (w / 3)) r := ⟨nearLog, rfl, nearExp⟩
  refine ⟨root, r, ?_, shows', nearExp.holds, nearExp.le_of_holds standard.holds_abs_one ?_, ?_⟩
  · simp only [logRoot, bind, Except.bind, came, logarithm, divided, found]
  · exact_mod_cast Real.one_le_exp (by exact_mod_cast figures.third_nonneg positive)
  · exact_mod_cast figures.near standard positive few

def withSign (ctx : Context) (x root : Decimal) : Outcome Decimal := do
  if (← order x zero) == .gt then return root else ctx.minus root

/-- The integer next to a root in place of the root, if it is exact, and the sign of the number. -/
def snap (ctx : Context) (x root : Decimal) : Outcome Decimal := do
  let nearest ← ctx.toIntegral ctx.rounding root
  let cube ← ctx.power nearest (.ofNat 3)
  let exact ← equal cube (← ctx.abs x)
  ctx.withSign x (if exact then nearest else root)

theorem cbrt_eq {v : ℚ} (shows : x.value? = some v) (some_ : v ≠ 0) :
    cbrt ctx x = ctx.logRoot x >>= ctx.snap x := by
  have differs : equal x zero = .ok false := by rw [equal_zero shows, decide_eq_false some_]
  simp only [cbrt, differs, logRoot, bind_assoc]
  rfl

theorem cbrt_zero (shows : x.value? = some 0) : cbrt ctx x = .ok zero := by
  rw [cbrt, equal_zero shows, decide_eq_true rfl]
  rfl

theorem yields_withSign (proper : ctx.IsProper) {v r : ℚ} (shows : x.value? = some v)
    (some_ : v ≠ 0) {root : Decimal} (shows' : root.value? = some r) (holds : ctx.Holds |r|)
    {small : Prop} (fits : small → |r| < 10 ^ (ctx.greatest + 1)) :
    Yields small (fun d => d.value? = some (signedBy (decide (v < 0)) r))
      (ctx.withSign x root) := by
  rw [withSign, order_zero shows]
  rcases some_.lt_or_gt with negative | positive
  · rw [compare_lt_iff_lt.mpr negative, decide_eq_true negative, signedBy, if_pos rfl]
    have gives := gives_minus shows' proper
    rw [← abs_neg] at holds fits
    rw [holds.rounded_eq proper.some_] at gives
    exact (gives.yields fits).mono id fun _ shown => shown.1
  · rw [compare_gt_iff_gt.mpr positive, decide_eq_false positive.not_gt, signedBy,
      if_neg Bool.false_ne_true]
    exact .value shows'

/-- The cube of an integer next to a root is rounded once, and the exact one is not too large. -/
theorem yields_cube (standard : ctx.IsStandard) {k m : Nat} (few : m ^ 3 < 10 ^ ctx.precision)
    (small : ((m ^ 3 : Nat) : ℚ) < 10 ^ (ctx.greatest + 1)) (positive : 1 ≤ k) (le : k ≤ 2 * m)
    (shows : x.value? = some (k : ℚ)) :
    Yields (k = m) (fun d => d.value? = some (ctx.rounded ((k ^ 3 : Nat) : ℚ)))
      (ctx.power x (.ofNat 3)) := by
  have high : 0 ≤ ctx.greatest := by
    rw [standard.greatest]
    norm_num
  have digits : k ^ 3 ≤ 10 ^ (ctx.precision + 3) := by
    calc k ^ 3 ≤ (2 * m) ^ 3 := Nat.pow_le_pow_left le 3
      _ = 8 * m ^ 3 := by ring
      _ ≤ 10 ^ 3 * 10 ^ ctx.precision := Nat.mul_le_mul (by norm_num) few.le
      _ = 10 ^ (ctx.precision + 3) := by rw [pow_add, mul_comm]
  refine (yields_power standard.proper standard.low high shows positive three_ne_zero
    (by norm_num) digits).mono (fun same => ?_) fun _ => id
  subst same
  exact hasRoom_of_few standard.some_ standard.low few.le small

/-- What comes of a root is the exact one if the mode takes the root there. -/
theorem IsCube.yields_snap (standard : ctx.IsStandard) (cube : ctx.IsCube n x)
    (some_ : n ≠ 0) (small : ((n.natAbs ^ 3 : Nat) : ℚ) < 10 ^ (ctx.greatest + 1))
    {root : Decimal} {r : ℚ} (shows : root.value? = some r) (holds : ctx.Holds |r|) (one : 1 ≤ r)
    (near : |r - n.natAbs| < 1) :
    Yields (ctx.rounding.nearest false r = n.natAbs)
      (fun d => d.value? = some (signedBy (decide ((n : ℚ) ^ 3 < 0))
        (if ctx.rounding.nearest false r = n.natAbs then n.natAbs else r)))
      (ctx.snap x root) := by
  obtain ⟨positive, above, below⟩ := ctx.rounding.nearest_bounds one near
  obtain ⟨nearest, integral, whole⟩ := exists_toIntegral shows ctx.rounding (by linarith)
  obtain ⟨size, came, sized⟩ := cube.exists_abs standard small
  have nonzero : (n : ℚ) ^ 3 ≠ 0 := pow_ne_zero 3 (Int.cast_ne_zero.mpr some_)
  rw [snap, integral, came]
  generalize ctx.rounding.nearest false r = k at positive above below whole ⊢
  have few := cube.few
  have some' : 1 ≤ n.natAbs := Int.natAbs_pos.mpr some_
  generalize n.natAbs = m at few some' small above below sized ⊢
  refine (yields_cube standard few small positive (by omega) whole).bind fun cubed exact_ => ?_
  have agree : (ctx.rounded ((k ^ 3 : Nat) : ℚ) = (m ^ 3 : Nat)) ↔ k = m := by
    rw [rounded_natCast_eq_iff standard.some_ standard.low few, Nat.pow_left_inj three_ne_zero]
  have equal_ : equal cubed size = .ok (decide (k = m)) := by
    rw [equal_eq exact_ sized, decide_eq_decide.mpr agree]
  dsimp only [bind, Except.bind]
  rw [equal_]
  dsimp only
  by_cases same : k = m
  · subst same
    have root : k ≤ k ^ 3 := Nat.le_self_pow three_ne_zero k
    rw [decide_eq_true rfl, if_pos rfl, if_pos rfl]
    refine yields_withSign standard.proper cube.value nonzero whole
      (holds_natCast (root.trans few.le) standard.low) fun _ => ?_
    rw [Nat.abs_cast]
    exact lt_of_le_of_lt (by exact_mod_cast root) small
  · rw [decide_eq_false same, if_neg Bool.false_ne_true, if_neg same]
    exact yields_withSign standard.proper cube.value nonzero shows holds
      fun same' => absurd same' same

/-- The root of a cube is exact if the mode takes the root that is found through logarithms there,
and not otherwise. -/
theorem IsCube.cbrt_iff (standard : ctx.IsStandard) (cube : ctx.IsCube n x)
    (some_ : n ≠ 0) (small : ((n.natAbs ^ 3 : Nat) : ℚ) < 10 ^ (ctx.greatest + 1))
    (rounds : ctx.RootRounds x) :
    ∃ root r, ctx.logRoot x = .ok root ∧ root.value? = some r ∧ 1 ≤ r ∧
      |r - n.natAbs| < ctx.rounding.slack ∧
      ((∃ d, cbrt ctx x = .ok d ∧ d.value? = some (n : ℚ)) ↔
        ctx.rounding.nearest false r = n.natAbs) := by
  obtain ⟨root, r, found, shows, holds, one, near⟩ :=
    cube.exists_logRoot standard some_ small rounds
  refine ⟨root, r, found, shows, one, near, ?_⟩
  have snaps := cube.yields_snap standard some_ small shows holds one
    (near.trans_le ctx.rounding.slack_le_one)
  have sign : signedBy (decide ((n : ℚ) ^ 3 < 0)) n.natAbs = n := by
    have odd : (n : ℚ) ^ 3 < 0 ↔ (n : ℚ) < 0 := Odd.pow_neg_iff (by decide)
    rw [decide_eq_decide.mpr odd, Nat.cast_natAbs, Int.cast_abs, signedBy_decide]
  rw [cbrt_eq cube.value (pow_ne_zero 3 (Int.cast_ne_zero.mpr some_)), found]
  constructor
  · rintro ⟨d, came, exact_⟩
    by_contra other
    have given := Option.some.inj (exact_.symm.trans (snaps.ends.of_eq_ok came))
    rw [if_neg other] at given
    have same : (n.natAbs : ℚ) = r := signedBy_inj.mp (sign.trans given)
    exact other (by rw [← same, Rounding.nearest_natCast])
  · intro same
    obtain ⟨d, came, exact_⟩ := snaps.exists_eq_ok same
    refine ⟨d, came, ?_⟩
    rw [exact_, if_pos same, sign]

theorem IsCube.cbrt_of_large (standard : ctx.IsStandard) (cube : ctx.IsCube n x)
    (large : 10 ^ (ctx.greatest + 1) ≤ ((n.natAbs ^ 3 : Nat) : ℚ)) :
    cbrt ctx x = refuse .overflow := by
  have full : ctx.abs x = refuse .overflow := by
    have gives := cube.gives_abs standard
    generalize ctx.abs x = outcome at gives ⊢
    cases gives with
    | number shows small =>
      rw [Nat.abs_cast] at small
      exact absurd small large.not_gt
    | overflow => rfl
  have some_ : (n : ℚ) ^ 3 ≠ 0 := by
    rw [← abs_pos, abs_cube]
    exact (ten_zpow_pos _).trans_le large
  rw [cbrt_eq cube.value some_, logRoot, full]
  rfl

theorem IsCube.cbrt_of_half (standard : ctx.IsStandard) (cube : ctx.IsCube n x)
    (some_ : n ≠ 0) (small : ((n.natAbs ^ 3 : Nat) : ℚ) < 10 ^ (ctx.greatest + 1))
    (rounds : ctx.RootRounds x) (half : ctx.rounding ∈ [.halfUp, .halfDown, .halfEven]) :
    ∃ d, cbrt ctx x = .ok d ∧ d.value? = some (n : ℚ) := by
  obtain ⟨root, r, _, _, one, near, exact_⟩ := cube.cbrt_iff standard some_ small rounds
  rw [Rounding.slack_of_mem half] at near
  exact exact_.mpr (Rounding.nearest_eq_of_near half (by linarith) near)

end Context

namespace Decimal

open Context

variable {σ : Type} [RandomSource σ] {ctx : Context}

/-- The evaluation gives a decimal with the value. -/
def Values (e : Expression σ Decimal) (bindings : List (String × Decimal)) (state reached : σ)
    (v : ℚ) : Prop :=
  ∃ d, (e.evaluate bindings).run state = (.ok d, reached) ∧ d.value? = some v

/-- In a builder whose logarithm and exponential are correctly rounded, the root of a cube with no
more digits than the context is exact in the modes that go to the nearest number. In the other
modes it is exact if the mode takes the approximate root to the exact one; down, if that is not
below. A cube that the context has no room for is refused. -/
theorem builder_roots_of_cubes {precision rounding cacheSize maxDepth : Setting}
    (settings : readContext precision rounding = .ok ctx) {first b : Builder σ Decimal}
    (made : builder precision rounding cacheSize maxDepth = .ok first) (used : first.Used b)
    {text : String} {e : Expression σ Decimal} (built : (b.build text).1 = .ok e)
    {op : Operator σ Decimal} {t : Tree (Symbol σ Decimal)}
    (root : e.root = .node (.operator op) [t])
    (label : op.label = "cbrt") {bindings : List (String × Decimal)} {state reached : σ}
    {x : Decimal}
    (came : (t.evaluate (InfixCalc.valueOf bindings e.constants)).run state = (.ok x, reached))
    {n : ℤ} (cube : ctx.IsCube n x) (rounds : ctx.RootRounds x) :
    (((n.natAbs ^ 3 : Nat) : ℚ) < 10 ^ (ctx.greatest + 1) →
      (n = 0 ∨ ctx.rounding ∈ [.halfUp, .halfDown, .halfEven] →
        Values e bindings state reached n) ∧
      (n ≠ 0 → ∃ approximate r, ctx.logRoot x = .ok approximate ∧ approximate.value? = some r ∧
        (Values e bindings state reached n ↔ ctx.rounding.nearest false r = n.natAbs) ∧
        (ctx.rounding ∈ [.down, .floor] →
          (Values e bindings state reached n ↔ (n.natAbs : ℚ) ≤ r)))) ∧
    (10 ^ (ctx.greatest + 1) ≤ ((n.natAbs ^ 3 : Nat) : ℚ) →
      (e.evaluate bindings).run state =
        (.error (.notEvaluable "cbrt" x.text (.signal .overflow)), reached)) := by
  have standard := isStandard_of_readContext settings
  have member : ("cbrt", cbrt ctx) ∈ wordFunctions ctx := by simp [wordFunctions]
  have gives : (e.evaluate bindings).run state =
      ((cbrt ctx x).mapError (Refusal.report "cbrt" x.text), reached) := by
    rw [Expression.evaluate, root]
    exact (acts_of_label settings made used built root member label).run_evaluate_unary came
  have values {v : ℚ} : Values e bindings state reached v ↔
      ∃ d, cbrt ctx x = .ok d ∧ d.value? = some v := by
    rw [Values, gives]
    cases cbrt ctx x with
    | ok value =>
      constructor
      · rintro ⟨_, same, shows⟩
        cases same
        exact ⟨_, rfl, shows⟩
      · rintro ⟨_, same, shows⟩
        cases same
        exact ⟨_, rfl, shows⟩
    | error refusal =>
      refine iff_of_false ?_ ?_ <;> rintro ⟨_, same, _⟩ <;> cases same
  refine ⟨fun small => ⟨fun exact_ => values.mpr ?half, fun some_ => ?approximate⟩,
    fun large => ?large⟩
  case half =>
    rcases eq_or_ne n 0 with rfl | some_
    · have none_ : x.value? = some 0 := by simpa using cube.value
      exact ⟨zero, cbrt_zero none_, (value?_ofNat 0).trans (by simp)⟩
    · exact cube.cbrt_of_half standard some_ small rounds (exact_.resolve_left some_)
  case approximate =>
    obtain ⟨approximate, r, found, shows, one, near, exact_⟩ :=
      cube.cbrt_iff standard some_ small rounds
    refine ⟨approximate, r, found, shows, values.trans exact_, fun down => ?_⟩
    rw [values.trans exact_]
    exact Rounding.nearest_eq_iff_of_mem down (by linarith)
      (near.trans_le ctx.rounding.slack_le_one)
  case large =>
    rw [gives, cube.cbrt_of_large standard large]
    rfl

/- The root of sixty-four, with three digits and rounded down. -/

theorem log_sixtyFour : |Real.log 64 - 416 * 10 ^ (-2 : ℤ)| ≤ 10 ^ (-2 : ℤ) / 2 := by
  have power : Real.log 64 = 6 * Real.log 2 := by
    rw [show (64 : ℝ) = 2 ^ 6 by norm_num, Real.log_pow]
    norm_num
  have above := Real.log_two_gt_d9
  have below := Real.log_two_lt_d9
  rw [power, abs_le]
  norm_num
  constructor <;> linarith

theorem exp_third : |Real.exp (138 * 10 ^ (-2 : ℤ)) - 397 * 10 ^ (-2 : ℤ)| ≤
    10 ^ (-2 : ℤ) / 2 := by
  have split : Real.exp (138 * 10 ^ (-2 : ℤ)) = Real.exp 1 * Real.exp (38 / 100) := by
    rw [← Real.exp_add]
    norm_num
  have part := Real.exp_bound (show |(38 / 100 : ℝ)| ≤ 1 by norm_num [abs_of_pos])
    (show 0 < 7 by norm_num)
  have above := Real.exp_one_gt_d9
  have below := Real.exp_one_lt_d9
  norm_num [Finset.sum_range_succ, Nat.factorial, abs_le] at part
  rw [split, abs_le]
  norm_num
  constructor <;> nlinarith

theorem rootRounds_sixtyFour : (Context.standard 3 .down).RootRounds (ofNat 64) := by
  have sized : (Context.standard 3 .down).abs (ofNat 64) = .ok (ofNat 64) :=
    eq_ok_of_toOption (by decide +kernel)
  have logarithm : (Context.standard 3 .down).ln (ofNat 64) = .ok (.finite false 416 (-2)) :=
    eq_ok_of_toOption (by decide +kernel)
  have third : (Context.standard 3 .down).div (.finite false 416 (-2)) (ofNat 3) =
      .ok (.finite false 138 (-2)) := eq_ok_of_toOption (by decide +kernel)
  have exponential : (Context.standard 3 .down).exp (.finite false 138 (-2)) =
      .ok (.finite false 397 (-2)) := eq_ok_of_toOption (by decide +kernel)
  have value (n : Nat) : (Decimal.finite false n (-2)).value? =
      some ((n : ℚ) * 10 ^ (-2 : ℤ)) :=
    value?_finite _ _ _
  have nearLog : (Context.standard 3 .down).IsNearest (Real.log ((64 : Nat) : ℚ))
      ((416 : Nat) * 10 ^ (-2 : ℤ)) :=
    isNearest_of_near (by decide) (by decide) (by decide) (by decide)
      (by push_cast; exact log_sixtyFour)
  have nearExp : (Context.standard 3 .down).IsNearest
      (Real.exp ((138 : Nat) * 10 ^ (-2 : ℤ) : ℚ)) ((397 : Nat) * 10 ^ (-2 : ℤ)) :=
    isNearest_of_near (by decide) (by decide) (by decide) (by decide)
      (by push_cast; exact exp_third)
  constructor
  · rintro _ came v shows -
    cases sized.symm.trans came
    cases (value?_ofNat 64).symm.trans shows
    exact ⟨_, _, logarithm, value 416, nearLog⟩
  · rintro _ l q came came' came'' v shows
    cases sized.symm.trans came
    cases logarithm.symm.trans came'
    cases third.symm.trans came''
    cases (value 138).symm.trans shows
    exact ⟨_, _, exponential, value 397, nearExp⟩

/-- With three digits, the root of sixty-four that is found through logarithms is `3.97`, and the
mode does not take it to four. -/
theorem builder_roots_of_cubes_sixtyFour :
    ∃ (first : Builder Seed Decimal) (e : Expression Seed Decimal),
      builder (.whole 3) (.text "ROUND_DOWN") .absent (.whole 128) = .ok first ∧
      (first.build "cbrt x").1 = .ok e ∧
      ¬ Values e [("x", ofNat 64)] .initial .initial 4 := by
  have read : readContext (.whole 3) (.text "ROUND_DOWN") = .ok (.standard 3 .down) := rfl
  have rests : Rounding.down.Rests := ⟨by decide, by decide⟩
  have joined : "cbrt" ++ " " ++ "x" = "cbrt x" := by decide
  obtain ⟨first, e, made, built, root⟩ := exists_build_word read rests (by decide)
    ("cbrt", cbrt (.standard 3 .down)) (fun _ _ => rfl) (fun _ _ => rfl) rfl
  rw [joined] at built
  refine ⟨first, e, made, built, fun exact_ => ?_⟩
  have came : ((Tree.node (.variable "x") [] : Tree (Symbol Seed Decimal)).evaluate
      (InfixCalc.valueOf [("x", ofNat 64)] e.constants)).run .initial =
        (.ok (ofNat 64), .initial) := rfl
  have cube : (Context.standard 3 .down).IsCube 4 (ofNat 64) :=
    ⟨(value?_ofNat 64).trans (by norm_num), by decide⟩
  have small : ((4 ^ 3 : Nat) : ℚ) < 10 ^ ((Context.standard 3 .down).greatest + 1) :=
    lt_of_lt_of_le (by norm_num) (ten_zpow_le (show 2 ≤ (999999 + 1 : ℤ) by norm_num))
  have roots := builder_roots_of_cubes read made .new built root rfl came cube
    rootRounds_sixtyFour
  obtain ⟨approximate, r, found, shows, _, down⟩ := (roots.1 small).2 four_ne_zero
  have logRoot : (Context.standard 3 .down).logRoot (ofNat 64) = .ok (.finite false 397 (-2)) :=
    eq_ok_of_toOption (by decide +kernel)
  cases logRoot.symm.trans found
  have near : (4 : ℚ) ≤ r := (down List.mem_cons_self).mp exact_
  rw [value?_finite] at shows
  rw [← Option.some.inj shows] at near
  norm_num [signedBy] at near

end Decimal
end InfixCalc
