import InfixCalc.Proofs.Decimal.AngleSmall

/-!
# Where trigonometry ends

In every standard context whose rounding lets the circle number rest, a cosine of a finite number
ends, and so does a sine, unless the modes that lift what is small keep the sums of an angle next to
zero in motion. The series of an undefined number never end.
-/

namespace InfixCalc

open InfixCalc.Number InfixCalc.Decimal

namespace Context

variable {ctx : Context} {w : ℚ} {r x : Decimal}

theorem IsStandard.extended_low (standard : ctx.IsStandard) : ctx.extended.lastPlace ≤ 0 := by
  rw [standard.lastPlace_eq]
  omega

/-- So many units of the last place have the least exponent. -/
theorem units_eq (ctx : Context) :
    10 ^ ctx.extended.precision * ctx.extended.unit = (10 : ℚ) ^ (ctx.least + 1) := by
  rw [unit, ← zpow_natCast, ← ten_zpow_add]
  congr 1
  simp only [lastPlace, extended]
  ring

theorem hundred_units_eq (ctx : Context) :
    100 * (10 ^ ctx.extended.precision * ctx.extended.unit) = (10 : ℚ) ^ (ctx.least + 3) := by
  rw [units_eq, show ctx.least + 3 = ctx.least + 1 + 1 + 1 by ring,
    ten_zpow_succ (ctx.least + 1 + 1), ten_zpow_succ (ctx.least + 1)]
  ring

/-- An angle after its reduction: a number of the context of moderate size. -/
structure IsReduced (ctx : Context) (w : ℚ) (r : Decimal) : Prop where
  shows : ctx.Shows w r
  holds : ctx.Holds |w|
  moderate : |w| ≤ 107

/-- What is small is lifted, and the angle is next to zero, but neither it nor its square is lost in
rounding. -/
def Vanishes (ctx : Context) (bound w : ℚ) : Prop :=
  ctx.rounding.Lifts (decide (w < 0)) ∧ w ≠ 0 ∧ |w| ≤ bound ∧ ctx.extended.nearest false (w * w) ≠ 0

/-- How near to zero an angle must be for its sums to move for ever. With millions of digits the
third power of an angle can count too, and it may have to be a little nearer. -/
def reach (ctx : Context) : ℚ :=
  if ctx.precision ≤ 1999987 then 10 ^ (ctx.least + 1) else 10 ^ (ctx.least + 3)

/- The figures of sines and cosines. -/

def sineAngle (ctx : Context) (w : ℚ) : Angle :=
  ⟨ctx.extended, decide (w < 0), |w|, ctx.extended.nearest false (w * w), 1⟩

def cosineAngle (ctx : Context) (w : ℚ) : Angle :=
  ⟨ctx.extended, false, 1, ctx.extended.nearest false (w * w), 0⟩

theorem IsReduced.sound_sine (standard : ctx.IsStandard) (reduced : ctx.IsReduced w r) :
    (ctx.sineAngle w).IsSound where
  proper := standard.deep.proper
  starts := abs_nonneg w
  holds := reduced.holds.extended
  small := reduced.shows.2
  square := nearest_nonneg

theorem IsStandard.sound_cosine (standard : ctx.IsStandard) (w : ℚ) :
    (ctx.cosineAngle w).IsSound where
  proper := standard.deep.proper
  starts := zero_le_one
  holds := holds_one standard.extended_low
  small := one_lt_zpow₀ (by norm_num) (show 0 < ctx.extended.greatest + 1 by
    linarith [standard.deep.high])
  square := nearest_nonneg

theorem IsReduced.at_sine (reduced : ctx.IsReduced w r) :
    (ctx.sineAngle w).At 0 ⟨r, r, 1, 1, false⟩ := by
  have first : ctx.extended.Shows (signedBy (decide (w < 0)) |w|) r := by
    rw [signedBy_decide]
    exact reduced.shows
  exact ⟨first, first, rfl, rfl, rfl⟩

theorem IsStandard.at_cosine (standard : ctx.IsStandard) (w : ℚ) :
    (ctx.cosineAngle w).At 0 ⟨.one, .one, 0, 1, false⟩ := by
  have first : ctx.extended.Shows 1 .one := by
    refine ⟨(value?_ofNat 1).trans (by rw [Nat.cast_one]), ?_⟩
    rw [abs_one]
    exact (standard.sound_cosine w).small
  exact ⟨first, first, rfl, rfl, rfl⟩

/- Patience is enough for every series that ends. -/

theorem patience_eq (some_ : 1 ≤ ctx.precision) :
    ctx.patience = 10 ^ (ctx.precision - 1) * 10 ^ 7 := by
  rw [patience, Nat.pow_eq, ← pow_add]
  congr 1
  omega

theorem lt_patience (some_ : 1 ≤ ctx.precision) {j : Nat} (few : j < ctx.precision + 10 ^ 7 - 1) :
    j < ctx.patience := by
  have grown := Nat.lt_pow_self (n := ctx.precision - 1) (show 1 < 10 by norm_num)
  rw [patience_eq some_]
  omega

/-- Within the patience of the context the sum comes to rest, or a power is too large. -/
def Outlasts (ctx : Context) (A : Angle) : Prop :=
  ∃ j, j + 1 < ctx.patience ∧
    (A.sum (j + 1) = A.sum j ∨ 10 ^ (A.work.greatest + 1) ≤ A.power j)

section Outlasts

variable {A : Angle} (standard : ctx.IsStandard) (work : A.work = ctx.extended) (sound : A.IsSound)
  (reduced : ctx.IsReduced w r) (square : A.square = A.work.nearest false (w * w))
include standard work sound reduced square

theorem outlasts_of_drops (start : A.start ≤ 107) (drops : A.work.rounding.Drops A.negative) :
    ctx.Outlasts A := by
  have unit : A.work.unit ≤ 1 := by
    rw [work]
    exact (ten_zpow_le standard.extended_low).trans_eq (zpow_zero 10)
  have product : w * w ≤ 107 * 107 := by
    rw [← abs_mul_abs_self]
    exact mul_le_mul reduced.moderate reduced.moderate (abs_nonneg w) (by norm_num)
  have squared : A.work.nearest false (w * w) ≤ 2 * (w * w) + A.work.unit :=
    nearest_le_double sound.proper.some_ (mul_self_nonneg w)
  obtain ⟨j, few, same⟩ := sound.repeats_of_drops unit drops (by linarith) (by linarith)
  rw [work, standard.lastPlace_eq] at few
  exact ⟨j, lt_patience standard.some_ (by omega), .inl same⟩

omit sound in
/-- An angle above one has powers that leave the context. -/
theorem outlasts_of_above (start : 1 ≤ A.start) (above : 1 < |w|) : ctx.Outlasts A := by
  refine ⟨_, ?_, .inr (Angle.power_large work (work ▸ standard.deep) standard.some_ reduced.holds
    above square start)⟩
  have high : A.work.greatest = 999999 := by
    rw [work]
    exact standard.greatest
  rw [high, patience_eq standard.some_, show 4 * (999999 + 1 : ℤ).toNat = 4000000 from rfl]
  have := Nat.one_le_pow (ctx.precision - 1) 10 (by norm_num)
  omega

omit reduced in
/-- An angle up to one whose first power is not lost has to stay away from zero. -/
theorem outlasts_of_below (first : A.first ≤ 1) (below : |w| ≤ 1)
    (directed : A.work.rounding.IsDirected)
    (far : A.start ≠ 0 → A.square ≠ 0 → A.IsFar ∨ A.IsBeside) : ctx.Outlasts A := by
  have small : A.IsSmall := by
    refine ⟨sound, ?_, first⟩
    rw [square]
    refine (holds_one (work ▸ standard.extended_low)).nearest_le sound.proper.some_
      (mul_self_nonneg w) ?_
    rw [← abs_mul_abs_self]
    exact mul_le_one₀ below (abs_nonneg w) below
  by_cases lost : A.start * A.square = 0
  · exact ⟨0, lt_patience standard.some_ (by omega), .inl (sound.sum_one lost)⟩
  · obtain ⟨startSome, squareSome⟩ := mul_ne_zero_iff.mp lost
    have digits : A.work.precision = ctx.precision + 2 := by
      rw [work]
      rfl
    rcases far startSome squareSome with far | beside
    · obtain ⟨j, few, same⟩ := small.repeats_of_far (work ▸ standard.deep) far directed
      exact ⟨j, lt_patience standard.some_ (by omega), .inl same⟩
    · obtain ⟨j, few, same⟩ := small.repeats_of_beside beside directed
      exact ⟨j, lt_patience standard.some_ (by omega), .inl same⟩

theorem outlasts (rests : ctx.rounding.Rests) (first : A.first ≤ 1)
    (start : A.start = |w| ∨ A.start = 1)
    (far : A.work.rounding.Lifts A.negative → A.start ≠ 0 → A.square ≠ 0 →
      A.IsFar ∨ A.IsBeside) : ctx.Outlasts A := by
  have rests' : A.work.rounding.Rests := by
    rw [work]
    exact rests
  rcases rests'.drops_or_lifts A.negative with drops | lifts
  · refine outlasts_of_drops standard work sound reduced square ?_ drops
    rcases start with start | start <;> linarith [reduced.moderate]
  · rcases lt_or_ge 1 |w| with above | below
    · refine outlasts_of_above standard work reduced square ?_ above
      rcases start with start | start <;> linarith
    · exact outlasts_of_below standard work sound square first below lifts.isDirected (far lifts)

end Outlasts

/- The series. -/

def sineSum (ctx : Context) (r : Decimal) (rounds : Nat) : Outcome Decimal :=
  AngleSum.rest ctx.extended r rounds .zero ⟨r, r, 1, 1, false⟩

def cosineSum (ctx : Context) (r : Decimal) (rounds : Nat) : Outcome Decimal :=
  AngleSum.rest ctx.extended r rounds .zero ⟨.one, .one, 0, 1, false⟩

theorem value?_zero : Decimal.zero.value? = some 0 := (value?_ofNat 0).trans (by rw [Nat.cast_zero])

/-- With fewer digits, the third power of an angle near to zero is less than a unit. -/
theorem IsStandard.lost (standard : ctx.IsStandard) (digits : ctx.precision ≤ 1999987)
    (near : |w| ≤ 10 ^ (ctx.least + 3)) :
    |w| * ctx.extended.nearest false (w * w) ≤ ctx.extended.unit := by
  have unit := ctx.extended.unit_pos
  have squared : ctx.extended.nearest false (w * w) ≤ 2 * (w * w) + ctx.extended.unit :=
    nearest_le_double standard.deep.proper.some_ (mul_self_nonneg w)
  rw [standard.least] at near
  have half : |w| ≤ 1 / 2 :=
    near.trans ((ten_zpow_le (show (-999999 + 3 : ℤ) ≤ -1 by norm_num)).trans (by norm_num))
  have cube : |w| * (w * w) ≤ ctx.extended.unit / 4 := by
    calc |w| * (w * w) = |w| * |w| * |w| := by rw [← abs_mul_abs_self]; ring
      _ ≤ 10 ^ (-999999 + 3 : ℤ) * 10 ^ (-999999 + 3 : ℤ) * 10 ^ (-999999 + 3 : ℤ) := by gcongr
      _ = 10 ^ (3 * (-999999 + 3) : ℤ) := by rw [← ten_zpow_add, ← ten_zpow_add]; norm_num
      _ ≤ 10 ^ (ctx.extended.lastPlace - 1) := ten_zpow_le (by rw [standard.lastPlace_eq]; omega)
      _ ≤ ctx.extended.unit / 4 := by
        rw [sub_eq_add_neg, ten_zpow_add, ← Context.unit]
        norm_num
        linarith
  calc |w| * ctx.extended.nearest false (w * w)
      ≤ |w| * (2 * (w * w) + ctx.extended.unit) := mul_le_mul_of_nonneg_left squared (abs_nonneg w)
    _ = 2 * (|w| * (w * w)) + |w| * ctx.extended.unit := by ring
    _ ≤ 2 * (ctx.extended.unit / 4) + 1 / 2 * ctx.extended.unit := by gcongr
    _ = ctx.extended.unit := by ring

theorem IsReduced.ends_sine (standard : ctx.IsStandard) (rests : ctx.rounding.Rests)
    (reduced : ctx.IsReduced w r) (far : ¬ ctx.Vanishes ctx.reach w) :
    Ends (fun d => ∃ v, d.value? = some v) (ctx.sineSum r ctx.patience) := by
  have sound := reduced.sound_sine standard
  obtain ⟨j, enough, stop⟩ := outlasts standard rfl sound reduced rfl rests le_rfl (.inl rfl) <| by
    intro lifts some_ square
    have above : ctx.reach < |w| := by
      by_contra near
      exact far ⟨lifts, abs_ne_zero.mp some_, not_lt.mp near, square⟩
    by_cases beyond : 10 ^ (ctx.least + 3) < |w|
    · exact .inl ((hundred_units_eq ctx).trans_lt beyond)
    · unfold reach at above
      split_ifs at above with digits
      · exact .inr ⟨(units_eq ctx).trans_lt above, standard.lost digits (not_lt.mp beyond)⟩
      · exact absurd above beyond
  rw [← Nat.zero_add j] at stop
  exact reduced.at_sine.ends_rest sound reduced.shows.1 rfl value?_zero stop enough

theorem IsReduced.ends_cosine (standard : ctx.IsStandard) (rests : ctx.rounding.Rests)
    (reduced : ctx.IsReduced w r) :
    Ends (fun d => ∃ v, d.value? = some v) (ctx.cosineSum r ctx.patience) := by
  have sound := standard.sound_cosine w
  obtain ⟨j, enough, stop⟩ := outlasts standard rfl sound reduced rfl rests (Nat.zero_le 1)
    (.inr rfl) <| by
    intro _ _ _
    refine .inl ((hundred_units_eq ctx).trans_lt (zpow_lt_one_of_neg₀ (by norm_num) ?_))
    rw [standard.least]
    norm_num
  rw [← Nat.zero_add j] at stop
  exact (standard.at_cosine w).ends_rest sound reduced.shows.1 rfl value?_zero stop enough

/-- The sums of an angle next to zero never come to rest. -/
theorem IsReduced.sine_endless (standard : ctx.IsStandard) (reduced : ctx.IsReduced w r)
    (vanishes : ctx.Vanishes (10 ^ (ctx.least + 1)) w) (rounds : Nat) :
    ctx.sineSum r rounds = endless := by
  have sound := reduced.sound_sine standard
  obtain ⟨lifts, some_, near, square⟩ := vanishes
  have one : |w| ≤ 1 := near.trans ((ten_zpow_le (by rw [standard.least]; norm_num)).trans_eq
    (zpow_zero 10))
  have small : (ctx.sineAngle w).IsSmall := by
    refine ⟨sound, ?_, le_rfl⟩
    refine (holds_one standard.extended_low).nearest_le sound.proper.some_ (mul_self_nonneg w) ?_
    rw [← abs_mul_abs_self]
    exact mul_le_one₀ one (abs_nonneg w) one
  have moves := small.moves standard.deep lifts (abs_pos.mpr some_)
    (near.trans_eq (units_eq ctx).symm) (lt_of_le_of_ne nearest_nonneg square.symm)
  refine reduced.at_sine.rest_eq_endless sound reduced.shows.1 rfl value?_zero ?_
    (fun j => (moves j).1) (fun j => (moves j).2) rounds
  show signedBy (decide (w < 0)) |w| ≠ 0
  rwa [signedBy_decide]

/- Reduction. -/

/-- Twice the circle number. -/
def turn (ctx : Context) : Outcome Decimal := do ctx.mul (.ofNat 2) (← ctx.pi)

theorem reduce_eq (ctx : Context) (x : Decimal) : ctx.reduce x = ctx.turn >>= ctx.rem x := by
  rw [reduce, turn, bind_assoc]

theorem IsStandard.ends_turn (standard : ctx.IsStandard) (rests : ctx.rounding.Rests) :
    Ends (fun d => ∃ v, d.value? = some v ∧ |v| ≤ 53) ctx.turn := by
  refine (standard.yields_pi rests).ends.bind fun circle ⟨v, shown, le⟩ => ?_
  refine (gives_mul standard.proper (value?_ofNat 2) shown.1).ends.mono fun d shown =>
    ⟨_, shown.1, ?_⟩
  have near := abs_rounded_le standard.some_ ((2 : Nat) * v)
  rw [abs_mul, Nat.abs_cast] at near
  push_cast at near ⊢
  linarith [standard.deep.unit_le_one]

/-- The angle of a finite number is reduced, unless it is refused. -/
theorem IsStandard.ends_reduce (standard : ctx.IsStandard) (rests : ctx.rounding.Rests) {v : ℚ}
    (shows : x.value? = some v) : Ends (fun r => ∃ w, ctx.IsReduced w r) (ctx.reduce x) := by
  rw [reduce_eq]
  refine (standard.ends_turn rests).bind fun turn ⟨t, shown, le⟩ => ?_
  rcases gives_rem standard.proper shows shown with ⟨q, small, gives⟩ | ⟨condition, refused⟩
  · refine gives.ends.mono fun r shown => ⟨_, shown, holds_rounded q, ?_⟩
    linarith [abs_rounded_le standard.some_ q, standard.deep.unit_le_one]
  · rw [refused]
    exact .signal condition

/-- An infinite and a signaling number have no angle. -/
theorem IsStandard.ends_reduce_special (standard : ctx.IsStandard) (rests : ctx.rounding.Rests)
    (special : x.value? = none) (loud : ¬ x.IsQuiet) :
    Ends (fun _ => False) (ctx.reduce x) := by
  rw [reduce_eq]
  refine (standard.ends_turn rests).bind fun turn ⟨t, shown, _⟩ => ?_
  obtain ⟨n, d, q, rfl, _⟩ := exists_of_value? shown
  cases x with
  | finite negative n e => cases special
  | infinite negative => exact .signal _
  | undefined negative signaling payload =>
    cases signaling with
    | false => exact (loud ⟨rfl, rfl⟩).elim
    | true => exact .signal _

/-- An undefined number passes through the reduction. -/
theorem reduce_quiet (quiet : x.IsQuiet) {circle : Decimal} (circled : ctx.turn = .ok circle)
    (finite : ∃ v, circle.value? = some v) : ∃ r, ctx.reduce x = .ok r ∧ r.IsQuiet := by
  obtain ⟨v, shows⟩ := finite
  obtain ⟨n, d, q, rfl, _⟩ := exists_of_value? shows
  rw [reduce_eq, circled]
  have passes : ctx.rem x (.finite n d q) = ctx.passEither x (.finite n d q) := by
    obtain ⟨undefined, _⟩ := quiet
    cases x <;> trivial
  show ∃ r, ctx.rem x (.finite n d q) = .ok r ∧ r.IsQuiet
  rw [passes]
  exact passEither_quiet (.inl quiet) quiet.2 rfl

/- Undefined numbers. -/

theorem AngleSum.next_quiet {work : Context} (quiet : x.IsQuiet) {s : AngleSum}
    (sum : s.sum.isSignaling = false) (power : s.power.isSignaling = false) :
    ∃ t, s.next work x = .ok t ∧ t.sum.IsQuiet ∧ t.power.IsQuiet := by
  have sign : (if (!s.negative) = true then Decimal.one.flip else Decimal.one).isSignaling =
      false := by
    cases s.negative <;> rfl
  refine exists_ok_bind (mul_quiet (.inl quiet) quiet.2 quiet.2) fun square squared => ?_
  refine exists_ok_bind (mul_quiet (.inr squared) power squared.2) fun power' raised => ?_
  refine exists_ok_bind (div_quiet (.inl raised) raised.2 rfl) fun quotient parted => ?_
  refine exists_ok_bind (mul_quiet (.inl parted) parted.2 sign) fun term turned => ?_
  refine exists_ok_bind (add_quiet (.inr turned) sum turned.2) fun total added => ?_
  exact ⟨_, rfl, added, raised⟩

/-- The series of an undefined number never ends. -/
theorem AngleSum.rest_quiet {work : Context} (quiet : x.IsQuiet) {s : AngleSum}
    (sum : s.sum.isSignaling = false) (power : s.power.isSignaling = false) {last : Decimal}
    (apart : equal s.sum last = .ok false) (rounds : Nat) :
    s.rest work x rounds last = endless := by
  induction rounds generalizing s last with
  | zero => rfl
  | succ rounds ih =>
    obtain ⟨next, came, sum', power'⟩ :
        ∃ t, s.next work x = .ok t ∧ t.sum.IsQuiet ∧ t.power.IsQuiet :=
      AngleSum.next_quiet quiet sum power
    rw [AngleSum.rest, apart]
    show (s.next work x >>= fun next => next.rest work x rounds s.sum) = _
    rw [came]
    exact ih sum'.2 power'.2 (equal_quiet sum' sum)

theorem sineSum_quiet (quiet : r.IsQuiet) (rounds : Nat) : ctx.sineSum r rounds = endless :=
  AngleSum.rest_quiet quiet quiet.2 quiet.2 (equal_quiet quiet rfl) rounds

theorem cosineSum_quiet (quiet : r.IsQuiet) (rounds : Nat) : ctx.cosineSum r rounds = endless :=
  AngleSum.rest_quiet quiet rfl rfl rfl rounds

/- Sines, cosines and tangents. -/

/-- After its reduction, the angle is so near to zero that its sine may not come to rest. -/
def IsNearZero (ctx : Context) (bound : ℚ) (x : Decimal) : Prop :=
  ∃ r w, ctx.reduce x = .ok r ∧ r.value? = some w ∧ ctx.Vanishes bound w

/-- After its reduction, a series of the number does not come to rest in any number of rounds. -/
def RunsOn (ctx : Context) (sum : Decimal → Nat → Outcome Decimal) (x : Decimal) : Prop :=
  ∃ r, ctx.reduce x = .ok r ∧ ∀ rounds, sum r rounds = endless

theorem sin_eq (ctx : Context) (x : Decimal) :
    ctx.sin x = ctx.reduce x >>= fun r => ctx.sineSum r ctx.patience >>= ctx.plus := rfl

theorem cos_eq (ctx : Context) (x : Decimal) :
    ctx.cos x = ctx.reduce x >>= fun r => ctx.cosineSum r ctx.patience >>= ctx.plus := rfl

theorem RunsOn.eq_endless {sum : Decimal → Nat → Outcome Decimal} (runs : ctx.RunsOn sum x)
    (rounds : Nat) : (ctx.reduce x >>= fun r => sum r rounds >>= ctx.plus) = endless := by
  obtain ⟨r, came, runs⟩ := runs
  rw [came]
  show sum r rounds >>= ctx.plus = endless
  rw [runs]
  rfl

theorem RunsOn.sin_eq (runs : ctx.RunsOn ctx.sineSum x) : ctx.sin x = endless :=
  (Context.sin_eq ctx x).trans (runs.eq_endless _)

theorem RunsOn.tan_eq (runs : ctx.RunsOn ctx.sineSum x) : Decimal.tan ctx x = endless := by
  rw [Decimal.tan, runs.sin_eq]
  rfl

theorem RunsOn.cos_eq (runs : ctx.RunsOn ctx.cosineSum x) : ctx.cos x = endless :=
  (Context.cos_eq ctx x).trans (runs.eq_endless _)

variable (standard : ctx.IsStandard) (rests : ctx.rounding.Rests)
include standard rests

theorem exists_turn_eq {circle : Decimal} (circled : ctx.pi = .ok circle) :
    ∃ t, ctx.turn = .ok t := by
  obtain ⟨v, shown, le⟩ := (standard.yields_pi rests).ends.of_eq_ok circled
  have near := abs_rounded_le standard.some_ ((2 : Nat) * v)
  rw [abs_mul, Nat.abs_cast] at near
  have room : (100 : ℚ) ≤ 10 ^ (ctx.greatest + 1) := by
    rw [standard.greatest]
    exact (ten_zpow_le (show (2 : ℤ) ≤ 999999 + 1 by norm_num)).trans' (by norm_num)
  have fits : |ctx.rounded ((2 : Nat) * v)| < 10 ^ (ctx.greatest + 1) := by
    push_cast at near ⊢
    linarith [standard.deep.unit_le_one]
  obtain ⟨t, came, _⟩ := ((gives_mul standard.proper (value?_ofNat 2) shown.1).yields
    fun _ : True => fits).exists_eq_ok trivial
  refine ⟨t, ?_⟩
  rw [turn, circled]
  exact came

/-- What has an angle and a value is a finite number. -/
theorem isReduced_of_eq (came : ctx.reduce x = .ok r) (valued : r.value? = some w) :
    ctx.IsReduced w r := by
  cases shows : x.value? with
  | some v =>
    obtain ⟨w', reduced⟩ := (standard.ends_reduce rests shows).of_eq_ok came
    obtain rfl := Option.some.inj (valued.symm.trans reduced.shows.1)
    exact reduced
  | none =>
    by_cases quiet : x.IsQuiet
    · rw [reduce_eq] at came
      obtain ⟨t, turned, _⟩ := bind_eq_ok_iff.mp came
      obtain ⟨v, shown, _⟩ := (standard.ends_turn rests).of_eq_ok turned
      obtain ⟨r', came', quiet'⟩ := reduce_quiet quiet turned ⟨v, shown⟩
      rw [← reduce_eq, came'] at came
      cases came
      cases r with
      | undefined negative signaling payload => cases valued
      | _ => cases quiet'.1
    · exact ((standard.ends_reduce_special rests shows quiet).of_eq_ok came).elim

theorem runsOn_of_isNearZero (near : ctx.IsNearZero (10 ^ (ctx.least + 1)) x) :
    ctx.RunsOn ctx.sineSum x := by
  obtain ⟨r, w, came, valued, vanishes⟩ := near
  exact ⟨r, came, (isReduced_of_eq standard rests came valued).sine_endless standard vanishes⟩

theorem runsOn_of_isQuiet {circle : Decimal} (circled : ctx.pi = .ok circle) (quiet : x.IsQuiet) :
    ctx.RunsOn ctx.sineSum x ∧ ctx.RunsOn ctx.cosineSum x := by
  obtain ⟨t, turned⟩ := exists_turn_eq standard rests circled
  obtain ⟨v, shown, _⟩ := (standard.ends_turn rests).of_eq_ok turned
  obtain ⟨r, came, quiet'⟩ := reduce_quiet quiet turned ⟨v, shown⟩
  exact ⟨⟨r, came, sineSum_quiet quiet'⟩, ⟨r, came, cosineSum_quiet quiet'⟩⟩

theorem ends_sin (loud : ¬ x.IsQuiet) (far : ¬ ctx.IsNearZero ctx.reach x) :
    Ends (fun d => ∃ v, d.value? = some v) (ctx.sin x) := by
  rw [sin_eq]
  cases shows : x.value? with
  | none => exact (standard.ends_reduce_special rests shows loud).bind fun _ => False.elim
  | some v =>
    refine (standard.ends_reduce rests shows).bind_of_eq fun r came ⟨w, reduced⟩ => ?_
    refine (reduced.ends_sine standard rests fun vanishes =>
      far ⟨r, w, came, reduced.shows.1, vanishes⟩).bind fun d ⟨v, shows⟩ => ?_
    exact (gives_plus standard.proper shows).ends.mono fun _ shown => ⟨_, shown.1⟩

theorem ends_cos (loud : ¬ x.IsQuiet) : Ends (fun d => ∃ v, d.value? = some v) (ctx.cos x) := by
  rw [cos_eq]
  cases shows : x.value? with
  | none => exact (standard.ends_reduce_special rests shows loud).bind fun _ => False.elim
  | some v =>
    refine (standard.ends_reduce rests shows).bind fun r ⟨w, reduced⟩ => ?_
    refine (reduced.ends_cosine standard rests).bind fun d ⟨v, shows⟩ => ?_
    exact (gives_plus standard.proper shows).ends.mono fun _ shown => ⟨_, shown.1⟩

theorem ends_tan (loud : ¬ x.IsQuiet) (far : ¬ ctx.IsNearZero ctx.reach x) :
    Ends (fun d => ∃ v, d.value? = some v) (Decimal.tan ctx x) :=
  (ends_sin standard rests loud far).bind fun _ ⟨_, shows⟩ =>
    (ends_cos standard rests loud).bind fun _ ⟨_, shows'⟩ => ends_div standard.proper shows shows'

end Context
end InfixCalc
