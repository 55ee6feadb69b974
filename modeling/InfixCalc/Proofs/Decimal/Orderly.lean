import InfixCalc.Decimal.Vocabulary
import InfixCalc.Proofs.Vocabulary.Orderly

/-!
# Decimal operations are orderly

Every operation on decimal numbers gives one or is refused as evaluations are, for all operands and
in every context.
-/

namespace InfixCalc

open InfixCalc.Number

namespace Context

variable (ctx : Context) (x y : Decimal)

/- Arithmetic. -/

theorem isOrderly_refuse {α : Type} (condition : Signal) :
    Outcome.IsOrderly (refuse condition : Outcome α) := .unusable _

theorem isOrderly_round (negative : Bool) (coefficient : Nat) (exponent : Int) :
    Outcome.IsOrderly (ctx.round negative coefficient exponent) :=
  .ite (.ok _) (.ite (isOrderly_refuse _) (.ok _))

theorem isOrderly_pass : Outcome.IsOrderly (ctx.pass x) := by
  unfold pass
  split
  · exact .ok _
  · exact isOrderly_refuse _

theorem isOrderly_passEither : Outcome.IsOrderly (ctx.passEither x y) :=
  .ite (isOrderly_refuse _) (.ite (isOrderly_pass ctx x) (isOrderly_pass ctx y))

theorem isOrderly_plus : Outcome.IsOrderly (ctx.plus x) := by
  unfold plus
  split
  · exact isOrderly_round ctx _ _ _
  · exact .ok _
  · exact isOrderly_pass ctx x

theorem isOrderly_minus : Outcome.IsOrderly (ctx.minus x) := isOrderly_plus ctx x.flip

theorem isOrderly_abs : Outcome.IsOrderly (ctx.abs x) := isOrderly_plus ctx x.magnitude

theorem isOrderly_sumAligned (m : Bool) (c : Nat) (p : Int) (n : Bool) (d : Nat) (q : Int) :
    Outcome.IsOrderly (ctx.sumAligned m c p n d q) := isOrderly_round ctx _ _ _

theorem isOrderly_add : Outcome.IsOrderly (ctx.add x y) := by
  unfold add
  split
  · exact isOrderly_passEither ctx _ _
  · exact isOrderly_passEither ctx _ _
  · exact .ite (.ok _) (isOrderly_refuse _)
  · exact .ok _
  · exact .ok _
  · exact .ite (isOrderly_sumAligned ctx _ _ _ _ _ _) (isOrderly_sumAligned ctx _ _ _ _ _ _)

theorem isOrderly_sub : Outcome.IsOrderly (ctx.sub x y) := isOrderly_add ctx x y.flip

theorem isOrderly_mul : Outcome.IsOrderly (ctx.mul x y) := by
  unfold mul
  split
  · exact isOrderly_passEither ctx _ _
  · exact isOrderly_passEither ctx _ _
  · exact .ok _
  · exact .ite (isOrderly_refuse _) (.ok _)
  · exact .ite (isOrderly_refuse _) (.ok _)
  · exact isOrderly_round ctx _ _ _

theorem isOrderly_quotient (negative : Bool) (c : Nat) (p : Int) (d : Nat) (q : Int) :
    Outcome.IsOrderly (ctx.quotient negative c p d q) :=
  .ite (isOrderly_round ctx _ _ _) (isOrderly_round ctx _ _ _)

theorem isOrderly_div : Outcome.IsOrderly (ctx.div x y) := by
  unfold div
  split
  · exact isOrderly_passEither ctx _ _
  · exact isOrderly_passEither ctx _ _
  · exact isOrderly_refuse _
  · exact .ok _
  · exact .ok _
  · exact .ite (.ite (isOrderly_refuse _) .zeroDivisor)
      (.ite (isOrderly_round ctx _ _ _) (isOrderly_quotient ctx _ _ _ _ _))

theorem isOrderly_rem : Outcome.IsOrderly (ctx.rem x y) := by
  unfold rem
  split
  · exact isOrderly_passEither ctx _ _
  · exact isOrderly_passEither ctx _ _
  · exact isOrderly_refuse _
  · exact isOrderly_round ctx _ _ _
  · exact .ite (isOrderly_refuse _) (.ite (isOrderly_round ctx _ _ _)
      (.ite (isOrderly_round ctx _ _ _) (.ite (isOrderly_refuse _)
        (.ite (isOrderly_refuse _) (isOrderly_round ctx _ _ _)))))

theorem isOrderly_order : Outcome.IsOrderly (order x y) := by
  unfold order
  split
  · exact .ok _
  · exact isOrderly_refuse _

theorem isOrderly_equal : Outcome.IsOrderly (equal x y) := .ite (isOrderly_refuse _) (.ok _)

theorem isOrderly_toIntegral (mode : Rounding) : Outcome.IsOrderly (ctx.toIntegral mode x) := by
  unfold toIntegral
  split
  · exact .ite (.ok _) (.ite (.ok _) (.ok _))
  · exact .ok _
  · exact isOrderly_pass ctx _

/- Elementary functions. -/

theorem isOrderly_settle (negative : Bool) (enclose : Nat → Enclosure) (attempts digits : Nat) :
    Outcome.IsOrderly (ctx.settle negative enclose attempts digits) := by
  induction attempts generalizing digits with
  | zero => exact isOrderly_round ctx _ _ _
  | succ attempts ih => exact .ite (isOrderly_round ctx _ _ _) (ih _)

theorem isOrderly_exp : Outcome.IsOrderly (ctx.exp x) := by
  unfold exp
  split
  · exact isOrderly_pass ctx _
  · exact .ok _
  · exact .ite (.ok _) (.ite (.ite (.ok _) (isOrderly_refuse _)) (isOrderly_settle _ _ _ _ _))

theorem isOrderly_logarithm {f : Nat → Int → Outcome Decimal}
    (each : ∀ coefficient exponent, Outcome.IsOrderly (f coefficient exponent)) :
    Outcome.IsOrderly (ctx.logarithm f x) := by
  unfold logarithm
  split
  · exact isOrderly_pass ctx _
  · exact .ite (isOrderly_refuse _) (.ok _)
  · exact .ite (.ok _) (.ite (isOrderly_refuse _) (each _ _))

theorem isOrderly_ln : Outcome.IsOrderly (ctx.ln x) :=
  isOrderly_logarithm ctx x fun _ _ => .ite (.ok _) (isOrderly_settle _ _ _ _ _)

theorem isOrderly_log10 : Outcome.IsOrderly (ctx.log10 x) :=
  isOrderly_logarithm ctx x fun _ _ => .ite (isOrderly_round _ _ _ _) (isOrderly_settle _ _ _ _ _)

theorem isOrderly_sqrt : Outcome.IsOrderly (ctx.sqrt x) := by
  unfold sqrt
  split
  · exact isOrderly_pass ctx _
  · exact .ite (isOrderly_refuse _) (.ok _)
  · exact .ite (isOrderly_round _ _ _ _) (.ite (isOrderly_refuse _)
      (.ite (isOrderly_round _ _ _ _) (isOrderly_round _ _ _ _)))

/- Powers. -/

theorem isOrderly_powerSteps (n bits : Nat) (value : Decimal) :
    Outcome.IsOrderly (ctx.powerSteps x n bits value) := by
  induction bits generalizing value with
  | zero => exact .ok _
  | succ bits ih =>
    have further (next : Decimal) : Outcome.IsOrderly
        (if next.isZero then .ok next else ctx.powerSteps x n bits next) := .ite (.ok _) (ih next)
    exact (isOrderly_mul ctx _ _).bind fun squared =>
      .ite ((isOrderly_mul ctx _ _).bind further) (further squared)

theorem isOrderly_finish (negative : Bool) : Outcome.IsOrderly (ctx.finish negative x) := by
  unfold finish
  split
  · exact isOrderly_round ctx _ _ _
  · exact .ok _

theorem isOrderly_integerPower (negative : Bool) (n : Int) :
    Outcome.IsOrderly (ctx.integerPower negative x n) := by
  have further (work : Context) (start : Decimal) : Outcome.IsOrderly (do
      ctx.finish negative (← work.naturalPower start n.natAbs)) :=
    (isOrderly_powerSteps _ _ _ _ _).bind fun _ => isOrderly_finish ctx _ _
  exact .ite ((isOrderly_div _ _ _).bind (further _)) (further _ x)

theorem isOrderly_realPower (coefficient : Nat) :
    Outcome.IsOrderly (ctx.realPower coefficient x y) :=
  (isOrderly_ln _ _).bind fun _ => (isOrderly_mul _ _ _).bind fun _ =>
    (isOrderly_exp _ _).bind fun _ => .ite (.ok _) (isOrderly_finish ctx _ _)

theorem isOrderly_finitePower (m : Bool) (c : Nat) (p : Int) (n : Bool) (d : Nat) (q : Int) :
    Outcome.IsOrderly (ctx.finitePower x y m c p n d q) := by
  have computed (negative : Bool) :
      Outcome.IsOrderly (finitePower.compute ctx x y c negative) := by
    unfold finitePower.compute
    split
    · exact isOrderly_integerPower ctx x _ _
    · exact isOrderly_realPower ctx x y _
  exact .ite (.ite (isOrderly_refuse _) (computed _))
    (.ite (isOrderly_round ctx _ _ _) (computed _))

theorem isOrderly_power : Outcome.IsOrderly (ctx.power x y) := by
  unfold power
  split
  · exact isOrderly_passEither ctx _ _
  · exact isOrderly_passEither ctx _ _
  · refine .ite (.ok _) (.ite (isOrderly_refuse _) ?_)
    split <;> exact .ok _
  · exact .ite (isOrderly_refuse _) (.ok _)
  · exact .ite (isOrderly_refuse _) (.ite (.ok _) (.ok _))
  · exact .ite (.ite (isOrderly_refuse _) (.ok _)) (.ite (isOrderly_refuse _)
      (.ite (.ok _) (.ite (.ok _) (isOrderly_finitePower ctx _ _ _ _ _ _ _ _))))

/- Series. -/

theorem isOrderly_endless {α : Type} : Outcome.IsOrderly (endless : Outcome α) := .unusable _

theorem isOrderly_circleNext (s : CircleSum) : Outcome.IsOrderly (s.next ctx) :=
  (isOrderly_mul ctx _ _).bind fun _ => (isOrderly_div ctx _ _).bind fun _ =>
    (isOrderly_add ctx _ _).bind fun _ => .ok _

theorem isOrderly_circleRest (rounds : Nat) (s : CircleSum) :
    Outcome.IsOrderly (s.rest ctx rounds) := by
  induction rounds generalizing s with
  | zero => exact isOrderly_endless
  | succ rounds ih =>
    exact (isOrderly_circleNext ctx s).bind fun next => (isOrderly_equal _ _).bind fun _ =>
      .ite (.ok _) (ih next)

theorem isOrderly_pi : Outcome.IsOrderly ctx.pi :=
  (isOrderly_circleRest _ _ _).bind fun _ => isOrderly_plus ctx _

theorem isOrderly_angleNext (s : AngleSum) : Outcome.IsOrderly (s.next ctx x) :=
  (isOrderly_mul ctx _ _).bind fun _ => (isOrderly_mul ctx _ _).bind fun _ =>
    (isOrderly_div ctx _ _).bind fun _ => (isOrderly_mul ctx _ _).bind fun _ =>
      (isOrderly_add ctx _ _).bind fun _ => .ok _

theorem isOrderly_angleRest (rounds : Nat) (last : Decimal) (s : AngleSum) :
    Outcome.IsOrderly (s.rest ctx x rounds last) := by
  induction rounds generalizing last s with
  | zero => exact isOrderly_endless
  | succ rounds ih =>
    exact (isOrderly_equal _ _).bind fun _ => .ite (.ok _)
      ((isOrderly_angleNext ctx x s).bind fun next => ih _ next)

theorem isOrderly_reduce : Outcome.IsOrderly (ctx.reduce x) :=
  (isOrderly_pi ctx).bind fun _ => (isOrderly_mul ctx _ _).bind fun _ => isOrderly_rem ctx _ _

theorem isOrderly_sin : Outcome.IsOrderly (ctx.sin x) :=
  (isOrderly_reduce ctx x).bind fun _ => (isOrderly_angleRest _ _ _ _ _).bind fun _ =>
    isOrderly_plus ctx _

theorem isOrderly_cos : Outcome.IsOrderly (ctx.cos x) :=
  (isOrderly_reduce ctx x).bind fun _ => (isOrderly_angleRest _ _ _ _ _).bind fun _ =>
    isOrderly_plus ctx _

end Context

namespace Decimal

variable (ctx : Context) (x y : Decimal)

theorem isOrderly_tan : Outcome.IsOrderly (tan ctx x) :=
  (ctx.isOrderly_sin x).bind fun _ => (ctx.isOrderly_cos x).bind fun _ => ctx.isOrderly_div _ _

/-- A combination of the exponentials of a number and its negative. -/
theorem isOrderly_hyperbolic {f : Decimal → Decimal → Outcome Decimal}
    (each : ∀ x y, Outcome.IsOrderly (f x y)) : Outcome.IsOrderly (do
      ctx.div (← f (← ctx.exp x) (← ctx.exp (← ctx.minus x))) (.ofNat 2)) :=
  (ctx.isOrderly_exp x).bind fun _ => (ctx.isOrderly_minus x).bind fun _ =>
    (ctx.isOrderly_exp _).bind fun _ => (each _ _).bind fun _ => ctx.isOrderly_div _ _

theorem isOrderly_sinh : Outcome.IsOrderly (sinh ctx x) :=
  isOrderly_hyperbolic ctx x ctx.isOrderly_sub

theorem isOrderly_cosh : Outcome.IsOrderly (cosh ctx x) :=
  isOrderly_hyperbolic ctx x ctx.isOrderly_add

theorem isOrderly_tanh : Outcome.IsOrderly (tanh ctx x) :=
  (isOrderly_sinh ctx x).bind fun _ => (isOrderly_cosh ctx x).bind fun _ => ctx.isOrderly_div _ _

theorem isOrderly_cbrt : Outcome.IsOrderly (cbrt ctx x) :=
  (Context.isOrderly_equal _ _).bind fun _ => .ite (.ok _)
    ((ctx.isOrderly_abs x).bind fun _ => (ctx.isOrderly_ln _).bind fun _ =>
      (ctx.isOrderly_div _ _).bind fun _ => (ctx.isOrderly_exp _).bind fun _ =>
        (ctx.isOrderly_toIntegral _ _).bind fun _ => (ctx.isOrderly_power _ _).bind fun _ =>
          (ctx.isOrderly_abs x).bind fun _ => (Context.isOrderly_equal _ _).bind fun _ =>
            (Context.isOrderly_order _ _).bind fun _ => .ite (.ok _) (ctx.isOrderly_minus _))

theorem isOrderly_factorial : Outcome.IsOrderly (factorial ctx x) := by
  refine (Context.isOrderly_order _ _).bind fun _ => .ite (.failure rfl) ?_
  split
  · exact .unusable _
  · split
    · exact .failure rfl
    · exact .ite (.unusable _) (ctx.isOrderly_plus _)

theorem isOrderly_logBase : Outcome.IsOrderly (logBase ctx x y) :=
  (ctx.isOrderly_ln y).bind fun _ => (ctx.isOrderly_ln x).bind fun _ => ctx.isOrderly_div _ _

theorem isOrderly_extreme (better : Ordering) (xs : List Decimal) :
    Outcome.IsOrderly (extreme better xs) := by
  cases xs with
  | nil => exact .ok _
  | cons x xs => exact .foldlM (fun _ _ => (Context.isOrderly_order _ _).bind fun _ => .ok _) xs x

theorem isOrderly_average (xs : List Decimal) : Outcome.IsOrderly (average ctx xs) :=
  .ite (.ok _) (Outcome.IsOrderly.bind (.foldlM ctx.isOrderly_add xs zero) fun _ =>
    ctx.isOrderly_div _ _)

theorem isOrderly_degrees : Outcome.IsOrderly (degrees ctx x) :=
  (ctx.isOrderly_mul _ _).bind fun _ => (ctx.isOrderly_pi).bind fun _ => ctx.isOrderly_div _ _

theorem isOrderly_radians : Outcome.IsOrderly (radians ctx x) :=
  (ctx.isOrderly_pi).bind fun _ => (ctx.isOrderly_mul _ _).bind fun _ => ctx.isOrderly_div _ _

/- Words. -/

variable {σ : Type}

theorem orderly_wordFunctions :
    ∀ word ∈ wordFunctions ctx, ∀ x, Outcome.IsOrderly (word.2 x) := by
  simp [wordFunctions, Context.isOrderly_abs, Context.isOrderly_sin, Context.isOrderly_cos,
    isOrderly_tan, isOrderly_sinh, isOrderly_cosh, isOrderly_tanh, Context.isOrderly_toIntegral,
    Context.isOrderly_ln, Context.isOrderly_log10, Context.isOrderly_sqrt, isOrderly_cbrt]

theorem orderly_operators :
    ∀ word ∈ (operators ctx : List (String × Fixity × Nat × Meaning σ Decimal)),
      word.2.2.2.IsOrderly word.2.1.arity := by
  simp only [operators, List.forall_mem_append]
  refine ⟨⟨⟨?signs, ?comparisons⟩, ?arithmetic⟩, ?words⟩
  case signs => simp [Meaning.IsOrderly, Fixity.arity, Fixity.isBetween, ctx.isOrderly_minus]
  case comparisons =>
    exact List.forall_mem_map.mpr fun word _ =>
      ⟨Nat.one_lt_two, fun x y => (Context.isOrderly_order x y).bind fun _ => .ok _⟩
  case arithmetic =>
    refine List.forall_mem_cons.mpr ⟨⟨Nat.one_lt_two, fun x y => ?_⟩,
      List.forall_mem_cons.mpr ⟨⟨Nat.one_lt_two, fun x y => ?_⟩, ?_⟩⟩
    · exact (Context.isOrderly_equal x y).bind fun _ => .ok _
    · exact (Context.isOrderly_equal x y).bind fun _ => .ok _
    · simp [Meaning.IsOrderly, Fixity.arity, Fixity.isBetween, ctx.isOrderly_add, ctx.isOrderly_sub,
        ctx.isOrderly_mul, ctx.isOrderly_div, ctx.isOrderly_rem, ctx.isOrderly_power,
        isOrderly_factorial]
  case words =>
    exact List.forall_mem_map.mpr fun word member =>
      ⟨Nat.zero_lt_one, orderly_wordFunctions ctx word member⟩

theorem orderly_functions [RandomSource σ] :
    ∀ word ∈ (functions ctx : List (String × Arity × Meaning σ Decimal)), ∀ count,
      word.2.1.Admits count → word.2.2.IsOrderly count := by
  simp [functions, Meaning.IsOrderly, Arity.Admits, isOrderly_degrees, isOrderly_radians,
    ctx.isOrderly_exp, isOrderly_logBase, isOrderly_extreme, isOrderly_average]

end Decimal
end InfixCalc
