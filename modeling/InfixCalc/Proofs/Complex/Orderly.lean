import InfixCalc.Complex.Vocabulary
import InfixCalc.Proofs.Vocabulary.Orderly

/-!
# Complex operations are orderly

Every operation on complex numbers gives one or is refused as evaluations are, for all operands.
-/

namespace InfixCalc.Complex

open InfixCalc.Number

variable (f g : Float → Float) (z w : Complex)

/- Arithmetic. -/

@[simp] theorem isOrderly_div : Outcome.IsOrderly (div z w) :=
  .ite (.ite .zeroDivisor (.ok _)) (.ite (.ok _) (.ok _))

theorem isOrderly_modulus : Outcome.IsOrderly z.modulus := .ite (.unusable _) (.ok _)

theorem isOrderly_integerPower (n : Int) : Outcome.IsOrderly (z.integerPower n) :=
  .ite (.ok _) (isOrderly_div _ _)

theorem isOrderly_polarPower : Outcome.IsOrderly (z.polarPower w) :=
  .ite (.ite .zeroDivisor (.ok _)) (.ite .zeroDivisor (.ok _))

@[simp] theorem isOrderly_power : Outcome.IsOrderly (z.power w) := by
  unfold power
  simp only
  split
  · exact (isOrderly_integerPower z _).bind fun r => .ite (.unusable _) (.ok r)
  · exact (isOrderly_polarPower z w).bind fun r => .ite (.unusable _) (.ok r)

/- Exponentials and logarithms. -/

theorem isOrderly_inRange : Outcome.IsOrderly (inRange z) := .ite (.unusable _) (.ok z)

theorem isOrderly_limit (unbounded : Bool) : Outcome.IsOrderly (limit unbounded z) :=
  .ite (.unusable _) (.ok z)

@[simp] theorem isOrderly_exp : Outcome.IsOrderly z.exp :=
  .ite (isOrderly_limit _ _) (.ite (isOrderly_inRange _) (isOrderly_inRange _))

@[simp] theorem isOrderly_ln : Outcome.IsOrderly z.ln :=
  .ite (.ok _) (.ite (.unusable _) (.ok _))

@[simp] theorem isOrderly_log10 : Outcome.IsOrderly z.log10 :=
  (isOrderly_ln z).bind fun _ => .ok _

@[simp] theorem isOrderly_logBase : Outcome.IsOrderly (logBase z w) :=
  (isOrderly_ln w).bind fun numerator => (isOrderly_ln z).bind (isOrderly_div numerator)

/- Hyperbolic and circular functions. -/

theorem isOrderly_hyperbolic : Outcome.IsOrderly (hyperbolic f g z) :=
  .ite (isOrderly_inRange _) (isOrderly_inRange _)

@[simp] theorem isOrderly_cosh : Outcome.IsOrderly z.cosh :=
  .ite (isOrderly_hyperbolic _ _ z) (isOrderly_limit _ _)

@[simp] theorem isOrderly_sinh : Outcome.IsOrderly z.sinh :=
  .ite (isOrderly_hyperbolic _ _ z) (isOrderly_limit _ _)

@[simp] theorem isOrderly_tanh : Outcome.IsOrderly z.tanh :=
  .ite (isOrderly_limit _ _) (.ite (.ok _) (.ok _))

theorem isOrderly_atanhRight : Outcome.IsOrderly z.atanhRight := by
  unfold atanhRight
  extract_lets y
  exact .ite (.ok _) (.ite (.ite (.unusable _) (.ok _)) (.ok _))

@[simp] theorem isOrderly_atanh : Outcome.IsOrderly z.atanh :=
  .ite (.ok _) (.ite ((isOrderly_atanhRight z.neg).map neg) (isOrderly_atanhRight z))

@[simp] theorem isOrderly_sin : Outcome.IsOrderly z.sin := (isOrderly_sinh z.turn).map turnBack

@[simp] theorem isOrderly_cos : Outcome.IsOrderly z.cos := isOrderly_cosh z.turn

@[simp] theorem isOrderly_tan : Outcome.IsOrderly z.tan := (isOrderly_tanh z.turn).map turnBack

@[simp] theorem isOrderly_atan : Outcome.IsOrderly z.atan := (isOrderly_atanh z.turn).map turnBack

/- Words. -/

@[simp] theorem isOrderly_extreme (better : Float → Float → Bool) (zs : List Complex) :
    Outcome.IsOrderly (extreme better zs) := by
  cases zs with
  | nil => exact .ok zero
  | cons z zs =>
    refine (isOrderly_modulus z).bind fun size => ?_
    refine Outcome.IsOrderly.bind (.foldlM ?_ zs (z, size)) fun _ => .ok _
    exact fun _ w => (isOrderly_modulus w).bind fun _ => .ok _

@[simp] theorem isOrderly_average (zs : List Complex) : Outcome.IsOrderly (average zs) :=
  .ite (.ok zero) (isOrderly_div _ _)

@[simp] theorem isOrderly_degrees : Outcome.IsOrderly (degrees z) := isOrderly_div _ _

@[simp] theorem isOrderly_radians : Outcome.IsOrderly (radians z) := isOrderly_div _ _

theorem orderly_wordFunctions : ∀ word ∈ wordFunctions, ∀ z, Outcome.IsOrderly (word.2 z) := by
  have modulus (z : Complex) : Outcome.IsOrderly (z.modulus.map ofReal) :=
    (isOrderly_modulus z).map ofReal
  simp [wordFunctions, modulus]

variable {σ : Type}

theorem orderly_operators :
    ∀ word ∈ (operators : List (String × Fixity × Nat × Meaning σ Complex)),
      word.2.2.2.IsOrderly word.2.1.arity := by
  simp only [operators, List.forall_mem_append]
  refine ⟨?arithmetic, ?words⟩
  case arithmetic => simp [Meaning.IsOrderly, Fixity.arity, Fixity.isBetween]
  case words =>
    exact List.forall_mem_map.mpr fun word member =>
      ⟨Nat.zero_lt_one, orderly_wordFunctions word member⟩

theorem orderly_functions [RandomSource σ] :
    ∀ word ∈ (functions : List (String × Arity × Meaning σ Complex)), ∀ count,
      word.2.1.Admits count → word.2.2.IsOrderly count := by
  simp [functions, Meaning.IsOrderly, Arity.Admits]

theorem orderly_wordbook [RandomSource σ] : (wordbook : Wordbook σ Complex).Orderly where
  operators := orderly_operators
  functions := orderly_functions
  branches := List.forall_mem_nil _

end InfixCalc.Complex
