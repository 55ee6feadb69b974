import InfixCalc.Proofs.Decimal.Trigonometry
import InfixCalc.Proofs.Decimal.Words

/-!
# Evaluations of sines, cosines and tangents

Where the rounding of a builder lets the circle number rest, the words `sin`, `cos` and `tan` give a
finite decimal or refuse their operand as evaluations do. There are two exceptions, in which a
series runs on without end: an undefined operand, and for `sin` and `tan` an angle next to zero in
the modes that lift what is small.
-/

namespace InfixCalc.Decimal

open InfixCalc.Number InfixCalc.Context

/-- The words for angles, each with the series that it sums up first. -/
def angleWords (ctx : Context) :
    List (String × (Decimal → Outcome Decimal) × (Decimal → Nat → Outcome Decimal)) :=
  [("sin", ctx.sin, ctx.sineSum), ("cos", ctx.cos, ctx.cosineSum), ("tan", tan ctx, ctx.sineSum)]

theorem angleWords_subset (ctx : Context) : ∀ word ∈ angleWords ctx,
    (word.1, word.2.1) ∈ wordFunctions ctx := by
  simp [angleWords, wordFunctions]

section Words

variable {ctx : Context} {x : Decimal} (standard : ctx.IsStandard) (rests : ctx.rounding.Rests)
include standard rests

theorem ends_angleWord (loud : ¬ x.IsQuiet) : ∀ word ∈ angleWords ctx,
    (word.1 = "cos" ∨ ¬ ctx.IsNearZero ctx.reach x) →
      Ends (fun d => ∃ v, d.value? = some v) (word.2.1 x) := by
  simp only [angleWords, List.forall_mem_cons]
  refine ⟨fun far => ?sin, fun _ => ends_cos standard rests loud, fun far => ?tan,
    List.forall_mem_nil _⟩
  case sin => exact ends_sin standard rests loud (far.resolve_left (by decide))
  case tan => exact ends_tan standard rests loud (far.resolve_left (by decide))

theorem runsOn_angleWord {circle : Decimal} (circled : ctx.pi = .ok circle) :
    ∀ word ∈ angleWords ctx,
      x.IsQuiet ∨ word.1 ≠ "cos" ∧ ctx.IsNearZero (10 ^ (ctx.least + 1)) x →
        ctx.RunsOn word.2.2 x ∧ word.2.1 x = endless := by
  have sine (runs : x.IsQuiet ∨ ctx.IsNearZero (10 ^ (ctx.least + 1)) x) :
      ctx.RunsOn ctx.sineSum x :=
    runs.elim (fun quiet => (runsOn_of_isQuiet standard rests circled quiet).1)
      (runsOn_of_isNearZero standard rests)
  simp only [angleWords, List.forall_mem_cons]
  refine ⟨fun runs => ?sin, fun runs => ?cos, fun runs => ?tan, List.forall_mem_nil _⟩
  case sin => exact ⟨sine (runs.imp_right (·.2)), (sine (runs.imp_right (·.2))).sin_eq⟩
  case cos =>
    have cosine := (runsOn_of_isQuiet standard rests circled
      (runs.resolve_right fun near => near.1 rfl)).2
    exact ⟨cosine, cosine.cos_eq⟩
  case tan => exact ⟨sine (runs.imp_right (·.2)), (sine (runs.imp_right (·.2))).tan_eq⟩

end Words

variable {σ : Type} [RandomSource σ] {ctx : Context}

/-- A word for an angle gives a finite decimal, or it fails because of a divisor of zero or an
exceptional condition. Its series does not come to rest in any number of rounds if the operand is
undefined, or is next to zero in a mode that lifts what is small, and not for `cos`. -/
theorem builder_angles_end_or_run_on {precision rounding cacheSize maxDepth : Setting}
    (settings : readContext precision rounding = .ok ctx) (rests : ctx.rounding.Rests)
    {first b : Builder σ Decimal}
    (made : builder precision rounding cacheSize maxDepth = .ok first) (used : first.Used b)
    {text : String} {e : Expression σ Decimal} (built : (b.build text).1 = .ok e)
    {op : Operator σ Decimal} {t : Tree (Symbol σ Decimal)}
    (root : e.root = .node (.operator op) [t])
    {word : String × (Decimal → Outcome Decimal) × (Decimal → Nat → Outcome Decimal)}
    (member : word ∈ angleWords ctx) (label : op.label = word.1)
    {bindings : List (String × Decimal)} {state reached : σ} {x : Decimal}
    (came : (t.evaluate (InfixCalc.valueOf bindings e.constants)).run state = (.ok x, reached)) :
    (¬ x.IsQuiet → (word.1 = "cos" ∨ ¬ ctx.IsNearZero ctx.reach x) →
      (∃ d v, (e.evaluate bindings).run state = (.ok d, reached) ∧ d.value? = some v) ∨
      (e.evaluate bindings).run state = (.error (.zeroDivisor word.1), reached) ∨
      ∃ condition, (e.evaluate bindings).run state =
        (.error (.notEvaluable word.1 x.text (.signal condition)), reached)) ∧
    (x.IsQuiet ∨ word.1 ≠ "cos" ∧ ctx.IsNearZero (10 ^ (ctx.least + 1)) x →
      ctx.RunsOn word.2.2 x ∧ (e.evaluate bindings).run state =
        (.error (.notEvaluable word.1 x.text .endlessSeries), reached)) := by
  obtain ⟨ctx', pi, e', settles, _⟩ := builder_eq_ok made
  obtain rfl : ctx = ctx' := Except.ok.inj (settings.symm.trans settles.context)
  have standard := isStandard_of_readContext settings
  have acts := acts_of_label settings made used built root (angleWords_subset ctx word member) label
  have gives : (e.evaluate bindings).run state =
      ((word.2.1 x).mapError (Refusal.report word.1 x.text), reached) := by
    rw [Expression.evaluate, root]
    exact acts.run_evaluate_unary came
  rw [gives]
  refine ⟨fun loud far => ?ends, fun runs => ?runsOn⟩
  case ends =>
    have ends := ends_angleWord standard rests loud word member far
    generalize word.2.1 x = outcome at ends
    cases ends with
    | value holds =>
      obtain ⟨v, shows⟩ := holds
      exact .inl ⟨_, v, rfl, shows⟩
    | zeroDivisor => exact .inr (.inl rfl)
    | signal condition => exact .inr (.inr ⟨condition, rfl⟩)
  case runsOn =>
    obtain ⟨series, refused⟩ := runsOn_angleWord standard rests settles.circle word member runs
    exact ⟨series, by rw [refused]; rfl⟩

/- Sines of one, of an undefined number and of an angle next to zero. -/

def quietNaN : Decimal := .undefined false false 0

def tiny : Decimal := .finite false 1 (-999999)

theorem not_isNearZero_one :
    ¬ (Context.standard 20 .zeroFiveUp).IsNearZero (reach (.standard 20 .zeroFiveUp)) one := by
  have angle : (Context.standard 20 .zeroFiveUp).reduce one =
      .ok (.finite false (10 ^ 19) (-19)) := eq_ok_of_toOption (by decide +kernel)
  have value : (Decimal.finite false (10 ^ 19) (-19)).value? = some 1 := by
    rw [value?_finite]
    norm_num [signedBy]
  rintro ⟨r, w, came, shows, _, _, small, _⟩
  cases angle.symm.trans came
  cases value.symm.trans shows
  have less : (10 : ℚ) ^ (-999999 + 1 : ℤ) < 1 := zpow_lt_one_of_neg₀ (by norm_num) (by norm_num)
  rw [abs_one] at small
  exact small.not_gt less

theorem isNearZero_tiny :
    (Context.standard 20 .zeroFiveUp).IsNearZero (10 ^ (-999999 + 1 : ℤ)) tiny := by
  have angle : (Context.standard 20 .zeroFiveUp).reduce tiny = .ok tiny :=
    eq_ok_of_toOption (by decide +kernel)
  have positive := ten_zpow_pos (-999999)
  refine ⟨tiny, 10 ^ (-999999 : ℤ), angle, ?_, .inl rfl, positive.ne', ?_, ?_⟩
  · rw [tiny, value?_finite, signedBy, if_neg Bool.false_ne_true, Nat.cast_one, one_mul]
  · rw [abs_of_pos positive]
    exact ten_zpow_le (by norm_num)
  · exact (nearest_pos (.inl rfl) (mul_pos positive positive)).ne'

/-- With twenty digits and a mode that lifts what is small, the sine of one is found or refused,
and the series of an undefined number and of an angle next to zero do not end. -/
theorem builder_angles_end_or_run_on_sine :
    ∃ (first : Builder Seed Decimal) (e : Expression Seed Decimal),
      builder (.whole 20) (.text "ROUND_05UP") .absent (.whole 128) = .ok first ∧
      (first.build "sin x").1 = .ok e ∧
      ((∃ d v, (e.evaluate [("x", one)]).run .initial = (.ok d, .initial) ∧ d.value? = some v) ∨
        (e.evaluate [("x", one)]).run .initial = (.error (.zeroDivisor "sin"), .initial) ∨
        ∃ condition, (e.evaluate [("x", one)]).run .initial =
          (.error (.notEvaluable "sin" one.text (.signal condition)), .initial)) ∧
      ∀ x ∈ [quietNaN, tiny], (e.evaluate [("x", x)]).run .initial =
        (.error (.notEvaluable "sin" x.text .endlessSeries), .initial) := by
  have read : readContext (.whole 20) (.text "ROUND_05UP") = .ok (.standard 20 .zeroFiveUp) := rfl
  have rests : Rounding.zeroFiveUp.Rests := ⟨by decide, by decide⟩
  have joined : "sin" ++ " " ++ "x" = "sin x" := by decide
  obtain ⟨first, e, made, built, root⟩ := exists_build_word read rests (by decide)
    ("sin", Context.sin (.standard 20 .zeroFiveUp)) (fun _ _ => rfl) (fun _ _ => rfl) rfl
  rw [joined] at built
  have loud : ¬ one.IsQuiet := fun quiet => Bool.false_ne_true quiet.1
  have came (x : Decimal) : ((Tree.node (.variable "x") [] : Tree (Symbol Seed Decimal)).evaluate
      (InfixCalc.valueOf [("x", x)] e.constants)).run .initial = (.ok x, .initial) := rfl
  have angle (x : Decimal) := builder_angles_end_or_run_on read rests made .new built root
    List.mem_cons_self rfl (came x)
  refine ⟨first, e, made, built, (angle one).1 loud (.inr not_isNearZero_one), ?_⟩
  simp only [List.forall_mem_cons]
  exact ⟨((angle quietNaN).2 (.inl ⟨rfl, rfl⟩)).2,
    ((angle tiny).2 (.inr ⟨by decide, isNearZero_tiny⟩)).2, List.forall_mem_nil _⟩

end InfixCalc.Decimal
