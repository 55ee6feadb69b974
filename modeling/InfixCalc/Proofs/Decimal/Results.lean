import InfixCalc.Proofs.Decimal.Answers
import InfixCalc.Proofs.Decimal.Digits

/-!
# The digits of evaluations

What an operator or a function gives has no more digits than the context of its builder, whatever
is given to it, but for six words. They pass on one of their operands or an integer beside it, so
what they give is as long as what they are given.
-/

namespace InfixCalc

open InfixCalc.Number

variable {σ α : Type}

/- Operands. -/

/-- The symbol stands for an operation: an operator or a function. -/
def Symbol.IsOperation : Symbol σ α → Prop
  | .operator _ | .call (.function _) => True
  | _ => False

/-- A node that does what a word means has a value exactly if its operands have values for which
the word gives it. -/
theorem Symbol.Acts.run_evaluate_eq_ok_iff [Shown α] {s : Symbol σ α} {label : String}
    {meaning : Meaning σ α} (acts : s.Acts label meaning) {cs : List (Tree (Symbol σ α))}
    (reads : meaning.Reads cs.length) {values : String → Option α} {state last : σ} {value : α} :
    (Tree.evaluate values (.node s cs)).run state = (.ok value, last) ↔
      ∃ operands reached, (cs.mapM (Tree.evaluate values)).run state = (.ok operands, reached) ∧
        ((meaning.give label operands).start []).run reached = (.ok value, last) := by
  rw [Tree.evaluate_strict (acts.isStrict reads), Effect.run_bind_eq_ok_iff]
  have applied {operands : List α} {reached : σ}
      (came : (cs.mapM (Tree.evaluate values)).run state = (.ok operands, reached)) :
      Tree.apply values s (operands.map pure) = (meaning.give label operands).start [] :=
    acts.apply_pure values ((Effect.length_of_run_mapM came).symm ▸ reads)
  constructor
  · rintro ⟨operands, reached, came, gave⟩
    exact ⟨operands, reached, came, applied came ▸ gave⟩
  · rintro ⟨operands, reached, came, gave⟩
    exact ⟨operands, reached, came, (applied came).symm ▸ gave⟩

/- Words. -/

namespace Meaning

/-- Every result of the word has no more digits than that. -/
def FitsIn (digits : Nat) (meaning : Meaning σ Decimal) : Prop :=
  ∀ label operands state value last, meaning.Reads operands.length →
    ((meaning.give label operands).start []).run state = (.ok value, last) → value.FitsIn digits

/-- A result of the word has no more digits than that if no operand has. -/
def KeepsWithin (digits : Nat) (meaning : Meaning σ Decimal) : Prop :=
  ∀ label operands state value last, meaning.Reads operands.length →
    ((meaning.give label operands).start []).run state = (.ok value, last) →
      (∀ x ∈ operands, x.FitsIn digits) → value.FitsIn digits

variable {digits : Nat}

theorem eq_ok_of_run_conclude [Shown α] {label shown : String} {outcome : Outcome α}
    {state last : σ} {value : α}
    (came : ((conclude label shown outcome : Action σ α α).start []).run state =
      (.ok value, last)) : outcome = .ok value := by
  cases outcome with
  | ok result =>
    cases came
    rfl
  | error refusal => cases came

theorem FitsIn.unary {f : Decimal → Outcome Decimal} (fits : ∀ x, (f x).FitsIn digits) :
    (Meaning.unary f : Meaning σ Decimal).FitsIn digits := by
  intro label operands state value last reads came
  obtain ⟨x, rfl⟩ := List.length_eq_one_iff.mp reads
  exact fits x value (eq_ok_of_run_conclude came)

theorem FitsIn.binary {f : Decimal → Decimal → Outcome Decimal}
    (fits : ∀ x y, (f x y).FitsIn digits) :
    (Meaning.binary f : Meaning σ Decimal).FitsIn digits := by
  intro label operands state value last reads came
  obtain ⟨x, y, rfl⟩ := List.length_eq_two.mp reads
  exact fits x y value (eq_ok_of_run_conclude came)

theorem FitsIn.aggregate {f : List Decimal → Outcome Decimal}
    (fits : ∀ xs, (f xs).FitsIn digits) :
    (Meaning.aggregate f : Meaning σ Decimal).FitsIn digits :=
  fun _ operands _ value _ _ came => fits operands value (eq_ok_of_run_conclude came)

theorem FitsIn.drawn {draw : σ → Decimal × σ} (fits : ∀ state, (draw state).1.FitsIn digits) :
    (Meaning.drawn draw).FitsIn digits := by
  intro label operands state value last reads came
  obtain rfl := List.length_eq_zero_iff.mp reads
  cases came
  exact fits state

theorem KeepsWithin.same : (Meaning.same : Meaning σ Decimal).KeepsWithin digits := by
  intro label operands state value last reads came fits
  obtain ⟨x, rfl⟩ := List.length_eq_one_iff.mp reads
  cases came
  exact fits _ List.mem_cons_self

theorem KeepsWithin.unary {f : Decimal → Outcome Decimal}
    (fits : ∀ x : Decimal, x.FitsIn digits → (f x).FitsIn digits) :
    (Meaning.unary f : Meaning σ Decimal).KeepsWithin digits := by
  intro label operands state value last reads came within
  obtain ⟨x, rfl⟩ := List.length_eq_one_iff.mp reads
  exact fits x (within x List.mem_cons_self) value (eq_ok_of_run_conclude came)

theorem KeepsWithin.aggregate {f : List Decimal → Outcome Decimal}
    (fits : ∀ xs : List Decimal, (∀ x ∈ xs, x.FitsIn digits) → (f xs).FitsIn digits) :
    (Meaning.aggregate f : Meaning σ Decimal).KeepsWithin digits :=
  fun _ operands _ value _ _ came within =>
    fits operands within value (eq_ok_of_run_conclude came)

end Meaning

namespace Decimal

variable {ctx : Context} (some_ : 1 ≤ ctx.precision)

/-- The larger or the smaller one of some numbers is one of them, and zero if there is none. -/
theorem mem_of_extreme {better : Ordering} {xs : List Decimal} {value : Decimal}
    (came : extreme better xs = .ok value) : value ∈ xs ∨ xs = [] ∧ value = zero := by
  have folded {xs : List Decimal} : ∀ {best : Decimal}, xs.foldlM (fun best y => do
      return if (← Context.order y best) == better then y else best) best =
        (.ok value : Outcome Decimal) → value ∈ best :: xs := by
    induction xs with
    | nil =>
      intro best came
      cases came
      exact List.mem_cons_self
    | cons y ys ih =>
      intro best came
      rw [List.foldlM_cons] at came
      obtain ⟨next, chose, came⟩ := bind_eq_ok_iff.mp came
      obtain ⟨o, _, same⟩ := bind_eq_ok_iff.mp chose
      have among := ih came
      cases same
      split at among
      · exact List.mem_cons_of_mem _ among
      · rcases List.mem_cons.mp among with rfl | among
        · exact List.mem_cons_self
        · exact List.mem_cons_of_mem _ (List.mem_cons_of_mem _ among)
  cases xs with
  | nil =>
    cases came
    exact .inr ⟨rfl, rfl⟩
  | cons x xs => exact .inl (folded came)

theorem fitsIn_extreme {digits : Nat} (better : Ordering) {xs : List Decimal}
    (fits : ∀ x ∈ xs, x.FitsIn digits) : Outcome.FitsIn digits (extreme better xs) := by
  intro value came
  rcases mem_of_extreme came with among | ⟨_, rfl⟩
  · exact fits value among
  · exact fitsIn_zero _ _

section Operations

variable (x y : Decimal)
include some_

theorem bounds_tan : ctx.Bounds (tan ctx x) :=
  .bind fun _ _ => .bind fun _ _ => Context.bounds_div some_ _ _

theorem bounds_hyperbolic {f : Decimal → Decimal → Outcome Decimal} : ctx.Bounds (do
    ctx.div (← f (← ctx.exp x) (← ctx.exp (← ctx.minus x))) (.ofNat 2)) :=
  .bind fun _ _ => .bind fun _ _ => .bind fun _ _ => .bind fun _ _ => Context.bounds_div some_ _ _

theorem bounds_sinh : ctx.Bounds (sinh ctx x) := bounds_hyperbolic some_ x

theorem bounds_cosh : ctx.Bounds (cosh ctx x) := bounds_hyperbolic some_ x

theorem bounds_tanh : ctx.Bounds (tanh ctx x) :=
  .bind fun _ _ => .bind fun _ _ => Context.bounds_div some_ _ _

/-- The root is an exponential, or an integer beside one. -/
theorem bounds_cbrt : ctx.Bounds (cbrt ctx x) := by
  refine .bind fun _ _ => .ite (.ok (fitsIn_zero _ _)) (.bind fun _ _ => .bind fun _ _ =>
    .bind fun _ _ => .bind fun root exponential => .bind fun nearest whole => .bind fun _ _ =>
      .bind fun _ _ => .bind fun _ _ => .bind fun _ _ => .ite (.ok ?_)
        (Context.bounds_minus some_ _))
  have fits := Context.bounds_exp some_ _ root exponential
  split
  · exact fitsIn_toIntegral some_ _ fits nearest whole
  · exact fits

theorem bounds_factorial : ctx.Bounds (factorial ctx x) := by
  refine .bind fun _ _ => .ite (.error _) ?_
  split
  · exact .error _
  · split
    · exact .error _
    · exact .ite (.error _) (Context.bounds_plus some_ _)

theorem bounds_logBase : ctx.Bounds (logBase ctx x y) :=
  .bind fun _ _ => .bind fun _ _ => Context.bounds_div some_ _ _

theorem bounds_average (xs : List Decimal) : ctx.Bounds (average ctx xs) :=
  .ite (.ok (fitsIn_zero _ _)) (.bind fun _ _ => Context.bounds_div some_ _ _)

theorem bounds_degrees : ctx.Bounds (degrees ctx x) :=
  .bind fun _ _ => .bind fun _ _ => Context.bounds_div some_ _ _

theorem bounds_radians : ctx.Bounds (radians ctx x) :=
  .bind fun _ _ => .bind fun _ _ => Context.bounds_div some_ _ _

theorem bounds_comparison {α : Type} (first : Outcome α) (holds : α → Bool) : ctx.Bounds (do
    return truth (holds (← first))) := .bind fun _ _ => .ok (fitsIn_truth _ some_)

theorem fitsIn_draw [RandomSource σ] (state : σ) :
    (draw ctx state).1.FitsIn ctx.precision := by
  have fits := Context.bounds_plus some_ (ofFloat (RandomSource.draw state).1)
  unfold draw
  cases came : ctx.plus (ofFloat (RandomSource.draw state).1) with
  | ok value =>
    simp only [came]
    exact fits value came
  | error refusal =>
    simp only [came]
    exact fitsIn_zero _ _

end Operations

/-- The words that pass on a number, or an integer beside it, as long as it is. -/
def unrounded (ctx : Context) : List (String × Meaning σ Decimal) :=
  [ ("+", .same), ("round", .unary (ctx.toIntegral .halfUp)),
    ("floor", .unary (ctx.toIntegral .floor)), ("ceil", .unary (ctx.toIntegral .ceiling)),
    ("max", .aggregate (extreme .gt)), ("min", .aggregate (extreme .lt)) ]

theorem keepsWithin_unrounded {digits : Nat} (one : 1 ≤ digits) :
    ∀ word ∈ (unrounded ctx : List (String × Meaning σ Decimal)), word.2.KeepsWithin digits := by
  simp only [unrounded, List.forall_mem_cons]
  have whole (mode : Rounding) : (.unary (ctx.toIntegral mode) : Meaning σ Decimal).KeepsWithin
      digits := .unary fun _ fits => fitsIn_toIntegral one mode fits
  have among (better : Ordering) : (.aggregate (extreme better) : Meaning σ Decimal).KeepsWithin
      digits := .aggregate fun _ fits => fitsIn_extreme better fits
  exact ⟨.same, whole _, whole _, whole _, among _, among _, List.forall_mem_nil _⟩

/-- A number with one digit more than there may be. -/
def overlong (digits : Nat) : Decimal := .finite false (10 ^ digits + 1) 0

theorem not_fitsIn_overlong {digits : Nat} (one : 1 ≤ digits) :
    ¬ (overlong digits).FitsIn digits := by
  rintro ⟨n, zeros, same, small⟩
  cases zeros with
  | zero => omega
  | succ zeros =>
    have ten : 10 ∣ 10 ^ digits := dvd_pow_self 10 (by omega)
    have ten' : 10 ∣ n * 10 ^ (zeros + 1) := Dvd.dvd.mul_left (dvd_pow_self 10 (by omega)) n
    omega

/-- Each of these words gives a number back that has more digits than the context. -/
theorem give_overlong : ∀ word ∈ (unrounded ctx : List (String × Meaning σ Decimal)),
    ∀ digits, word.2.Reads 1 ∧
      word.2.give word.1 [overlong digits] = .done (overlong digits) := by
  simp only [unrounded, List.forall_mem_cons]
  exact ⟨fun _ => ⟨rfl, rfl⟩, fun _ => ⟨rfl, rfl⟩, fun _ => ⟨rfl, rfl⟩, fun _ => ⟨rfl, rfl⟩,
    fun _ => ⟨trivial, rfl⟩, fun _ => ⟨trivial, rfl⟩, List.forall_mem_nil _⟩

include some_

theorem unrounded_or_bounds_wordFunctions : ∀ word ∈ wordFunctions ctx,
    (word.1, .unary word.2) ∈ (unrounded ctx : List (String × Meaning σ Decimal)) ∨
      ∀ x, ctx.Bounds (word.2 x) := by
  simp only [wordFunctions, List.forall_mem_cons]
  refine ⟨.inr (Context.bounds_abs some_), .inr (Context.bounds_sin some_),
    .inr (Context.bounds_cos some_), .inr (bounds_tan some_), .inr (bounds_sinh some_),
    .inr (bounds_cosh some_), .inr (bounds_tanh some_), .inl ?_, .inl ?_, .inl ?_,
    .inr (Context.bounds_ln some_), .inr (Context.bounds_log10 some_),
    .inr (Context.bounds_sqrt some_), .inr (bounds_cbrt some_), List.forall_mem_nil _⟩ <;>
  simp [unrounded]

theorem unrounded_or_fitsIn_operators :
    ∀ word ∈ (operators ctx : List (String × Fixity × Nat × Meaning σ Decimal)),
      (word.1, word.2.2.2) ∈ (unrounded ctx : List (String × Meaning σ Decimal)) ∨
        word.2.2.2.FitsIn ctx.precision := by
  simp only [operators, List.forall_mem_append]
  refine ⟨⟨⟨?signs, ?comparisons⟩, ?arithmetic⟩, ?words⟩
  case signs =>
    simp only [List.forall_mem_cons]
    exact ⟨.inl List.mem_cons_self, .inr (.unary (Context.bounds_minus some_)),
      List.forall_mem_nil _⟩
  case comparisons =>
    exact List.forall_mem_map.mpr fun word _ =>
      .inr (.binary fun x y => bounds_comparison some_ (Context.order x y) word.2)
  case arithmetic =>
    simp only [List.forall_mem_cons]
    exact ⟨.inr (.binary fun x y => bounds_comparison some_ (Context.equal x y) id),
      .inr (.binary fun x y => bounds_comparison some_ (Context.equal x y) not),
      .inr (.binary (Context.bounds_add some_)), .inr (.binary (Context.bounds_sub some_)),
      .inr (.binary (Context.bounds_mul some_)), .inr (.binary (Context.bounds_div some_)),
      .inr (.binary (Context.bounds_rem some_)), .inr (.binary (Context.bounds_power some_)),
      .inr (.unary (bounds_factorial some_)), List.forall_mem_nil _⟩
  case words =>
    exact List.forall_mem_map.mpr fun word member =>
      (unrounded_or_bounds_wordFunctions some_ word member).imp_right .unary

theorem unrounded_or_fitsIn_functions [RandomSource σ] :
    ∀ word ∈ (functions ctx : List (String × Arity × Meaning σ Decimal)),
      (word.1, word.2.2) ∈ (unrounded ctx : List (String × Meaning σ Decimal)) ∨
        word.2.2.FitsIn ctx.precision := by
  simp only [functions, List.forall_mem_cons]
  refine ⟨.inr (.unary (bounds_degrees some_)), .inr (.unary (bounds_radians some_)),
    .inr (.unary (Context.bounds_exp some_)), .inr (.binary (bounds_logBase some_)), .inl ?_,
    .inl ?_, .inr (.aggregate (bounds_average some_)), .inr (.aggregate (bounds_average some_)),
    .inr (.drawn (fitsIn_draw some_)), List.forall_mem_nil _⟩ <;>
  simp [unrounded]

theorem unrounded_or_fitsIn [RandomSource σ] {pi e : Decimal} :
    ∀ word ∈ (wordbook ctx pi e : Wordbook σ Decimal).meanings,
      word ∈ (unrounded ctx : List (String × Meaning σ Decimal)) ∨
        word.2.FitsIn ctx.precision :=
  List.forall_mem_append.mpr
    ⟨List.forall_mem_map.mpr (unrounded_or_fitsIn_operators some_),
      List.forall_mem_map.mpr (unrounded_or_fitsIn_functions some_)⟩

omit some_

/- Evaluations. -/

variable [RandomSource σ]

/-- What an operator or a function gives has no more digits than the context of the builder, unless
it is one of the six words that do not round and some operand has more. Each of these words gives
some number back that has more. -/
theorem builder_rounds_or_passes {precision rounding cacheSize maxDepth : Setting}
    (settings : readContext precision rounding = .ok ctx) {first b : Builder σ Decimal}
    (made : builder precision rounding cacheSize maxDepth = .ok first) (used : first.Used b)
    {text : String} {e : Expression σ Decimal} (built : (b.build text).1 = .ok e)
    {s : Symbol σ Decimal} {cs : List (Tree (Symbol σ Decimal))} (root : e.root = .node s cs)
    (operation : s.IsOperation) {bindings : List (String × Decimal)} {state last : σ}
    {value : Decimal} (came : (e.evaluate bindings).run state = (.ok value, last)) :
    (∃ word : String × Meaning σ Decimal, s.Acts word.1 word.2 ∧ ∃ operands reached,
      (cs.mapM (Tree.evaluate (InfixCalc.valueOf bindings e.constants))).run state =
        (.ok operands, reached) ∧
      (value.FitsIn ctx.precision ∨
        word ∈ unrounded ctx ∧ ∃ x ∈ operands, ¬ x.FitsIn ctx.precision)) ∧
    ∀ word ∈ (unrounded ctx : List (String × Meaning σ Decimal)), ∃ x : Decimal,
      ¬ x.FitsIn ctx.precision ∧ word.2.Reads 1 ∧ word.2.give word.1 [x] = .done x := by
  obtain ⟨ctx', pi, e', settles, consistent, words, _⟩ := builder_eq_ok made
  obtain rfl : ctx = ctx' := Except.ok.inj (settings.symm.trans settles.context)
  have some_ := (isStandard_of_readContext settings).some_
  refine ⟨?_, fun word member => ⟨overlong ctx.precision, not_fitsIn_overlong some_,
    give_overlong word member _⟩⟩
  obtain ⟨kept, _, vocabulary⟩ := used.kept consistent
  have read := ((kept.build text).sound e built).root
  rw [vocabulary, words, root] at read
  rw [Expression.evaluate, root] at came
  cases Wordbook.means_root (isExact_wordbook ctx pi e') read with
  | node means _ =>
    generalize count : cs.length = n at means
    cases means with
    | operand value => exact operation.elim
    | name label => exact operation.elim
    | branch => exact operation.elim
    | @word label meaning _ _ lends reads =>
      subst count
      obtain ⟨operands, reached, ran, gave⟩ := (lends.acts.run_evaluate_eq_ok_iff reads).mp came
      have enough : meaning.Reads operands.length := Effect.length_of_run_mapM ran ▸ reads
      refine ⟨(label, meaning), lends.acts, operands, reached, ran, ?_⟩
      rcases unrounded_or_fitsIn some_ _ lends.mem with member | fits
      · by_cases within : ∀ x ∈ operands, x.FitsIn ctx.precision
        · exact .inl (keepsWithin_unrounded some_ _ member label operands reached value last enough
            gave within)
        · exact .inr ⟨member, by simpa using within⟩
      · exact .inl (fits label operands reached value last enough gave)

/- The larger one of two numbers. -/

def largest : Callable Seed Decimal :=
  .function ⟨"max", .variable, (Meaning.aggregate (extreme .gt)).callback "max"⟩

/-- The larger one of a number with one digit more than the context and of one is that number. -/
theorem builder_rounds_or_passes_largest :
    readContext defaultPrecision defaultRounding = .ok (.standard 20 .halfUp) ∧
    builder defaultPrecision defaultRounding .absent (.whole 128) = .ok seedBuilder ∧
    ∃ e, (seedBuilder.build "max(x, y)").1 = .ok e ∧
      (e.evaluate [("x", overlong 20), ("y", one)]).run .initial = (.ok (overlong 20), .initial) ∧
      ¬ (overlong 20).FitsIn 20 ∧
      ∃ word : String × Meaning Seed Decimal,
        e.root.symbol.Acts word.1 word.2 ∧ word ∈ unrounded (.standard 20 .halfUp) := by
  obtain ⟨_, _, _, _, consistent, _, standard⟩ := builder_eq_ok made_seedBuilder
  have joined : "max" ++ Tree.parenthesized (", ".intercalate ["x", "y"]) = "max(x, y)" := by
    decide +kernel
  have called : seedBuilder.vocabulary.callable? "max" = some largest := rfl
  have known : ["x", "y"] ⊆ ["x", "y", "z"] := by decide
  obtain ⟨e, built, root⟩ := consistent.exists_build_calling standard called rfl trivial
    (fun name member => yields_name (known member)) ((within_some _ _).mpr (by decide))
    ((within_some _ _).mpr (by decide)) ⟨_, rfl⟩
  rw [joined] at built
  have came : (e.evaluate [("x", overlong 20), ("y", one)]).run .initial =
      (.ok (overlong 20), .initial) := by
    rw [Expression.evaluate, root]
    rfl
  have long : ¬ (overlong 20).FitsIn 20 := not_fitsIn_overlong (by decide)
  obtain ⟨⟨word, acts, _, _, _, fits | ⟨member, _⟩⟩, _⟩ :=
    builder_rounds_or_passes rfl made_seedBuilder .new built root trivial came
  · exact (long fits).elim
  · exact ⟨rfl, made_seedBuilder, e, built, came, long, word, root ▸ acts, member⟩

end Decimal
end InfixCalc
