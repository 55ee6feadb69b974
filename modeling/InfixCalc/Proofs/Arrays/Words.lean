import InfixCalc.Proofs.Arrays.Laws
import InfixCalc.Proofs.Arrays.Builder
import InfixCalc.Proofs.Evaluation.Reached
import InfixCalc.Proofs.Real.Orderly

/-!
# Words for arrays of numbers

Over a library that joins shapes every word gives an array of numbers or refuses its operands, with
four exceptions: the sign of flags, the difference of flags, and a selection among arrays without a
common shape fail from the outside, and so may layers with more axes than the library takes. Every
other word reports that its operands have no common shape.
-/

namespace InfixCalc

open InfixCalc.Number

variable {σ α β A : Type}

/-- A value with the property, or a refusal that is reported as a failure of a word. -/
inductive Outcome.Answers (P : α → Prop) : Outcome α → Prop where
  | ok {value : α} : P value → Answers P (.ok value)
  | refused {refusal : Refusal} : refusal.IsOrderly → Answers P (.error refusal)

namespace Outcome.Answers

variable {P : α → Prop} {Q : β → Prop}

theorem isOrderly {outcome : Outcome α} (answers : outcome.Answers P) : outcome.IsOrderly := by
  cases answers with
  | ok _ => exact .ok _
  | refused holds => exact .refused holds

theorem mono {R : α → Prop} {outcome : Outcome α} (answers : outcome.Answers P)
    (each : ∀ value, P value → R value) : outcome.Answers R := by
  cases answers with
  | ok holds => exact .ok (each _ holds)
  | refused holds => exact .refused holds

theorem bind {first : Outcome α} {next : α → Outcome β} (answers : first.Answers P)
    (each : ∀ value, P value → (next value).Answers Q) : Outcome.Answers Q (first >>= next) := by
  cases answers with
  | ok holds => exact each _ holds
  | refused holds => exact .refused holds

theorem of_orderly {outcome : Outcome α} (orderly : outcome.IsOrderly)
    (each : ∀ value, outcome = .ok value → P value) : outcome.Answers P := by
  cases orderly with
  | ok value => exact .ok (each value rfl)
  | refused holds => exact .refused holds

end Outcome.Answers

namespace ArrayLibrary

/- Operations. -/

section

variable {lib : ArrayLibrary A} {numeric : A → Prop}

theorem Gives.answers {shape : List Nat} {outcome : Except Fault A}
    (gives : lib.Gives numeric shape outcome) :
    (Fault.adapted outcome).Answers fun value => numeric value ∧ lib.shape value = shape := by
  obtain ⟨value, rfl, holds⟩ := gives
  exact .ok holds

/-- What the library refuses is reported in its own words. -/
theorem Refuses.told {outcome : Except Fault β} (refuses : Refuses outcome) :
    ∃ text, Fault.adapted outcome = .error (.told text) := by
  obtain ⟨text, rfl⟩ := refuses
  exact ⟨text, rfl⟩

theorem Refuses.answers {P : β → Prop} {outcome : Except Fault β} (refuses : Refuses outcome) :
    (Fault.adapted outcome).Answers P := by
  obtain ⟨text, told⟩ := refuses.told
  rw [told]
  exact .refused trivial

/-- The arrays have too many axes to be put together as layers, which the library says with a fault
that the adapter does not know. -/
structure Topples (lib : ArrayLibrary A) (arrays : List A) (fault : Fault) : Prop where
  some_ : arrays ≠ []
  axes : ∃ shape, Shape.joinAll? (arrays.map lib.shape) = some shape ∧ leastAxes ≤ shape.length
  failed : ∃ layers, lib.broadcast arrays = .ok layers ∧ lib.stack layers = .error fault
  unknown : ∀ text, fault ≠ .value text

theorem Topples.aggregate {arrays : List A} {fault : Fault} (topples : lib.Topples arrays fault)
    (reduction : Reduction) :
    lib.aggregate reduction arrays = .error (.failure fault.failure) := by
  obtain ⟨layers, spread, failed⟩ := topples.failed
  have some_ : arrays.isEmpty = false := List.isEmpty_eq_false_iff.mpr topples.some_
  rw [ArrayLibrary.aggregate, if_neg (by simp [some_]), pile, spread]
  change (Fault.adapted (lib.stack layers) >>= _) = _
  rw [failed]
  cases fault with
  | value text => exact absurd rfl (topples.unknown text)
  | unsuited => rfl
  | other text => rfl

variable (broadcasts : lib.Broadcasts numeric) {a b : A}
include broadcasts

theorem answers_apply₁ (operation : Unary) (given : numeric a)
    (suits : operation.Suits (lib.kind a)) :
    (lib.apply₁ operation a).Answers fun value => numeric value ∧ lib.shape value = lib.shape a :=
  (broadcasts.unary operation a given suits).answers

theorem answers_apply₂ (operation : Binary) (given : numeric a) (other : numeric b)
    (suits : operation.Suits (lib.kind a) (lib.kind b)) :
    (lib.apply₂ operation a b).Answers numeric := by
  cases joined : Shape.join? (lib.shape a) (lib.shape b) with
  | none => exact (broadcasts.binary_apart operation a b given other suits joined).answers
  | some shape =>
    exact (broadcasts.binary operation a b shape given other suits joined).answers.mono
      fun _ holds => holds.1

theorem told_apply₂ (operation : Binary) (given : numeric a) (other : numeric b)
    (suits : operation.Suits (lib.kind a) (lib.kind b))
    (apart : Shape.join? (lib.shape a) (lib.shape b) = none) :
    ∃ text, lib.apply₂ operation a b = .error (.told text) :=
  (broadcasts.binary_apart operation a b given other suits apart).told

theorem answers_round (given : numeric a) : (lib.round a).Answers numeric :=
  (answers_apply₂ broadcasts .add given (broadcasts.plain _).1 nofun).bind fun _ holds =>
    (answers_apply₁ broadcasts .floor holds nofun).mono fun _ holds => holds.1

theorem answers_logBase (given : numeric a) (other : numeric b) :
    (lib.logBase a b).Answers numeric :=
  (answers_apply₁ broadcasts .log other nofun).bind fun _ holds =>
    (answers_apply₁ broadcasts .log given nofun).bind fun _ holdsToo =>
      answers_apply₂ broadcasts .divide holds.1 holdsToo.1 nofun

/-- The logarithm joins the shapes in the other order. -/
theorem told_logBase (given : numeric a) (other : numeric b)
    (apart : Shape.join? (lib.shape a) (lib.shape b) = none) :
    ∃ text, lib.logBase a b = .error (.told text) := by
  obtain ⟨log, came, holds, same⟩ := broadcasts.unary .log b other nofun
  obtain ⟨base, cameToo, holdsToo, sameToo⟩ := broadcasts.unary .log a given nofun
  rw [Shape.join?_comm, ← same, ← sameToo] at apart
  obtain ⟨text, told⟩ := told_apply₂ broadcasts .divide holds holdsToo nofun apart
  refine ⟨text, ?_⟩
  rw [logBase, apply₁, apply₁, came, cameToo]
  exact told

theorem answers_factorial (given : numeric a) : (lib.factorial a).Answers numeric := by
  have orderly : Outcome.IsOrderly ((lib.items a).mapM fun item =>
      Real.factorialShown (lib.itemText a item) item.toFloat) :=
    .mapM (fun item => Real.isOrderly_factorialShown _ _) _
  refine Outcome.Answers.bind
    (.of_orderly orderly fun values came => (mapM_eq_ok_iff.mp came).length_eq)
    fun values length => .ok (broadcasts.reals _ _ ?_).1
  rw [← length, broadcasts.length_items a given]

variable {arrays : List A}

theorem pile_cases (some_ : arrays ≠ []) (given : ∀ a ∈ arrays, numeric a) :
    (lib.pile arrays).Answers (fun value =>
      numeric value ∧ ∃ count shape, lib.shape value = (count + 1) :: shape) ∨
    ∃ fault, lib.Topples arrays fault := by
  cases joined : Shape.joinAll? (arrays.map lib.shape) with
  | none =>
    obtain ⟨text, told⟩ := (broadcasts.broadcast_apart arrays given joined).told
    rw [pile, told]
    exact .inl (.refused trivial)
  | some shape =>
    obtain ⟨layers, came, count, holds⟩ := broadcasts.broadcast arrays shape given joined
    obtain ⟨number, more⟩ := Nat.exists_eq_add_one.mpr (List.length_pos_iff.mpr some_)
    have there : layers ≠ [] := List.length_pos_iff.mp (by omega)
    rcases broadcasts.stack layers shape there holds with gives | ⟨axes, fault, failed⟩
    · rw [pile, came]
      refine .inl (gives.answers.mono fun value holds => ⟨holds.1, number, shape, ?_⟩)
      rw [holds.2, count, more]
    · cases fault with
      | value text =>
        rw [pile, came]
        exact .inl (Refuses.answers ⟨text, failed⟩)
      | unsuited =>
        exact .inr ⟨_, some_, ⟨shape, joined, axes⟩, ⟨layers, came, failed⟩, by simp⟩
      | other text =>
        exact .inr ⟨_, some_, ⟨shape, joined, axes⟩, ⟨layers, came, failed⟩, by simp⟩

theorem aggregate_cases (reduction : Reduction) (given : ∀ a ∈ arrays, numeric a) :
    (lib.aggregate reduction arrays).Answers numeric ∨ ∃ fault, lib.Topples arrays fault := by
  cases arrays with
  | nil => exact .inl (.ok (broadcasts.ofFloat 0).1)
  | cons a arrays =>
    refine (pile_cases broadcasts (List.cons_ne_nil _ _) given).imp_left fun answers =>
      answers.bind ?_
    rintro value ⟨holds, count, shape, same⟩
    exact (broadcasts.reduce reduction value count shape holds same).answers.mono
      fun _ holds => holds.1

theorem told_aggregate (reduction : Reduction) (given : ∀ a ∈ arrays, numeric a)
    (apart : Shape.joinAll? (arrays.map lib.shape) = none) :
    ∃ text, lib.aggregate reduction arrays = .error (.told text) := by
  cases arrays with
  | nil => cases apart
  | cons a arrays =>
    obtain ⟨text, told⟩ := (broadcasts.broadcast_apart _ given apart).told
    refine ⟨text, ?_⟩
    rw [aggregate, if_neg (by simp), pile, told]
    rfl

end

/- Words. -/

/-- Operands for which a word fails from the outside: the sign and the difference of flags, a
selection among arrays without a common shape, and layers with too many axes. -/
inductive Defies (lib : ArrayLibrary A) : Meaning σ A → List A → Failure → Prop where
  | negation {a : A} : lib.kind a = .flags →
      Defies lib (.unary (lib.apply₁ .negative)) [a] .unsuitedOperand
  | difference {a b : A} : lib.kind a = .flags → lib.kind b = .flags →
      Defies lib (.binary (lib.apply₂ .subtract)) [a, b] .unsuitedOperand
  | selection {condition a b : A} :
      Shape.joinAll? [lib.shape condition, lib.shape a, lib.shape b] = none →
        Defies lib (.ternary lib.choose) [condition, a, b] .unreadableValue
  | layers {reduction : Reduction} {operands : List A} {fault : Fault} :
      lib.Topples operands fault →
        Defies lib (.aggregate (lib.aggregate reduction)) operands fault.failure

theorem Defies.topples {lib : ArrayLibrary A} {f : List A → Outcome A} {operands : List A}
    {cause : Failure} (defies : lib.Defies (.aggregate f : Meaning σ A) operands cause) :
    ∃ fault, lib.Topples operands fault := by
  cases defies with
  | layers topples => exact ⟨_, topples⟩

variable [Shown A] {lib : ArrayLibrary A} {numeric : A → Prop}

section

variable (broadcasts : lib.Broadcasts numeric)
include broadcasts

theorem Defies.give {meaning : Meaning σ A} {operands : List A} {cause : Failure}
    (defies : lib.Defies meaning operands cause) (given : ∀ a ∈ operands, numeric a)
    (label : String) : meaning.give label operands = .fail cause := by
  cases defies with
  | negation flags =>
    rw [Meaning.give, apply₁, broadcasts.negative_flags _ (given _ (by simp)) flags]
    rfl
  | difference flags flagsToo =>
    rw [Meaning.give, apply₂, broadcasts.subtract_flags _ _ (given _ (by simp))
      (given _ (by simp)) flags flagsToo]
    rfl
  | selection apart =>
    obtain ⟨text, refused⟩ := broadcasts.select_apart _ _ _ (given _ (by simp))
      (given _ (by simp)) (given _ (by simp)) apart
    rw [Meaning.give, choose, refused]
    rfl
  | layers topples =>
    rw [Meaning.give, topples.aggregate]
    rfl

/-- Operands that a word defies are defied with what it fails with. -/
theorem Defies.of_fails {meaning : Meaning σ A} {operands : List A} {cause other : Failure}
    (defies : lib.Defies meaning operands cause) (given : ∀ a ∈ operands, numeric a)
    {label : String} {state : σ}
    (failed : (((meaning.give label operands).start []).run state).1 = .error other) :
    lib.Defies meaning operands other := by
  rw [defies.give broadcasts given label] at failed
  cases failed
  exact defies

end

/-- The word gives an array of numbers, or it fails as words do or with operands that it defies, and
it reports operands without a common shape unless it defies them. -/
structure Tame (lib : ArrayLibrary A) (numeric : A → Prop) (meaning : Meaning σ A) : Prop where
  given : ∀ {operands : List A} {label : String} {state last : σ} {value : A},
    meaning.Reads operands.length → (∀ a ∈ operands, numeric a) →
    ((meaning.give label operands).start []).run state = (.ok value, last) → numeric value
  ofWord : ∀ {operands : List A} {label : String} {state : σ} {cause : Failure},
    meaning.Reads operands.length → (∀ a ∈ operands, numeric a) →
    (((meaning.give label operands).start []).run state).1 = .error cause →
      cause.isOfWord = true ∨ lib.Defies meaning operands cause
  reported : ∀ {operands : List A}, meaning.Reads operands.length → (∀ a ∈ operands, numeric a) →
    Shape.joinAll? (operands.map lib.shape) = none →
    (∀ cause, ¬ lib.Defies meaning operands cause) →
      ∀ label, ∃ shown text, meaning.give label operands =
        .fail (.refusedByLibrary label shown text)

namespace Tame

omit [Shown A] in
/-- An array alone has a shape. -/
theorem joinAll?_of_one {operands : List A} (one : operands.length = 1) :
    Shape.joinAll? (operands.map lib.shape) ≠ none := by
  obtain ⟨a, rfl⟩ := List.length_eq_one_iff.mp one
  simp [Shape.joinAll?]

theorem same : lib.Tame numeric (.same : Meaning σ A) where
  given := by
    intro operands label state last value reads given came
    obtain ⟨a, rfl⟩ := List.length_eq_one_iff.mp reads
    cases came
    exact given _ List.mem_cons_self
  ofWord reads _ failed := by
    have orderly : (.same : Meaning σ A).IsOrderly 1 := Nat.one_pos
    exact .inl (orderly.isOfWord_give reads failed)
  reported reads _ apart := absurd apart (joinAll?_of_one reads)

omit [Shown A] in
/-- What a word gives whose operation answers. -/
theorem given_of_answers {outcome : Outcome A} (answers : outcome.Answers numeric)
    {label shown : String} {state last : σ} {value : A}
    (came : ((Meaning.conclude label shown outcome : Action σ A A).start []).run state =
      (.ok value, last)) : numeric value := by
  obtain ⟨rfl, _⟩ := Meaning.run_conclude_eq_ok_iff.mp came
  cases answers with
  | ok holds => exact holds

theorem unary {f : A → Outcome A} (answers : ∀ a, numeric a → (f a).Answers numeric) :
    lib.Tame numeric (.unary f : Meaning σ A) where
  given := by
    intro operands label state last value reads given came
    obtain ⟨a, rfl⟩ := List.length_eq_one_iff.mp reads
    exact given_of_answers (answers a (given a (by simp))) came
  ofWord := by
    intro operands label state cause reads given failed
    obtain ⟨a, rfl⟩ := List.length_eq_one_iff.mp reads
    exact .inl (Meaning.isOfWord_of_conclude (answers a (given a (by simp))).isOrderly failed)
  reported reads _ apart := absurd apart (joinAll?_of_one reads)

theorem binary {f : A → A → Outcome A}
    (answers : ∀ a b, numeric a → numeric b → (f a b).Answers numeric)
    (told : ∀ a b, numeric a → numeric b → Shape.join? (lib.shape a) (lib.shape b) = none →
      ∃ text, f a b = .error (.told text)) : lib.Tame numeric (.binary f : Meaning σ A) where
  given := by
    intro operands label state last value reads given came
    obtain ⟨a, b, rfl⟩ := List.length_eq_two.mp reads
    exact given_of_answers (answers a b (given a (by simp)) (given b (by simp))) came
  ofWord := by
    intro operands label state cause reads given failed
    obtain ⟨a, b, rfl⟩ := List.length_eq_two.mp reads
    exact .inl (Meaning.isOfWord_of_conclude
      (answers a b (given a (by simp)) (given b (by simp))).isOrderly failed)
  reported := by
    intro operands reads given apart _ label
    obtain ⟨a, b, rfl⟩ := List.length_eq_two.mp reads
    rw [List.map_cons, List.map_cons, List.map_nil, Shape.joinAll?_two] at apart
    obtain ⟨text, refused⟩ := told a b (given a (by simp)) (given b (by simp)) apart
    exact ⟨_, text, by rw [Meaning.give, refused]; rfl⟩

theorem drawn {draw : σ → A × σ} (given : ∀ state, numeric (draw state).1) :
    lib.Tame numeric (.drawn draw : Meaning σ A) where
  given := by
    intro operands label state last value _ _ came
    cases came
    exact given state
  ofWord _ _ failed := nomatch failed
  reported := by
    intro operands reads _ apart
    obtain rfl := List.length_eq_zero_iff.mp reads
    cases apart

variable (broadcasts : lib.Broadcasts numeric)
include broadcasts

theorem negation : lib.Tame numeric (.unary (lib.apply₁ .negative) : Meaning σ A) where
  given := by
    intro operands label state last value reads given came
    obtain ⟨a, rfl⟩ := List.length_eq_one_iff.mp reads
    have here := given a (by simp)
    by_cases flags : lib.kind a = .flags
    · rw [Defies.give broadcasts (.negation flags) given label] at came
      cases came
    · exact given_of_answers ((answers_apply₁ broadcasts .negative here fun _ => flags).mono
        fun _ holds => holds.1) came
  ofWord := by
    intro operands label state cause reads given failed
    obtain ⟨a, rfl⟩ := List.length_eq_one_iff.mp reads
    have here := given a (by simp)
    by_cases flags : lib.kind a = .flags
    · exact .inr (Defies.of_fails broadcasts (.negation flags) given failed)
    · exact .inl (Meaning.isOfWord_of_conclude
        (answers_apply₁ broadcasts .negative here fun _ => flags).isOrderly failed)
  reported reads _ apart := absurd apart (joinAll?_of_one reads)

theorem difference : lib.Tame numeric (.binary (lib.apply₂ .subtract) : Meaning σ A) where
  given := by
    intro operands label state last value reads given came
    obtain ⟨a, b, rfl⟩ := List.length_eq_two.mp reads
    by_cases flags : lib.kind a = .flags ∧ lib.kind b = .flags
    · rw [Defies.give broadcasts (.difference flags.1 flags.2) given label] at came
      cases came
    · exact given_of_answers (answers_apply₂ broadcasts .subtract (given a (by simp))
        (given b (by simp)) fun _ left right => flags ⟨left, right⟩) came
  ofWord := by
    intro operands label state cause reads given failed
    obtain ⟨a, b, rfl⟩ := List.length_eq_two.mp reads
    by_cases flags : lib.kind a = .flags ∧ lib.kind b = .flags
    · exact .inr (Defies.of_fails broadcasts (.difference flags.1 flags.2) given failed)
    · exact .inl (Meaning.isOfWord_of_conclude (answers_apply₂ broadcasts .subtract
        (given a (by simp)) (given b (by simp)) fun _ left right =>
          flags ⟨left, right⟩).isOrderly failed)
  reported := by
    intro operands reads given apart suits label
    obtain ⟨a, b, rfl⟩ := List.length_eq_two.mp reads
    rw [List.map_cons, List.map_cons, List.map_nil, Shape.joinAll?_two] at apart
    obtain ⟨text, refused⟩ := told_apply₂ broadcasts .subtract (given a (by simp))
      (given b (by simp)) (fun _ left right => suits _ (.difference left right)) apart
    exact ⟨_, text, by rw [Meaning.give, refused]; rfl⟩

theorem selection : lib.Tame numeric (.ternary lib.choose : Meaning σ A) where
  given := by
    intro operands label state last value reads given came
    obtain ⟨condition, a, b, rfl⟩ := List.length_eq_three.mp reads
    cases joined : Shape.joinAll? [lib.shape condition, lib.shape a, lib.shape b] with
    | none =>
      rw [Defies.give broadcasts (.selection joined) given label] at came
      cases came
    | some shape =>
      obtain ⟨result, chosen, holds, _⟩ := broadcasts.select _ _ _ shape
        (given condition (by simp)) (given a (by simp)) (given b (by simp)) joined
      rw [Meaning.give, choose, chosen] at came
      cases came
      exact holds
  ofWord := by
    intro operands label state cause reads given failed
    obtain ⟨condition, a, b, rfl⟩ := List.length_eq_three.mp reads
    cases joined : Shape.joinAll? [lib.shape condition, lib.shape a, lib.shape b] with
    | none => exact .inr (Defies.of_fails broadcasts (.selection joined) given failed)
    | some shape =>
      obtain ⟨result, chosen, _⟩ := broadcasts.select _ _ _ shape (given condition (by simp))
        (given a (by simp)) (given b (by simp)) joined
      rw [Meaning.give, choose, chosen] at failed
      cases failed
  reported := by
    intro operands reads given apart suits
    obtain ⟨condition, a, b, rfl⟩ := List.length_eq_three.mp reads
    exact absurd (.selection apart) (suits _)

theorem aggregate (reduction : Reduction) :
    lib.Tame numeric (.aggregate (lib.aggregate reduction) : Meaning σ A) where
  given := by
    intro operands label state last value _ given came
    rcases aggregate_cases broadcasts reduction given with answers | ⟨fault, topples⟩
    · exact given_of_answers answers came
    · rw [Defies.give broadcasts (.layers topples) given label] at came
      cases came
  ofWord := by
    intro operands label state cause _ given failed
    rcases aggregate_cases broadcasts reduction given with answers | ⟨fault, topples⟩
    · exact .inl (Meaning.isOfWord_of_conclude answers.isOrderly failed)
    · exact .inr (Defies.of_fails broadcasts (.layers topples) given failed)
  reported := by
    intro operands _ given apart _ label
    obtain ⟨text, refused⟩ := told_aggregate broadcasts reduction given apart
    exact ⟨_, text, by rw [Meaning.give, refused]; rfl⟩

end Tame

/- The vocabulary. -/

section

variable (broadcasts : lib.Broadcasts numeric)
include broadcasts

theorem tame_apply₁ {operation : Unary} (other : operation ≠ .negative) :
    lib.Tame numeric (.unary (lib.apply₁ operation) : Meaning σ A) :=
  .unary fun _ given => (answers_apply₁ broadcasts operation given fun same =>
    absurd same other).mono fun _ holds => holds.1

theorem tame_apply₂ {operation : Binary} (other : operation ≠ .subtract) :
    lib.Tame numeric (.binary (lib.apply₂ operation) : Meaning σ A) :=
  .binary
    (fun _ _ given givenToo =>
      answers_apply₂ broadcasts operation given givenToo fun same => absurd same other)
    fun _ _ given givenToo =>
      told_apply₂ broadcasts operation given givenToo fun same => absurd same other

theorem tame_wordFunctions :
    ∀ word ∈ lib.wordFunctions, lib.Tame numeric (.unary word.2 : Meaning σ A) := by
  simp [wordFunctions, tame_apply₁ broadcasts,
    Tame.unary fun _ given => answers_round broadcasts given]

theorem tame_operators :
    ∀ word ∈ (lib.operators : List (String × Fixity × Nat × Meaning σ A)),
      lib.Tame numeric word.2.2.2 := by
  simp only [operators, List.forall_mem_append]
  refine ⟨⟨⟨?signs, ?comparisons⟩, ?arithmetic⟩, ?words⟩
  case signs =>
    exact List.forall_mem_cons.mpr ⟨.same, List.forall_mem_singleton.mpr (.negation broadcasts)⟩
  case comparisons => simp [comparisons, tame_apply₂ broadcasts]
  case arithmetic =>
    simp [tame_apply₂ broadcasts, Tame.difference broadcasts,
      Tame.unary fun _ given => answers_factorial broadcasts given]
  case words =>
    exact List.forall_mem_map.mpr fun word member => tame_wordFunctions broadcasts word member

variable [RandomSource σ]

theorem tame_functions :
    ∀ word ∈ (lib.functions : List (String × Arity × Meaning σ A)),
      lib.Tame numeric word.2.2 := by
  have logarithm : lib.Tame numeric (.binary lib.logBase : Meaning σ A) :=
    .binary (fun _ _ given givenToo => answers_logBase broadcasts given givenToo)
      fun _ _ given givenToo => told_logBase broadcasts given givenToo
  simp [functions, tame_apply₁ broadcasts, logarithm, Tame.selection broadcasts,
    Tame.aggregate broadcasts, Tame.drawn, broadcasts.plain]

theorem tame_meanings :
    ∀ word ∈ (lib.wordbook : Wordbook σ A).meanings, lib.Tame numeric word.2 :=
  List.forall_mem_append.mpr ⟨List.forall_mem_map.mpr (tame_operators broadcasts),
    List.forall_mem_map.mpr (tame_functions broadcasts)⟩

end

end ArrayLibrary
end InfixCalc
