import InfixCalc.Proofs.Calculator.Kept

/-!
# Assignments that fail

An assignment evaluates its expression before it looks at the name. If the expression fails, no
books are changed. If the name is refused, the value is the last result by then and stands in the
history.
-/

namespace InfixCalc.Calculator

open InfixCalc.Number

/-- The calculators that come about over a builder: requests come in any order, and in between the
builder is used by others and its vocabulary is changed. -/
inductive Running (first : Builder Seed Float) : Calculator → Prop where
  | new : Running first (ofBuilder first)
  | serve {c : Calculator} (request : Request) : Running first c → Running first (c.serve request)
  | use {c : Calculator} {b : Builder Seed Float} :
      Running first c → c.builder.Used b → Running first { c with builder := b }
  | change {c : Calculator} {w : Vocabulary Seed Float} :
      Running first c → c.builder.vocabulary.Change w →
        Running first { c with builder := { c.builder with vocabulary := w } }

/-- The builder of a calculator remembers nothing wrong and prints all values. -/
structure Sound (c : Calculator) : Prop where
  consistent : c.builder.Consistent
  prints : ∀ x, ∃ shown, c.builder.config.print x = .ok shown

section Sound

variable {c next : Calculator} (sound : c.Sound)
include sound

theorem Sound.used (used : c.builder.Used next.builder) : next.Sound := by
  obtain ⟨consistent, config, _⟩ := used.kept sound.consistent
  exact ⟨consistent, fun x => by rw [config]; exact sound.prints x⟩

theorem Sound.evaluate (text : String) :
    Evaluates c (c.evaluate text).1 (c.evaluate text).2 ∧ (c.evaluate text).2.Sound := by
  obtain ⟨evaluates, used⟩ :=
    evaluate_spec .new (exists_shown .new sound.consistent sound.prints) text
  exact ⟨evaluates, sound.used used⟩

theorem Sound.setVariable (name : String) (value : Float) :
    Stores c name value (c.setVariable name value).1 (c.setVariable name value).2 ∧
      (c.setVariable name value).2.Sound := by
  obtain ⟨stores, used⟩ := setVariable_spec .new sound.consistent name value
  exact ⟨stores, sound.used used⟩

theorem Sound.of_evaluate {text : String} {outcome : Except Failure Float}
    (ran : c.evaluate text = (outcome, next)) : Evaluates c outcome next ∧ next.Sound := by
  have spec := sound.evaluate text
  rwa [ran] at spec

theorem Sound.of_setVariable {name : String} {value : Float} {outcome : Except Failure Unit}
    (ran : c.setVariable name value = (outcome, next)) :
    Stores c name value outcome next ∧ next.Sound := by
  have spec := sound.setVariable name value
  rwa [ran] at spec

theorem Sound.assign (line : String) : (c.assign line).2.Sound := by
  have assigns := assigns_assign c line
  generalize c.assign line = assigned at assigns ⊢
  obtain ⟨outcome, next⟩ := assigned
  cases assigns with
  | none => exact sound
  | failed _ evaluated => exact (sound.of_evaluate evaluated).2
  | refused _ evaluated storing =>
    exact ((sound.of_evaluate evaluated).2.of_setVariable storing).2
  | stored _ evaluated storing =>
    exact ((sound.of_evaluate evaluated).2.of_setVariable storing).2

theorem Sound.serve (request : Request) : (c.serve request).Sound := by
  cases request with
  | evaluate text => exact (sound.evaluate text).2
  | assign line => exact sound.assign line
  | store name value => exact (sound.setVariable name value).2
  | clearHistory => exact sound.used .new
  | clearAll => exact sound.used .new

end Sound

theorem Running.sound {first : Builder Seed Float} {c : Calculator} (running : Running first c)
    (sound : (ofBuilder first).Sound) : c.Sound := by
  induction running with
  | new => exact sound
  | serve request _ ih => exact ih.serve request
  | use _ used ih => exact ih.used used
  | change _ change ih => exact ⟨ih.consistent.change change, ih.prints⟩

/-- An assignment that fails leaves the stored variables alone. It changes no books just where its
expression fails. If that has a value, the name is refused, but the value is the last result by
then and the last line of the history. -/
theorem assign_sameBooks_iff {cacheSize maxDepth : Setting} {first : Builder Seed Float}
    (made : Real.builder cacheSize maxDepth = .ok first) {c : Calculator}
    (running : Running first c) {line : String} {cause : Failure}
    (failed : (c.assign line).1 = .error cause) :
    ∃ assignment, Assignment.ofLine? line = some assignment ∧
      (c.assign line).2.stored = c.stored ∧
      (SameBooks c (c.assign line).2 ↔ (c.evaluate assignment.source).1 = .error cause) ∧
      ∀ value, (c.evaluate assignment.source).1 = .ok value →
        cause = .reservedName assignment.name ∧ (c.assign line).2.lastResult = value ∧
          ∃ shown, (c.assign line).2.history = c.history ++ [(shown, value)] := by
  obtain ⟨consistent, _, _, _, print, _⟩ := Real.builder_eq_ok made
  have sound := running.sound ⟨consistent, fun x => ⟨Real.format x, by
    change first.config.print x = _
    rw [print]⟩⟩
  have assigns := assigns_assign c line
  generalize c.assign line = assigned at assigns failed ⊢
  obtain ⟨outcome, next⟩ := assigned
  cases failed
  cases assigns with
  | @failed assignment _ _ given evaluated =>
    obtain ⟨evaluates, _⟩ := sound.of_evaluate evaluated
    have failedThere := congrArg Prod.fst evaluated
    cases evaluates with
    | failed same =>
      exact ⟨assignment, given, same.stored, iff_of_true same failedThere,
        fun value came => nomatch failedThere.symm.trans came⟩
  | @refused assignment value _ between _ given evaluated storing =>
    obtain ⟨evaluates, soundThen⟩ := sound.of_evaluate evaluated
    obtain ⟨stores, _⟩ := soundThen.of_setVariable storing
    have came := congrArg Prod.fst evaluated
    cases evaluates with
    | @came _ shown _ history kept lastResult =>
      cases stores with
      | refused same =>
        have written : next.history = c.history ++ [(shown, value)] := same.history.trans history
        have longer : ¬ SameBooks c next := fun never =>
          List.cons_ne_nil _ _ (List.append_right_eq_self.mp (written.symm.trans never.history))
        refine ⟨assignment, given, same.stored.trans kept,
          ⟨fun never => absurd never longer, fun never => nomatch came.symm.trans never⟩,
          fun other given => ?_⟩
        cases came.symm.trans given
        exact ⟨rfl, same.lastResult.trans lastResult, shown, written⟩

/-- A value for the name of a constant is refused when it has come. -/
theorem assign_constant {c : Calculator} {line : String} {assignment : Assignment} {value : Float}
    (given : Assignment.ofLine? line = some assignment)
    (came : (c.evaluate assignment.source).1 = .ok value)
    (reserved : (c.evaluate assignment.source).2.builder.vocabulary.constants.contains
      assignment.name = true) :
    (c.assign line).1 = .error (.reservedName assignment.name) := by
  unfold assign
  rw [given]
  simp only
  generalize c.evaluate assignment.source = evaluation at came reserved
  obtain ⟨outcome, between⟩ := evaluation
  cases came
  simp only at reserved ⊢
  rw [Calculator.setVariable, reserved, Bool.or_true, if_pos rfl]

/-- A variable is stored, and its value is then given to a constant. -/
def reservedLine : String := "pi = x"

theorem assign_sameBooks_iff_reserved :
    freshBuilder = .ok cachingBuilder ∧
      ∃ c, Running cachingBuilder c ∧ (c.assign reservedLine).1 = .error (.reservedName "pi") ∧
        (c.assign reservedLine).2.stored = c.stored ∧
        ¬ SameBooks c (c.assign reservedLine).2 ∧
        (c.assign reservedLine).2.lastResult = Real.two := by
  obtain ⟨consistent, _, _, _, print, _⟩ := Real.builder_eq_ok made_cachingBuilder
  have prints : ∀ x, ∃ shown, cachingBuilder.config.print x = .ok shown :=
    fun x => ⟨Real.format x, by rw [print]⟩
  have start : Kept cachingBuilder (ofBuilder cachingBuilder) :=
    ⟨.new, rfl, fun _ _ never => nomatch never⟩
  have running : Running cachingBuilder holdingTwo := .serve (.store "x" Real.two) .new
  have kept : Kept cachingBuilder holdingTwo := start.serve consistent prints (.store "x" Real.two)
  have there := get?_holdingTwo
  generalize holdingTwo = c at running kept there
  have room : Within cachingBuilder.config.maxDepth 1 := (within_some _ 1).mpr (by decide)
  have came := kept.evaluate_name consistent prints room there
  have given : Assignment.ofLine? reservedLine = some ⟨"pi", "x"⟩ := by decide +kernel
  have later := kept.serve consistent prints (.evaluate "x")
  have reserved : (c.evaluate "x").2.builder.vocabulary.constants.contains "pi" = true := by
    change (c.serve (.evaluate "x")).builder.vocabulary.constants.contains "pi" = true
    rw [(later.used.kept consistent).2.2]
    decide +kernel
  have failed := assign_constant given came reserved
  obtain ⟨assignment, same, stored, books, left⟩ :=
    assign_sameBooks_iff made_cachingBuilder running failed
  cases given.symm.trans same
  have changed : ¬ SameBooks c (c.assign reservedLine).2 := fun never =>
    nomatch came.symm.trans (books.mp never)
  exact ⟨made_cachingBuilder, c, running, failed, stored, changed, (left _ came).2.1⟩

end InfixCalc.Calculator
