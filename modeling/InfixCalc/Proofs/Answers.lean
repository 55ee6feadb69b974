import InfixCalc.Proofs.Complex.Orderly
import InfixCalc.Proofs.Complex.Vocabulary
import InfixCalc.Proofs.Real.Orderly
import InfixCalc.Proofs.Real.RoundTrip

/-!
# Evaluations that answer

Whatever the builders over real and complex numbers build, and whatever values its variables have,
an evaluation gives a number or fails as an evaluation. Nothing fails from the outside.
-/

namespace InfixCalc

open InfixCalc.Number

variable {σ α : Type}

/-- Every evaluation gives a value or fails as evaluations do. -/
def Expression.Answers (e : Expression σ α) : Prop :=
  ∀ bindings state, (∃ value, ((e.evaluate bindings).run state).1 = .ok value) ∨
    ∃ cause, ((e.evaluate bindings).run state).1 = .error cause ∧ cause.stage = .evaluation

theorem Expression.answers_of_orderly {e : Expression σ α} (orderly : e.root.Orderly) :
    e.Answers := by
  intro bindings state
  have holds := orderly.evaluate (valueOf bindings e.constants) state
  change IsOrderly _ ((e.evaluate bindings).run state).1 at holds
  cases came : ((e.evaluate bindings).run state).1 with
  | ok value => exact .inl ⟨value, rfl⟩
  | error cause =>
    rw [came] at holds
    exact .inr ⟨cause, rfl, holds⟩

/-- Over an orderly vocabulary a builder builds only expressions that answer. -/
theorem Builder.Consistent.answers {first b : Builder σ α} (consistent : first.Consistent)
    (orderly : first.vocabulary.Orderly) (used : first.Used b) {text : String}
    {e : Expression σ α} (built : (b.build text).1 = .ok e) : e.Answers := by
  obtain ⟨kept, _, vocabulary⟩ := used.kept consistent
  rw [← vocabulary] at orderly
  exact Expression.answers_of_orderly (orderly.root ((kept.build text).sound e built).root)

namespace Complex

variable [RandomSource σ]

theorem builder_eq_ok {cacheSize maxDepth : Setting} {first : Builder σ Complex}
    (made : builder cacheSize maxDepth = .ok first) :
    first.Consistent ∧ first.vocabulary = wordbook.vocabulary := by
  obtain ⟨config, _, made⟩ := bind_eq_ok_iff.mp made
  have consistent := Builder.consistent_make wellSpelled_wordbook.regular made
  obtain ⟨cache, _, same⟩ := bind_eq_ok_iff.mp made
  cases same
  exact ⟨consistent, rfl⟩

end Complex

/-- What the builders over real and over complex numbers build answers with a number or fails as
evaluations do, for all values of its variables. -/
theorem builders_answer [RandomSource σ] (cacheSize maxDepth : Setting) (text : String) :
    (∀ (first b : Builder σ Float) (e : Expression σ Float),
      Real.builder cacheSize maxDepth = .ok first → first.Used b → (b.build text).1 = .ok e →
        e.Answers) ∧
    ∀ (first b : Builder σ Complex) (e : Expression σ Complex),
      Complex.builder cacheSize maxDepth = .ok first → first.Used b → (b.build text).1 = .ok e →
        e.Answers := by
  constructor
  · intro first b e made used built
    obtain ⟨consistent, words, _⟩ := Real.builder_eq_ok made
    exact consistent.answers (words ▸ Real.orderly_wordbook.vocabulary) used built
  · intro first b e made used built
    obtain ⟨consistent, words⟩ := Complex.builder_eq_ok made
    exact consistent.answers (words ▸ Complex.orderly_wordbook.vocabulary) used built

/- A variable over complex numbers. -/

namespace Complex

def seedBuilder : Builder Seed Complex where
  config := {
    read := read
    print := fun z => .ok z.format
    display := fun z => .ok (Shown.text z)
    operandPatterns := operandPatterns.filterMap fun text =>
      (WrittenPattern.read Pattern.compile text).toOption
    variablePattern := ⟨defaultVariablePattern, Pattern.name.matcher⟩
    maxDepth := some 128 }
  vocabulary := wordbook.vocabulary
  cache := none
  cacheVersion := (wordbook : Wordbook Seed Complex).vocabulary.version
  labels := none
  nextStamp := 0

theorem made_seedBuilder :
    (builder .absent (.whole 128) : Except Failure (Builder Seed Complex)) = .ok seedBuilder := rfl

theorem scan_z : (Scanner.make seedBuilder.vocabulary seedBuilder.config).scan "z" =
    .ok [.symbol (.variable "z")] := by
  have apart : ∀ label ∈ operatorSpellings.map (·.1) ++ callSpellings,
      label.toList.isPrefixOf ['z'] = false := by decide
  exact Scanner.scan_name (by decide)
    (Scanner.labelAt?_eq_none rfl fun label member =>
      apart label (Wordbook.WellSpelled.mem_labels member)) (fun _ => rfl)
    fun _ => rfl

/-- The builders build these expressions, and they answer. -/
theorem builders_answer_variable :
    (∃ e, (Real.seedBuilder.build "2 * x").1 = .ok e ∧ e.root = Real.doubled.tree ∧ e.Answers) ∧
      ∃ e, (seedBuilder.build "z").1 = .ok e ∧ e.root = .node (.variable "z") [] ∧ e.Answers := by
  constructor
  · obtain ⟨e, built, root⟩ := Real.exists_build_doubled
    exact ⟨e, built, root,
      (builders_answer _ _ _).1 _ _ e Real.made_seedBuilder .new built⟩
  · obtain ⟨consistent, _⟩ := builder_eq_ok made_seedBuilder
    have read : (Scanner.make seedBuilder.vocabulary seedBuilder.config).root (some 128) "z" =
        .ok (.node (.variable "z") []) := by
      rw [Scanner.root, scan_z]
      rfl
    obtain ⟨e, built, root⟩ := (consistent.build "z").complete _ read ⟨"z", rfl⟩
    exact ⟨e, built, root, (builders_answer _ _ _).2 _ _ e made_seedBuilder .new built⟩

end Complex

end InfixCalc
