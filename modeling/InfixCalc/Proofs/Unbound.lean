import InfixCalc.Proofs.Decimal.Answers
import InfixCalc.Proofs.Evaluation.Support
import InfixCalc.Proofs.Grid.Builder
import InfixCalc.Proofs.Session
import InfixCalc.Proofs.Vocabulary.Stateless

/-!
# Names without values

An expression lists all names that its evaluations ask for. What the ready-made builders build fails
for a name without a value only where it lists that name, even after constants have been added and
anything has been taken away.
-/

namespace InfixCalc

open InfixCalc.Number

variable {σ α β : Type}

/- Builders to which no word is added. -/

namespace Builder

/-- The builders that come from one without new words: it builds and scans texts and is copied,
constants are added, and constants and words are taken away. -/
inductive Descends (first : Builder σ α) : Builder σ α → Prop where
  | new : Descends first first
  | build {b : Builder σ α} (text : String) : Descends first b → Descends first (b.build text).2
  | tokenize {b : Builder σ α} (text : String) :
      Descends first b → Descends first (b.tokenize text).2
  | copy {b : Builder σ α} : Descends first b → Descends first b.copy
  | edit {b : Builder σ α} {edit : Vocabulary.Edit σ α} : edit.AddsNoWord → Descends first b →
      Descends first { b with vocabulary := (edit.perform.run b.vocabulary).2 }

/-- Whatever is built without new words lists all names that it fails for. -/
def ListsUnknowns (first : Builder σ α) : Prop :=
  ∀ b text e, first.Descends b → (b.build text).1 = .ok e → e.ListsUnknowns

variable [Shown α] {first b : Builder σ α} {book : Wordbook σ α}

/-- A book that backs the vocabulary of a builder backs it as long as no word is added. -/
theorem Descends.backs (descends : first.Descends b) (consistent : first.Consistent)
    (backs : book.Backs first.vocabulary) : b.Consistent ∧ book.Backs b.vocabulary := by
  induction descends with
  | new => exact ⟨consistent, backs⟩
  | build text _ ih =>
    have next := ih.1.build text
    exact ⟨next.consistent, next.vocabulary ▸ ih.2⟩
  | tokenize text _ ih => exact ⟨ih.1.remember, ih.2⟩
  | copy _ ih => exact ⟨ih.1.copy, ih.2.withConstants _ _⟩
  | edit noWord _ ih => exact ⟨ih.1.edit _, ih.2.perform fun _ _ answered => noWord.answer answered⟩

theorem Consistent.listsUnknowns (consistent : first.Consistent) (exact : book.IsExact)
    (words : first.vocabulary = book.vocabulary) (nameless : book.IsNameless) :
    first.ListsUnknowns := by
  intro b text e descends built
  obtain ⟨kept, backs⟩ := descends.backs consistent (words ▸ Wordbook.backs_vocabulary exact)
  have root := ((kept.build text).sound e built).root
  exact Expression.listsUnknowns_of_means nameless (backs.means_root exact root)

end Builder

/- Words that report no names. -/

theorem Real.isNameless_wordbook [RandomSource σ] : (wordbook : Wordbook σ Float).IsNameless := by
  refine Wordbook.isNameless_of_orderly
    (Wordbook.orderly_meanings orderly_operators orderly_functions) ?_
  refine List.forall_mem_cons.mpr ⟨fun _ _ => nofun, List.forall_mem_singleton.mpr ?_⟩
  intro x name
  change switchChoice x ≠ _
  unfold switchChoice
  split <;> nofun

theorem Decimal.isNameless_wordbook [RandomSource σ] (ctx : Context) (pi e : Decimal) :
    (wordbook ctx pi e : Wordbook σ Decimal).IsNameless := by
  refine Wordbook.isNameless_of_orderly orderly_meanings ?_
  refine List.forall_mem_cons.mpr ⟨fun _ _ => nofun, List.forall_mem_singleton.mpr ?_⟩
  intro x name
  change switchChoice x ≠ _
  unfold switchChoice
  split <;> nofun

theorem Complex.isNameless_wordbook [RandomSource σ] :
    (wordbook : Wordbook σ Complex).IsNameless :=
  Wordbook.isNameless_of_orderly (Wordbook.orderly_meanings orderly_operators orderly_functions)
    (List.forall_mem_nil _)

/- Words for arrays. -/

/-- The outcome is not that a name has no value. -/
def Outcome.IsNameless (outcome : Outcome α) : Prop :=
  ∀ name, outcome ≠ .error (.failure (.unknownVariable name))

namespace Outcome.IsNameless

theorem ok (value : α) : Outcome.IsNameless (.ok value) := nofun

theorem bind {first : Outcome α} {next : α → Outcome β} (nameless : first.IsNameless)
    (each : ∀ value, (next value).IsNameless) : Outcome.IsNameless (first >>= next) := by
  intro name failed
  rcases bind_eq_error_iff.mp failed with failed | ⟨value, _, failed⟩
  · exact nameless name failed
  · exact each value name failed

theorem of_orderly {outcome : Outcome α} (orderly : outcome.IsOrderly) : outcome.IsNameless := by
  rintro name rfl
  cases orderly with
  | refused ofWord => cases ofWord

/-- A library knows of no names. -/
theorem adapted (outcome : Except Fault α) : (Fault.adapted outcome).IsNameless := by
  cases outcome with
  | ok value => exact .ok value
  | error fault => cases fault <;> exact nofun

end Outcome.IsNameless

namespace Meaning

/-- No operands with this meaning give that a name has no value. -/
def IsNameless : Meaning σ α → Prop
  | .same | .drawn _ => True
  | .unary f => ∀ x, (f x).IsNameless
  | .binary f => ∀ x y, (f x y).IsNameless
  | .ternary f => ∀ x y z name, f x y z ≠ .error (.unknownVariable name)
  | .aggregate f => ∀ xs, (f xs).IsNameless

theorem ne_unknown_of_conclude {outcome : Outcome α} (nameless : outcome.IsNameless)
    {label shown name : String} {state : σ} :
    (((conclude label shown outcome : Action σ α α).start []).run state).1 ≠
      .error (.unknownVariable name) := by
  intro failed
  cases outcome with
  | ok value => cases failed
  | error refusal =>
    cases refusal with
    | failure cause =>
      cases failed
      exact nameless name rfl
    | zeroDivisor => cases failed
    | unusable reason => cases failed
    | told text => cases failed

theorem IsNameless.ne_unknown [Shown α] {meaning : Meaning σ α} (nameless : meaning.IsNameless)
    {operands : List α} (reads : meaning.Reads operands.length) {label name : String} {state : σ} :
    (((meaning.give label operands).start []).run state).1 ≠ .error (.unknownVariable name) := by
  cases meaning with
  | same =>
    obtain ⟨x, rfl⟩ := List.length_eq_one_iff.mp reads
    intro failed
    cases failed
  | unary f =>
    obtain ⟨x, rfl⟩ := List.length_eq_one_iff.mp reads
    exact ne_unknown_of_conclude (nameless x)
  | binary f =>
    obtain ⟨x, y, rfl⟩ := List.length_eq_two.mp reads
    exact ne_unknown_of_conclude (nameless x y)
  | ternary f =>
    obtain ⟨x, y, z, rfl⟩ := List.length_eq_three.mp reads
    intro failed
    cases given : f x y z with
    | ok value =>
      simp only [give, given] at failed
      cases failed
    | error cause =>
      simp only [give, given] at failed
      cases failed
      exact nameless x y z name given
  | aggregate f => exact ne_unknown_of_conclude (nameless operands)
  | drawn draw =>
    intro failed
    cases failed

end Meaning

namespace ArrayLibrary

variable {A : Type} (lib : ArrayLibrary A)

theorem isNameless_apply₁ (operation : Unary) (a : A) : (lib.apply₁ operation a).IsNameless :=
  .adapted _

theorem isNameless_apply₂ (operation : Binary) (a b : A) :
    (lib.apply₂ operation a b).IsNameless :=
  .adapted _

theorem isNameless_round (a : A) : (lib.round a).IsNameless :=
  .bind (.adapted _) fun _ => .adapted _

theorem isNameless_logBase (a b : A) : (lib.logBase a b).IsNameless :=
  .bind (.adapted _) fun _ => .bind (.adapted _) fun _ => .adapted _

theorem isNameless_factorial (a : A) : (lib.factorial a).IsNameless :=
  .bind (.of_orderly (.mapM (fun _ => Real.isOrderly_factorialShown _ _) _)) fun _ => .ok _

theorem isNameless_aggregate (reduction : Reduction) (arrays : List A) :
    (lib.aggregate reduction arrays).IsNameless := by
  unfold aggregate
  split
  · exact .ok _
  · exact .bind (.bind (.adapted _) fun _ => .adapted _) fun _ => .adapted _

theorem ne_unknown_of_choose (condition a b : A) (name : String) :
    lib.choose condition a b ≠ .error (.unknownVariable name) := by
  unfold choose
  cases lib.select condition a b with
  | ok value => nofun
  | error fault => cases fault <;> nofun

/-- Whatever a library does, no word over its arrays reports a name. -/
theorem isNameless_wordbook [Shown A] [RandomSource σ] :
    (lib.wordbook : Wordbook σ A).IsNameless := by
  have meanings : ∀ word ∈ (lib.wordbook : Wordbook σ A).meanings, word.2.IsNameless := by
    simp [Wordbook.meanings, wordbook, operators, comparisons, wordFunctions, functions,
      Meaning.IsNameless, isNameless_apply₁, isNameless_apply₂, isNameless_round,
      isNameless_logBase, isNameless_factorial, isNameless_aggregate, ne_unknown_of_choose]
  exact ⟨fun word member _ reads _ _ => (meanings word member).ne_unknown reads,
    List.forall_mem_nil _⟩

end ArrayLibrary

/-- An expression lists the names in its tree, as a search with a stack finds them. Bindings that
agree on them, or leave them to the constants, give the same evaluation and the same log of it. What
the ready-made builders build without new words fails for a name without a value only if it lists
the name and neither the bindings nor the constants have it, so it never does if all names that it
lists have values. -/
theorem variableLabels_support [RandomSource σ]
    (cacheSize maxDepth precision rounding : Setting) :
    (∀ {α : Type} (e : Expression σ α),
      (∀ label, label ∈ e.variableLabels ↔ label ∈ Tree.search [e.root]) ∧
      ∀ bindings others : List (String × α),
        (∀ label ∈ e.variableLabels,
          valueOf bindings e.constants label = valueOf others e.constants label) →
        e.evaluate bindings = e.evaluate others ∧
          e.watched.evaluate bindings = e.watched.evaluate others) ∧
    (∀ first : Builder σ Float, Real.builder cacheSize maxDepth = .ok first →
      first.ListsUnknowns) ∧
    (∀ first : Builder σ Complex, Complex.builder cacheSize maxDepth = .ok first →
      first.ListsUnknowns) ∧
    (∀ first : Builder σ Decimal,
      Decimal.builder precision rounding cacheSize maxDepth = .ok first → first.ListsUnknowns) ∧
    ∀ {A : Type} [Shown A] (lib : ArrayLibrary A) (first : Builder σ A),
      lib.builder cacheSize maxDepth = .ok first → first.ListsUnknowns := by
  refine ⟨fun e => ⟨fun label => ?_, fun bindings others agree => ?_⟩, ?_, ?_, ?_, ?_⟩
  · rw [Expression.mem_variableLabels_root, Tree.mem_search]
    simp
  · exact Expression.evaluate_congr agree
  · intro first made
    obtain ⟨consistent, words, _⟩ := Real.builder_eq_ok made
    exact consistent.listsUnknowns Real.isExact_wordbook words Real.isNameless_wordbook
  · intro first made
    obtain ⟨consistent, words⟩ := Complex.builder_eq_ok made
    exact consistent.listsUnknowns Complex.isExact_wordbook words Complex.isNameless_wordbook
  · intro first made
    obtain ⟨ctx, pi, e, _, consistent, words, _⟩ := Decimal.builder_eq_ok made
    exact consistent.listsUnknowns (Decimal.isExact_wordbook ctx pi e) words
      (Decimal.isNameless_wordbook ctx pi e)
  · intro A shown lib first made
    obtain ⟨consistent, words, _⟩ := ArrayLibrary.builder_eq_ok made
    exact consistent.listsUnknowns lib.isExact_wordbook words lib.isNameless_wordbook

/-- A product that names `x` does not mind what `y` is, and fails for `x` alone. -/
theorem variableLabels_support_doubled :
    (∃ e, (Real.seedBuilder.build "2 * x").1 = .ok e ∧ e.variableLabels = ["x"] ∧
      e.evaluate [("x", 3), ("y", 1)] = e.evaluate [("x", 3)] ∧
      ((e.evaluate [("y", 1)]).run .initial).1 = .error (.unknownVariable "x") ∧
      ∀ state label, ((e.evaluate [("x", 3)]).run state).1 ≠ .error (.unknownVariable label)) ∧
    Complex.seedBuilder.ListsUnknowns ∧ Decimal.seedBuilder.ListsUnknowns ∧
    Grid.seedBuilder.ListsUnknowns := by
  obtain ⟨same, real, complex, decimal, arrays⟩ :=
    variableLabels_support (σ := Seed) .absent (.whole 128) Decimal.defaultPrecision
      Decimal.defaultRounding
  obtain ⟨consistent, _⟩ := Real.builder_eq_ok Real.made_seedBuilder
  obtain ⟨e, built, root⟩ := Real.exists_build_doubled
  have constants := ((consistent.build "2 * x").sound e built).constants
  have names : e.variableLabels = ["x"] := by
    have named : Real.doubled.tree.variableLabels.eraseDups = ["x"] := rfl
    rw [Expression.variableLabels, root, named, List.mergeSort_singleton]
  have lists := real _ Real.made_seedBuilder _ _ e .new built
  refine ⟨⟨e, built, names, ?_, ?_, ?_⟩, complex _ Complex.made_seedBuilder,
    decimal _ Decimal.made_seedBuilder, arrays Grid.library _ Grid.made_seedBuilder⟩
  · refine ((same e).2 _ _ fun label listed => ?_).1
    obtain rfl : label = "x" := List.mem_singleton.mp (names ▸ listed)
    rfl
  · rw [Expression.evaluate, root, constants]
    rfl
  · refine lists.covered _ fun label listed => ?_
    obtain rfl : label = "x" := List.mem_singleton.mp (names ▸ listed)
    exact Option.some_ne_none _

end InfixCalc
