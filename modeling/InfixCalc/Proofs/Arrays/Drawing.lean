import InfixCalc.Proofs.Arrays.Builder
import InfixCalc.Proofs.Session
import InfixCalc.Proofs.Vocabulary.Drawing

/-!
# Builders over arrays and random numbers

Over arrays only `rand` draws from the source of random numbers. So an expression that does not call
it is evaluated without the source, also when the vocabulary has been edited. What a builder builds
of a text, it builds again, apart from the stamp, and it is written down.
-/

namespace InfixCalc

variable {σ α : Type}

/-- The builders that one becomes when it builds and scans texts and when its vocabulary is edited,
where no edit brings in a callback that uses the shared state. -/
inductive Builder.Edited (first : Builder σ α) : Builder σ α → Prop where
  | new : Edited first first
  | build {b : Builder σ α} (text : String) : Edited first b → Edited first (b.build text).2
  | tokenize {b : Builder σ α} (text : String) : Edited first b → Edited first (b.tokenize text).2
  | edit {b : Builder σ α} {edit : Vocabulary.Edit σ α} : edit.IsStateless → Edited first b →
      Edited first { b with vocabulary := (edit.perform.run b.vocabulary).2 }

namespace ArrayLibrary

open InfixCalc.Number

variable {A : Type} {lib : ArrayLibrary A}

/-- A number of the library comes to the number that it was made of. -/
def KeepsFloats (lib : ArrayLibrary A) : Prop := ∀ x, lib.toFloat? (lib.ofFloat x) = some x

theorem drawsOnlyFor_wordbook [RandomSource σ] :
    (lib.wordbook : Wordbook σ A).DrawsOnlyFor "rand" where
  operators := by
    simp [wordbook, operators, comparisons, wordFunctions, Meaning.Draws]
  functions := by simp [wordbook, functions, Meaning.Draws]

/-- A builder over arrays that draws random numbers for `rand` only. -/
structure Serves (lib : ArrayLibrary A) (b : Builder σ A) : Prop where
  keeps : lib.KeepsFloats
  consistent : b.Consistent
  standard : b.config.IsStandard
  read : b.config.read = fun text => (Binary64.read text).map lib.ofFloat
  print : b.config.print = lib.format
  vocabulary : b.vocabulary.IsStatelessBut "rand"

theorem serves_of_made [Shown A] [RandomSource σ] (keeps : lib.KeepsFloats)
    {cacheSize maxDepth : Setting}
    {first : Builder σ A} (made : lib.builder cacheSize maxDepth = .ok first) :
    lib.Serves first := by
  obtain ⟨consistent, words, standard, read, print⟩ := builder_eq_ok made
  exact ⟨keeps, consistent, standard, read, print, words ▸ drawsOnlyFor_wordbook.isStatelessBut⟩

namespace Serves

variable {b : Builder σ A} (serves : lib.Serves b)
include serves

theorem build (text : String) : lib.Serves (b.build text).2 := by
  have spec := serves.consistent.build text
  exact ⟨serves.keeps, spec.consistent, spec.config ▸ serves.standard, spec.config ▸ serves.read,
    spec.config ▸ serves.print, spec.vocabulary ▸ serves.vocabulary⟩

theorem tokenize (text : String) : lib.Serves (b.tokenize text).2 :=
  ⟨serves.keeps, serves.consistent.remember, serves.standard, serves.read, serves.print,
    serves.vocabulary⟩

theorem edit {edit : Vocabulary.Edit σ A} (brings : edit.IsStateless) :
    lib.Serves { b with vocabulary := (edit.perform.run b.vocabulary).2 } :=
  ⟨serves.keeps, serves.consistent.edit edit, serves.standard, serves.read, serves.print,
    serves.vocabulary.perform brings⟩

/-- Every literal is a number of the library, and so it is printed. -/
theorem prints {text : String} {root : Tree (Symbol σ A)}
    (read : (Scanner.make b.vocabulary b.config).root b.config.maxDepth text = .ok root)
    (a : A) (member : .operand a ∈ root.postorder) : ∃ shown, b.config.print a = .ok shown := by
  obtain ⟨x, rfl⟩ :=
    serves.consistent.literal_eq_ofFloat serves.standard serves.read read member
  exact ⟨Real.format x, by rw [serves.print, format, serves.keeps x]⟩

/-- What a text is built to depends on the configuration and the vocabulary, apart from the
stamp. -/
theorem build_eq (text : String) : (b.build text).1.map Expression.unstamped =
    ((Scanner.make b.vocabulary b.config).root b.config.maxDepth text).map fun root =>
      ⟨root, b.vocabulary.constants, b.config.print, 0⟩ :=
  serves.consistent.build_eq_of_literals fun _ read => serves.prints read

/-- What is built is written down. -/
theorem written {text : String} {e : Expression σ A} (built : (b.build text).1 = .ok e) :
    ∃ written, e.written = .ok written := by
  obtain ⟨read, _, print⟩ := (serves.consistent.build text).sound e built
  rw [Expression.written, print]
  exact Tree.exists_written (serves.prints read)

theorem isStateless_evaluate {text : String} {e : Expression σ A}
    (built : (b.build text).1 = .ok e) (undrawn : ∀ s ∈ e.root.postorder, ¬ s.Calls "rand")
    (bindings : List (String × A)) : (e.evaluate bindings).IsStateless := by
  have read := ((serves.consistent.build text).sound e built).root
  exact Tree.stateless_evaluate _ (serves.vocabulary.root read undrawn)

end Serves

theorem serves_of_edited {first b : Builder σ A} (serves : lib.Serves first)
    (edited : first.Edited b) : lib.Serves b := by
  induction edited with
  | new => exact serves
  | build text _ ih => exact ih.build text
  | tokenize text _ ih => exact ih.tokenize text
  | edit brings _ ih => exact ih.edit brings

end ArrayLibrary
end InfixCalc
