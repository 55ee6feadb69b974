import InfixCalc.Proofs.Vocabulary.Words
import InfixCalc.Real.Vocabulary

/-!
# The words over real numbers

How the operators and calls over real numbers are spelled is decided word by word. The source of
random numbers has no part in it.
-/

namespace InfixCalc.Real

open InfixCalc.Number

variable {σ : Type} [RandomSource σ]

def operatorSpellings : List (String × Fixity × Nat) :=
  (operators : List (String × Fixity × Nat × Meaning Unit Float)).map fun entry =>
    (entry.1, entry.2.1, entry.2.2.1)

def callSpellings : List String :=
  ["deg", "rad", "exp", "log", "max", "min", "mean", "average", "rand", "if", "switch"]

theorem spellings_wordbook : (wordbook : Wordbook σ Float).spellings = operatorSpellings := rfl

theorem calls_wordbook : (wordbook : Wordbook σ Float).calls = callSpellings := rfl

/-- Operators between operands have precedences up to that of powers. -/
theorem wellSpelled_wordbook :
    (wordbook : Wordbook σ Float).WellSpelled precedences.power where
  usable := by
    rw [spellings_wordbook, calls_wordbook]
    decide
  digits := by
    rw [spellings_wordbook, calls_wordbook]
    decide
  separate := by
    rw [spellings_wordbook, calls_wordbook]
    decide
  tight := by
    rw [spellings_wordbook]
    decide
  signs := by
    rw [calls_wordbook]
    decide
  shared := by
    rw [spellings_wordbook]
    decide
  below := by decide

/-- Every word reads the operands that it may have. -/
theorem isExact_wordbook : (wordbook : Wordbook σ Float).IsExact where
  operators := by
    simp [wordbook, operators, comparisons, wordFunctions, Meaning.Reads, Fixity.arity,
      Fixity.isBetween]
  functions := by simp [wordbook, functions, Meaning.Reads, Arity.Admits]
  branches := by simp [wordbook]
  plus :=
    List.mem_append_left _ (List.mem_append_left _ (List.mem_append_left _ List.mem_cons_self))

end InfixCalc.Real
