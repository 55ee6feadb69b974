import InfixCalc.Complex.Vocabulary
import InfixCalc.Proofs.Vocabulary.Words

/-!
# The words over complex numbers

How the operators and calls over complex numbers are spelled is decided word by word. The source of
random numbers has no part in it.
-/

namespace InfixCalc.Complex

open InfixCalc.Number

variable {σ : Type} [RandomSource σ]

def operatorSpellings : List (String × Fixity × Nat) :=
  (operators : List (String × Fixity × Nat × Meaning Unit Complex)).map fun entry =>
    (entry.1, entry.2.1, entry.2.2.1)

def callSpellings : List String :=
  ["deg", "rad", "exp", "log", "max", "min", "mean", "average", "rand"]

theorem spellings_wordbook : (wordbook : Wordbook σ Complex).spellings = operatorSpellings := rfl

theorem calls_wordbook : (wordbook : Wordbook σ Complex).calls = callSpellings := rfl

/-- Operators between operands have precedences up to that of powers. -/
theorem wellSpelled_wordbook :
    (wordbook : Wordbook σ Complex).WellSpelled precedences.power where
  usable := by
    rw [spellings_wordbook, calls_wordbook]
    decide
  digits := by
    rw [spellings_wordbook, calls_wordbook]
    decide
  separate := by
    rw [spellings_wordbook, calls_wordbook]
    decide
  tight := by
    rw [spellings_wordbook]
    decide
  signs := by
    rw [calls_wordbook]
    decide
  shared := by
    rw [spellings_wordbook]
    decide
  below := by decide

/-- Every word reads the operands that it may have. -/
theorem isExact_wordbook : (wordbook : Wordbook σ Complex).IsExact where
  operators := by
    simp [wordbook, operators, wordFunctions, Meaning.Reads, Fixity.arity, Fixity.isBetween]
  functions := by simp [wordbook, functions, Meaning.Reads, Arity.Admits]
  branches := List.forall_mem_nil _
  plus := List.mem_append_left _ List.mem_cons_self

end InfixCalc.Complex
