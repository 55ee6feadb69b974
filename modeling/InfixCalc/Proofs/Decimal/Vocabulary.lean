import InfixCalc.Decimal.Vocabulary
import InfixCalc.Proofs.Vocabulary.Words

/-!
# The words over decimal numbers

How the operators and calls over decimal numbers are spelled is decided word by word. The context
and the source of random numbers have no part in it.
-/

namespace InfixCalc.Decimal

open InfixCalc.Number

variable {σ : Type} [RandomSource σ] (ctx : Context) (pi e : Decimal)

def operatorSpellings : List (String × Fixity × Nat) :=
  (operators (.standard 1 .halfEven) : List (String × Fixity × Nat × Meaning Unit Decimal)).map
    fun entry => (entry.1, entry.2.1, entry.2.2.1)

def callSpellings : List String :=
  ["deg", "rad", "exp", "log", "max", "min", "mean", "average", "rand", "if", "switch"]

theorem spellings_wordbook :
    (wordbook ctx pi e : Wordbook σ Decimal).spellings = operatorSpellings := rfl

theorem calls_wordbook : (wordbook ctx pi e : Wordbook σ Decimal).calls = callSpellings := rfl

/-- Operators between operands have precedences up to that of powers. -/
theorem wellSpelled_wordbook :
    (wordbook ctx pi e : Wordbook σ Decimal).WellSpelled precedences.power where
  usable := by
    rw [spellings_wordbook, calls_wordbook]
    decide
  digits := by
    rw [spellings_wordbook, calls_wordbook]
    decide
  separate := by
    rw [spellings_wordbook, calls_wordbook]
    decide
  tight := by
    rw [spellings_wordbook]
    decide
  signs := by
    rw [calls_wordbook]
    decide
  shared := by
    rw [spellings_wordbook]
    decide
  below := by decide

/-- Every word reads the operands that it may have. -/
theorem isExact_wordbook : (wordbook ctx pi e : Wordbook σ Decimal).IsExact where
  operators := by
    simp [wordbook, operators, comparisons, wordFunctions, Meaning.Reads, Fixity.arity,
      Fixity.isBetween]
  functions := by simp [wordbook, functions, Meaning.Reads, Arity.Admits]
  branches := by simp [wordbook]
  plus :=
    List.mem_append_left _ (List.mem_append_left _ (List.mem_append_left _ List.mem_cons_self))

end InfixCalc.Decimal
