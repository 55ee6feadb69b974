import InfixCalc.Arrays.Vocabulary
import InfixCalc.Proofs.Builder
import InfixCalc.Proofs.Printed.Literal
import InfixCalc.Proofs.Vocabulary.Words

/-!
# Words and builders over arrays

How the operators and calls over arrays are spelled is decided word by word. Neither the library nor
the source of random numbers has a part in it. Every builder over arrays begins with these words,
and its literals are numbers of the library.
-/

namespace InfixCalc.ArrayLibrary

open InfixCalc.Number

variable {A σ : Type} (lib : ArrayLibrary A) [RandomSource σ]

def operatorSpellings : List (String × Fixity × Nat) :=
  [("+", .before, maxPrecedence), ("-", .before, maxPrecedence)] ++
  ["<", ">", "<=", ">=", "==", "!="].map (fun label => (label, .left, precedences.comparison)) ++
  [ ("+", .left, precedences.additive), ("-", .left, precedences.additive),
    ("*", .left, precedences.multiplicative), ("/", .left, precedences.multiplicative),
    ("%", .left, precedences.multiplicative), ("^", .right, precedences.power),
    ("!", .after, precedences.factorial) ] ++
  [ "abs", "sin", "cos", "tan", "asin", "acos", "atan", "sinh", "cosh", "tanh", "asinh", "acosh",
    "atanh", "round", "floor", "ceil", "ln", "log10", "sqrt", "cbrt" ].map
    fun label => (label, .before, precedences.word)

def callSpellings : List String :=
  ["deg", "rad", "exp", "log", "where", "max", "min", "mean", "average", "rand"]

theorem spellings_wordbook : (lib.wordbook : Wordbook σ A).spellings = operatorSpellings := rfl

theorem calls_wordbook : (lib.wordbook : Wordbook σ A).calls = callSpellings := rfl

/-- Operators between operands have precedences up to that of powers. -/
theorem wellSpelled_wordbook : (lib.wordbook : Wordbook σ A).WellSpelled precedences.power where
  usable := by
    rw [spellings_wordbook, calls_wordbook]
    decide
  digits := by
    rw [spellings_wordbook, calls_wordbook]
    decide
  separate := by
    rw [spellings_wordbook, calls_wordbook]
    decide
  tight := by
    rw [spellings_wordbook]
    decide
  signs := by
    rw [calls_wordbook]
    decide
  shared := by
    rw [spellings_wordbook]
    decide
  below := by decide

/-- Every word reads the operands that it may have. -/
theorem isExact_wordbook : (lib.wordbook : Wordbook σ A).IsExact where
  operators := by
    simp [wordbook, operators, comparisons, wordFunctions, Meaning.Reads, Fixity.arity,
      Fixity.isBetween]
  functions := by simp [wordbook, functions, Meaning.Reads, Arity.Admits]
  branches := List.forall_mem_nil _
  plus :=
    List.mem_append_left _ (List.mem_append_left _ (List.mem_append_left _ List.mem_cons_self))

variable [Shown A]

theorem constants_wordbook : (lib.wordbook : Wordbook σ A).vocabulary.constants =
    ⟨[("pi", lib.ofFloat Binary64.pi), ("e", lib.ofFloat Binary64.e)]⟩ := rfl

end InfixCalc.ArrayLibrary

namespace InfixCalc

open InfixCalc.Number

variable {A σ : Type}

namespace ArrayLibrary

theorem builder_eq_ok [Shown A] [RandomSource σ] {lib : ArrayLibrary A}
    {cacheSize maxDepth : Setting} {first : Builder σ A}
    (made : lib.builder cacheSize maxDepth = .ok first) :
    first.Consistent ∧ first.vocabulary = lib.wordbook.vocabulary ∧ first.config.IsStandard ∧
      first.config.read = (fun text => (Binary64.read text).map lib.ofFloat) ∧
      first.config.print = lib.format := by
  obtain ⟨config, configured, made⟩ := bind_eq_ok_iff.mp made
  obtain ⟨standard, read, print, _⟩ := Config.standard_eq_ok configured
  have consistent := Builder.consistent_make lib.wellSpelled_wordbook.regular made
  obtain ⟨cache, _, same⟩ := bind_eq_ok_iff.mp made
  cases same
  exact ⟨consistent, rfl, standard, read, print⟩

end ArrayLibrary

/-- Literals are numbers of the library. -/
theorem Builder.Consistent.literal_eq_ofFloat {b : Builder σ A} (consistent : b.Consistent)
    (standard : b.config.IsStandard) {lib : ArrayLibrary A}
    (reads : b.config.read = fun text => (Binary64.read text).map lib.ofFloat) {text : String}
    {root : Tree (Symbol σ A)}
    (read : (Scanner.make b.vocabulary b.config).root b.config.maxDepth text = .ok root) {a : A}
    (member : .operand a ∈ root.postorder) : ∃ x, a = lib.ofFloat x := by
  have ready : (Scanner.make b.vocabulary b.config).Ready := ⟨standard, rfl, consistent.regular⟩
  obtain ⟨c, cs, _, came⟩ := (ready.spoken_root read).1.literal member
  rw [show (Scanner.make b.vocabulary b.config).config = b.config from rfl, reads] at came
  obtain ⟨x, _, rfl⟩ := Option.map_eq_some_iff.mp came
  exact ⟨x, rfl⟩

end InfixCalc
