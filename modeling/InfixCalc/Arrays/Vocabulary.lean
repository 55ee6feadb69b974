import InfixCalc.Arrays.Library
import InfixCalc.Real.Vocabulary

/-!
# Arrays in expressions

The vocabulary of the calculator over the arrays of a library, which works cell by cell. Comparisons
give flags and `where` selects cell by cell. There are no branches, because a branch picks one
operand for all cells at once.
-/

namespace InfixCalc.ArrayLibrary

open InfixCalc.Number InfixCalc.Fault

variable {A σ : Type} (lib : ArrayLibrary A)

def apply₁ (operation : Unary) (a : A) : Outcome A := adapted (lib.unary operation a)

def apply₂ (operation : Binary) (a b : A) : Outcome A := adapted (lib.binary operation a b)

def round (a : A) : Outcome A := do lib.apply₁ .floor (← lib.apply₂ .add a (lib.plain 0.5))

def logBase (base a : A) : Outcome A := do
  let log ← lib.apply₁ .log a
  lib.apply₂ .divide log (← lib.apply₁ .log base)

/-- The factorial of each cell, one after another. -/
def factorial (a : A) : Outcome A := do
  let values ← (lib.items a).mapM fun item =>
    Real.factorialShown (lib.itemText a item) item.toFloat
  return lib.reals (lib.shape a) values

/-- The arrays as layers of one array. -/
def pile (arrays : List A) : Outcome A := do
  let spread ← adapted (lib.broadcast arrays)
  adapted (lib.stack spread)

def aggregate (reduction : Reduction) (arrays : List A) : Outcome A :=
  if arrays.isEmpty then .ok (lib.ofFloat 0)
  else do
    let layers ← lib.pile arrays
    adapted (lib.reduce reduction layers)

/-- The selection goes without the adapter. -/
def choose (condition a b : A) : Except Failure A :=
  (lib.select condition a b).mapError Fault.failure

def comparisons : List (String × Binary) :=
  [ ("<", .less), (">", .greater), ("<=", .lessEqual), (">=", .greaterEqual), ("==", .equal),
    ("!=", .notEqual) ]

def wordFunctions : List (String × (A → Outcome A)) :=
  [ ("abs", lib.apply₁ .absolute),
    ("sin", lib.apply₁ .sin), ("cos", lib.apply₁ .cos), ("tan", lib.apply₁ .tan),
    ("asin", lib.apply₁ .arcsin), ("acos", lib.apply₁ .arccos), ("atan", lib.apply₁ .arctan),
    ("sinh", lib.apply₁ .sinh), ("cosh", lib.apply₁ .cosh), ("tanh", lib.apply₁ .tanh),
    ("asinh", lib.apply₁ .arcsinh), ("acosh", lib.apply₁ .arccosh),
    ("atanh", lib.apply₁ .arctanh),
    ("round", lib.round),
    ("floor", lib.apply₁ .floor), ("ceil", lib.apply₁ .ceil),
    ("ln", lib.apply₁ .log), ("log10", lib.apply₁ .log10),
    ("sqrt", lib.apply₁ .sqrt), ("cbrt", lib.apply₁ .cbrt) ]

def operators : List (String × Fixity × Nat × Meaning σ A) :=
  [ ("+", .before, maxPrecedence, .same),
    ("-", .before, maxPrecedence, .unary (lib.apply₁ .negative)) ] ++
  comparisons.map (fun (label, comparison) =>
    (label, .left, precedences.comparison, .binary (lib.apply₂ comparison))) ++
  [ ("+", .left, precedences.additive, .binary (lib.apply₂ .add)),
    ("-", .left, precedences.additive, .binary (lib.apply₂ .subtract)),
    ("*", .left, precedences.multiplicative, .binary (lib.apply₂ .multiply)),
    ("/", .left, precedences.multiplicative, .binary (lib.apply₂ .divide)),
    ("%", .left, precedences.multiplicative, .binary (lib.apply₂ .modulo)),
    ("^", .right, precedences.power, .binary (lib.apply₂ .power)),
    ("!", .after, precedences.factorial, .unary lib.factorial) ] ++
  lib.wordFunctions.map (fun (label, f) => (label, .before, precedences.word, .unary f))

def functions [RandomSource σ] : List (String × Arity × Meaning σ A) :=
  [ ("deg", .exactly 1, .unary (lib.apply₁ .degrees)),
    ("rad", .exactly 1, .unary (lib.apply₁ .radians)),
    ("exp", .exactly 1, .unary (lib.apply₁ .exp)),
    ("log", .exactly 2, .binary lib.logBase),
    ("where", .exactly 3, .ternary lib.choose),
    ("max", .variable, .aggregate (lib.aggregate .max)),
    ("min", .variable, .aggregate (lib.aggregate .min)),
    ("mean", .variable, .aggregate (lib.aggregate .mean)),
    ("average", .variable, .aggregate (lib.aggregate .mean)),
    ("rand", .exactly 0, .drawn fun state =>
      let (x, state) := RandomSource.draw state
      (lib.plain x, state)) ]

def wordbook [RandomSource σ] : Wordbook σ A where
  operators := lib.operators
  functions := lib.functions
  branches := []
  constants := [("pi", lib.ofFloat Binary64.pi), ("e", lib.ofFloat Binary64.e)]

def format (a : A) : Except Failure String :=
  match lib.toFloat? a with
  | some x => .ok (Real.format x)
  | none => .error .unsuitedOperand

variable [Shown A]

def config (maxDepth : Setting) : Except Failure (Config A) :=
  Config.standard (fun text => (Binary64.read text).map lib.ofFloat) lib.format
    (fun a => .ok (Shown.text a)) maxDepth

def builder [RandomSource σ] (cacheSize maxDepth : Setting) : Except Failure (Builder σ A) := do
  Builder.make (← lib.config maxDepth) lib.wordbook.vocabulary cacheSize

end InfixCalc.ArrayLibrary
