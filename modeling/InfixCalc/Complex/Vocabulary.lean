import InfixCalc.Builder
import InfixCalc.Complex.Functions
import InfixCalc.Complex.Basic
import InfixCalc.Number.Random

/-!
# Complex numbers in expressions

The vocabulary of the calculator over complex numbers. They have no order, so there are no
comparisons and no branches; the largest and smallest values go by distance from zero.
-/

namespace InfixCalc.Complex

open InfixCalc.Number

/-- The first value that no later one exceeds in distance from zero; zero for none. -/
def extreme (better : Float → Float → Bool) : List Complex → Outcome Complex
  | [] => .ok zero
  | z :: zs => do
    let size ← z.modulus
    let (best, _) ← zs.foldlM (fun (best, size) w => do
      let other ← w.modulus
      return if better other size then (w, other) else (best, size)) (z, size)
    return best

def average (values : List Complex) : Outcome Complex :=
  if values.isEmpty then .ok zero
  else div (values.foldl add zero) (ofReal (Binary64.ofInt values.length))

def degrees (z : Complex) : Outcome Complex := div (mul z (ofReal 180)) (ofReal Binary64.pi)

def radians (z : Complex) : Outcome Complex := div (mul z (ofReal Binary64.pi)) (ofReal 180)

def draw {σ : Type} [RandomSource σ] (state : σ) : Complex × σ :=
  let (x, state) := RandomSource.draw state
  let (y, state) := RandomSource.draw state
  (⟨x, y⟩, state)

def wordFunctions : List (String × (Complex → Outcome Complex)) :=
  [ ("abs", fun z => z.modulus.map ofReal),
    ("sin", sin), ("cos", cos), ("tan", tan),
    ("asin", fun z => .ok z.asin), ("acos", fun z => .ok z.acos), ("atan", atan),
    ("sinh", sinh), ("cosh", cosh), ("tanh", tanh),
    ("asinh", fun z => .ok z.asinh), ("acosh", fun z => .ok z.acosh), ("atanh", atanh),
    ("ln", ln), ("log10", log10), ("sqrt", fun z => .ok z.sqrt),
    ("cbrt", fun z => power z (ofReal (1 / 3))) ]

variable {σ : Type}

def operators : List (String × Fixity × Nat × Meaning σ Complex) :=
  [ ("+", .before, maxPrecedence, .same),
    ("-", .before, maxPrecedence, .unary fun z => .ok z.neg),
    ("+", .left, precedences.additive, .binary fun z w => .ok (add z w)),
    ("-", .left, precedences.additive, .binary fun z w => .ok (sub z w)),
    ("*", .left, precedences.multiplicative, .binary fun z w => .ok (mul z w)),
    ("/", .left, precedences.multiplicative, .binary div),
    ("^", .right, precedences.power, .binary power) ] ++
  wordFunctions.map (fun (label, f) => (label, .before, precedences.word, .unary f))

def functions [RandomSource σ] : List (String × Arity × Meaning σ Complex) :=
  [ ("deg", .exactly 1, .unary degrees),
    ("rad", .exactly 1, .unary radians),
    ("exp", .exactly 1, .unary exp),
    ("log", .exactly 2, .binary logBase),
    ("max", .variable, .aggregate (extreme fun x y => x > y)),
    ("min", .variable, .aggregate (extreme fun x y => x < y)),
    ("mean", .variable, .aggregate average),
    ("average", .variable, .aggregate average),
    ("rand", .exactly 0, .drawn draw) ]

def wordbook [RandomSource σ] : Wordbook σ Complex where
  operators := operators
  functions := functions
  branches := []
  constants := [("pi", ofReal Binary64.pi), ("e", ofReal Binary64.e), ("i", i)]

/-- Real and imaginary literals; the `i` may stand behind blanks, but nothing that would make it a
name may follow. -/
def operandPatterns : List String :=
  [ "\\d+(?:\\.\\d+)?[eE][-+]?\\d+(?:\\s*i(?![a-zA-Z0-9]))?",
    "\\d*\\.?\\d+(?:\\s*i(?![a-zA-Z0-9]))?" ]

def config (maxDepth : Setting) : Except Failure (Config Complex) :=
  Config.make Pattern.compile read (fun z => .ok z.format) (fun z => .ok (Shown.text z))
    operandPatterns defaultVariablePattern maxDepth

def builder [RandomSource σ] (cacheSize maxDepth : Setting) :
    Except Failure (Builder σ Complex) := do
  Builder.make (← config maxDepth) wordbook.vocabulary cacheSize

end InfixCalc.Complex
