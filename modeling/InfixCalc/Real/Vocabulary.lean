import InfixCalc.Binary64.Functions
import InfixCalc.Builder
import InfixCalc.Number.Random
import InfixCalc.Real.Format

/-!
# Real numbers

The vocabulary of the scientific calculator over doubles: arithmetic, comparisons that give 1 or
0, elementary functions, aggregates and the two branches.
-/

namespace InfixCalc.Real

open InfixCalc.Binary64 InfixCalc.Number

def truth (value : Bool) : Float := if value then 1 else 0

def divide (x y : Float) : Outcome Float :=
  if y == 0 then .error (.failure .divisionByZero) else .ok (x / y)

def modulo (x y : Float) : Outcome Float :=
  if y == 0 then .error (.failure .moduloByZero) else .ok (remainder x y)

def largestFactorial : Int := 170

def factorialLimit : Int := 9223372036854775807

def factorialShown (shown : String) (x : Float) : Outcome Float :=
  match toInt? x with
  | some n =>
    if n < 0 then .error (.failure (.noFactorial shown))
    else if factorialLimit < n then .error (.unusable .factorialTooLarge)
    else if largestFactorial < n then .error (.unusable .integerTooLarge)
    else .ok (ofInt (factorialNat n.toNat))
  | none => .error (.failure (.noFactorial shown))

def factorial (x : Float) : Outcome Float := factorialShown (format x) x

def round (x : Float) : Outcome Float := roundedBy Float.floor (x + 0.5)

def largest : List Float → Float
  | [] => 0
  | x :: xs => xs.foldl (fun best y => if y > best then y else best) x

def smallest : List Float → Float
  | [] => 0
  | x :: xs => xs.foldl (fun best y => if y < best then y else best) x

def average (values : List Float) : Float :=
  if values.isEmpty then 0 else values.foldl (· + ·) 0 / ofInt values.length

def conditionChoice (x : Float) : Except Failure Selection :=
  .ok (.index (if x == 0 then 2 else 1))

def switchChoice (x : Float) : Except Failure Selection :=
  match toInt? x with
  | some n => .ok (.index n)
  | none => .error (.selectorNotInteger (Binary64.text x))

variable {σ : Type}

def comparisons : List (String × (Float → Float → Bool)) :=
  [ ("<", fun x y => x < y), (">", fun x y => x > y), ("<=", fun x y => x <= y),
    (">=", fun x y => x >= y), ("==", fun x y => x == y), ("!=", fun x y => x != y) ]

def wordFunctions : List (String × (Float → Outcome Float)) :=
  [ ("abs", fun x => .ok x.abs),
    ("sin", withPoles Float.sin), ("cos", withPoles Float.cos), ("tan", withPoles Float.tan),
    ("asin", withPoles Float.asin), ("acos", withPoles Float.acos),
    ("atan", withPoles Float.atan),
    ("sinh", withOverflow Float.sinh), ("cosh", withOverflow Float.cosh),
    ("tanh", withPoles Float.tanh),
    ("asinh", withPoles Float.asinh), ("acosh", withPoles Float.acosh),
    ("atanh", withPoles Float.atanh),
    ("round", round), ("floor", roundedBy Float.floor), ("ceil", roundedBy Float.ceil),
    ("ln", ln), ("log10", log10),
    ("sqrt", withPoles Float.sqrt), ("cbrt", withPoles Float.cbrt) ]

def operators : List (String × Fixity × Nat × Meaning σ Float) :=
  [ ("+", .before, maxPrecedence, .same),
    ("-", .before, maxPrecedence, .unary fun x => .ok (-x)) ] ++
  comparisons.map (fun (label, holds) =>
    (label, .left, precedences.comparison, .binary fun x y => .ok (truth (holds x y)))) ++
  [ ("+", .left, precedences.additive, .binary fun x y => .ok (x + y)),
    ("-", .left, precedences.additive, .binary fun x y => .ok (x - y)),
    ("*", .left, precedences.multiplicative, .binary fun x y => .ok (x * y)),
    ("/", .left, precedences.multiplicative, .binary divide),
    ("%", .left, precedences.multiplicative, .binary modulo),
    ("^", .right, precedences.power, .binary power),
    ("!", .after, precedences.factorial, .unary factorial) ] ++
  wordFunctions.map (fun (label, f) => (label, .before, precedences.word, .unary f))

def functions [RandomSource σ] : List (String × Arity × Meaning σ Float) :=
  [ ("deg", .exactly 1, .unary fun x => .ok (degrees x)),
    ("rad", .exactly 1, .unary fun x => .ok (radians x)),
    ("exp", .exactly 1, .unary (withOverflow Float.exp)),
    ("log", .exactly 2, .binary logBase),
    ("max", .variable, .aggregate fun xs => .ok (largest xs)),
    ("min", .variable, .aggregate fun xs => .ok (smallest xs)),
    ("mean", .variable, .aggregate fun xs => .ok (average xs)),
    ("average", .variable, .aggregate fun xs => .ok (average xs)),
    ("rand", .exactly 0, .drawn RandomSource.draw) ]

def wordbook [RandomSource σ] : Wordbook σ Float where
  operators := operators
  functions := functions
  branches := [("if", .exactly 3, conditionChoice), ("switch", .variable, switchChoice)]
  constants := [("pi", pi), ("e", e)]

def config (maxDepth : Setting) : Except Failure (Config Float) :=
  Config.standard Binary64.read (fun x => .ok (format x)) (fun x => .ok (Shown.text x)) maxDepth

def builder [RandomSource σ] (cacheSize maxDepth : Setting) :
    Except Failure (Builder σ Float) := do
  Builder.make (← config maxDepth) wordbook.vocabulary cacheSize

end InfixCalc.Real
