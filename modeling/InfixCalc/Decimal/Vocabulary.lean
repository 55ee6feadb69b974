import InfixCalc.Builder
import InfixCalc.Binary64.Functions
import InfixCalc.Decimal.Power
import InfixCalc.Decimal.Series
import InfixCalc.Decimal.Text
import InfixCalc.Number.Random

/-!
# Decimal numbers in expressions

The vocabulary of the calculator over decimal numbers. Every operation works in the context of the
builder; comparisons, the choice of the largest and smallest value and the branches take operands
as they are.
-/

namespace InfixCalc.Decimal

open InfixCalc.Number

def tan (ctx : Context) (x : Decimal) : Outcome Decimal := do ctx.div (← ctx.sin x) (← ctx.cos x)

def sinh (ctx : Context) (x : Decimal) : Outcome Decimal := do
  ctx.div (← ctx.sub (← ctx.exp x) (← ctx.exp (← ctx.minus x))) (.ofNat 2)

def cosh (ctx : Context) (x : Decimal) : Outcome Decimal := do
  ctx.div (← ctx.add (← ctx.exp x) (← ctx.exp (← ctx.minus x))) (.ofNat 2)

def tanh (ctx : Context) (x : Decimal) : Outcome Decimal := do
  ctx.div (← sinh ctx x) (← cosh ctx x)

/-- The cube root. It is found through logarithms; the nearest integer is taken instead where its
cube is the argument. -/
def cbrt (ctx : Context) (x : Decimal) : Outcome Decimal := do
  if ← Context.equal x zero then return zero
  let size ← ctx.abs x
  let root ← ctx.exp (← ctx.div (← ctx.ln size) (.ofNat 3))
  let nearest ← ctx.toIntegral ctx.rounding root
  let cube ← ctx.power nearest (.ofNat 3)
  let exact ← Context.equal cube (← ctx.abs x)
  let root := if exact then nearest else root
  if (← Context.order x zero) == .gt then return root else ctx.minus root

def factorialLimit : Int := 9223372036854775807

def factorial (ctx : Context) (x : Decimal) : Outcome Decimal := do
  if (← Context.order x zero) == .lt then .error (.failure (.noFactorial x.plain))
  else
    match x with
    | .infinite _ => .error (.unusable .infiniteDecimal)
    | _ =>
      match x.toInt? with
      | none => .error (.failure (.noFactorial x.plain))
      | some n =>
        if factorialLimit < n then .error (.unusable .factorialTooLarge)
        else ctx.plus (ofNat (Binary64.factorialNat n.toNat))

def logBase (ctx : Context) (base x : Decimal) : Outcome Decimal := do
  ctx.div (← ctx.ln x) (← ctx.ln base)

/-- The first value that no later one exceeds in an order; zero for none. -/
def extreme (better : Ordering) : List Decimal → Outcome Decimal
  | [] => .ok zero
  | x :: xs => xs.foldlM (fun best y => do
      return if (← Context.order y best) == better then y else best) x

def average (ctx : Context) (values : List Decimal) : Outcome Decimal :=
  if values.isEmpty then .ok zero
  else do ctx.div (← values.foldlM ctx.add zero) (ofNat values.length)

def degrees (ctx : Context) (x : Decimal) : Outcome Decimal := do
  ctx.div (← ctx.mul x (ofNat 180)) (← ctx.pi)

def radians (ctx : Context) (x : Decimal) : Outcome Decimal := do
  ctx.div (← ctx.mul x (← ctx.pi)) (ofNat 180)

def conditionChoice (x : Decimal) : Except Failure Selection :=
  .ok (.index (if x.isZero then 2 else 1))

def switchChoice (x : Decimal) : Except Failure Selection :=
  match x.toInt? with
  | some n => .ok (.index n)
  | none => .error (.selectorNotInteger x.text)

def ofFloat (x : Float) : Decimal :=
  match Binary64.decode x with
  | .finite negative significand exponent =>
    if 0 ≤ exponent then .finite negative (significand * Nat.pow 2 exponent.toNat) 0
    else .finite negative (significand * Nat.pow 5 (-exponent).toNat) exponent
  | .infinite negative => .infinite negative
  | .undefined => .undefined false false 0

def comparisons : List (String × (Ordering → Bool)) :=
  [("<", (· == .lt)), (">", (· == .gt)), ("<=", (· != .gt)), (">=", (· != .lt))]

def wordFunctions (ctx : Context) : List (String × (Decimal → Outcome Decimal)) :=
  [ ("abs", ctx.abs), ("sin", ctx.sin), ("cos", ctx.cos), ("tan", tan ctx),
    ("sinh", sinh ctx), ("cosh", cosh ctx), ("tanh", tanh ctx),
    ("round", ctx.toIntegral .halfUp), ("floor", ctx.toIntegral .floor),
    ("ceil", ctx.toIntegral .ceiling),
    ("ln", ctx.ln), ("log10", ctx.log10), ("sqrt", ctx.sqrt), ("cbrt", cbrt ctx) ]

variable {σ : Type}

def operators (ctx : Context) : List (String × Fixity × Nat × Meaning σ Decimal) :=
  [ ("+", .before, maxPrecedence, .same),
    ("-", .before, maxPrecedence, .unary ctx.minus) ] ++
  comparisons.map (fun (label, holds) =>
    (label, .left, precedences.comparison, .binary fun x y => do
      return truth (holds (← Context.order x y)))) ++
  [ ("==", .left, precedences.comparison, .binary fun x y => do
      return truth (← Context.equal x y)),
    ("!=", .left, precedences.comparison, .binary fun x y => do
      return truth (!(← Context.equal x y))),
    ("+", .left, precedences.additive, .binary ctx.add),
    ("-", .left, precedences.additive, .binary ctx.sub),
    ("*", .left, precedences.multiplicative, .binary ctx.mul),
    ("/", .left, precedences.multiplicative, .binary ctx.div),
    ("%", .left, precedences.multiplicative, .binary ctx.rem),
    ("^", .right, precedences.power, .binary ctx.power),
    ("!", .after, precedences.factorial, .unary (factorial ctx)) ] ++
  (wordFunctions ctx).map (fun (label, f) => (label, .before, precedences.word, .unary f))

def draw [RandomSource σ] (ctx : Context) (state : σ) : Decimal × σ :=
  let (x, state) := RandomSource.draw state
  match ctx.plus (ofFloat x) with
  | .ok value => (value, state)
  | .error _ => (zero, state)

def functions [RandomSource σ] (ctx : Context) : List (String × Arity × Meaning σ Decimal) :=
  [ ("deg", .exactly 1, .unary (degrees ctx)),
    ("rad", .exactly 1, .unary (radians ctx)),
    ("exp", .exactly 1, .unary ctx.exp),
    ("log", .exactly 2, .binary (logBase ctx)),
    ("max", .variable, .aggregate (extreme .gt)),
    ("min", .variable, .aggregate (extreme .lt)),
    ("mean", .variable, .aggregate (average ctx)),
    ("average", .variable, .aggregate (average ctx)),
    ("rand", .exactly 0, .drawn (draw ctx)) ]

/-- The words over decimal numbers, with the values of their two constants. -/
def wordbook [RandomSource σ] (ctx : Context) (pi e : Decimal) : Wordbook σ Decimal where
  operators := operators ctx
  functions := functions ctx
  branches := [("if", .exactly 3, conditionChoice), ("switch", .variable, switchChoice)]
  constants := [("pi", pi), ("e", e)]

def config (maxDepth : Setting) : Except Failure (Config Decimal) :=
  Config.standard read (fun x => .ok x.plain) (fun x => .ok (Shown.text x)) maxDepth

def greatestPrecision : Int := 999999999999999999

def readPrecision (given : Setting) : Except Failure Nat :=
  match given with
  | .whole n => if 1 ≤ n ∧ n ≤ greatestPrecision then .ok n.toNat else .error .unreadableValue
  | .flag b => if b then .ok 1 else .error .unreadableValue
  | _ => .error .unsuitedOperand

def roundingOfName? : String → Option Rounding
  | "ROUND_UP" => some .up
  | "ROUND_DOWN" => some .down
  | "ROUND_CEILING" => some .ceiling
  | "ROUND_FLOOR" => some .floor
  | "ROUND_HALF_UP" => some .halfUp
  | "ROUND_HALF_DOWN" => some .halfDown
  | "ROUND_HALF_EVEN" => some .halfEven
  | "ROUND_05UP" => some .zeroFiveUp
  | _ => none

def readRounding (given : Setting) : Except Failure Rounding :=
  match given with
  | .text name =>
    match roundingOfName? name with
    | some mode => .ok mode
    | none => .error .unsuitedOperand
  | _ => .error .unsuitedOperand

def defaultPrecision : Setting := .whole 20

def defaultRounding : Setting := .text "ROUND_HALF_UP"

/-- The context that the settings of a builder describe. -/
def readContext (precision rounding : Setting) : Except Failure Context := do
  let digits ← readPrecision precision
  return .standard digits (← readRounding rounding)

/-- The words of the context that the settings describe. The circle number is summed with more
digits than the context has, so there must be room for them. -/
def readWordbook [RandomSource σ] (precision rounding : Setting) :
    Except Failure (Wordbook σ Decimal) := do
  let ctx ← readContext precision rounding
  if greatestPrecision < ctx.extended.precision then .error .unreadableValue
  else
    let constants := do return (← ctx.pi, ← ctx.exp one)
    match constants with
    | .error refusal => .error (refusal.report "" "")
    | .ok (pi, e) => .ok (wordbook ctx pi e)

/-- A builder over decimal numbers. What is wrong with the settings shows in the order depth, cache
size, precision, rounding. -/
def builder [RandomSource σ] (precision rounding cacheSize maxDepth : Setting) :
    Except Failure (Builder σ Decimal) := do
  let config ← config maxDepth
  let _ : Option (Cache (Expression σ Decimal)) ← Builder.cacheOf cacheSize
  Builder.make config (← readWordbook precision rounding).vocabulary cacheSize

end InfixCalc.Decimal
