import InfixCalc.Decimal.Arithmetic
import InfixCalc.Decimal.Enclosure
import InfixCalc.Number.Rounding

/-!
# Elementary functions of decimal numbers

Exponentials, logarithms and square roots are correctly rounded, halves to the even neighbour
whatever the context says. Exact results are given as such.
-/

namespace InfixCalc.Context

open InfixCalc.Number

def halfEven (ctx : Context) : Context := { ctx with rounding := .halfEven }

def firstDigits (ctx : Context) (coefficient : Nat) (exponent : Int) : Nat :=
  ctx.precision + 6 + (Decimal.leading coefficient exponent).toNat

/-- Exponents of the leading digit from which on an exponential leaves every context. -/
def expLimit : Int := 19

def exp (ctx : Context) (x : Decimal) : Outcome Decimal :=
  match x with
  | .undefined .. => ctx.pass x
  | .infinite negative => .ok (if negative then .zero else x)
  | .finite negative coefficient exponent =>
    if coefficient = 0 then .ok .one
    else if expLimit ≤ Decimal.leading coefficient exponent then
      if negative then .ok (.finite false 0 ctx.lastPlace) else refuse .overflow
    else
      ctx.halfEven.settle false (Enclosure.exp negative coefficient exponent) attempts
        (ctx.firstDigits coefficient exponent)

def logarithm (ctx : Context) (f : Nat → Int → Outcome Decimal) (x : Decimal) : Outcome Decimal :=
  match x with
  | .undefined .. => ctx.pass x
  | .infinite negative => if negative then refuse .invalidOperation else .ok x
  | .finite negative coefficient exponent =>
    if coefficient = 0 then .ok (.infinite true)
    else if negative then refuse .invalidOperation
    else f coefficient exponent

def ln (ctx : Context) : Decimal → Outcome Decimal :=
  ctx.logarithm fun coefficient exponent =>
    if Decimal.whole? coefficient exponent = some 1 then .ok .zero
    else
      ctx.halfEven.settle (decide (Decimal.leading coefficient exponent < 0))
        (Enclosure.ln coefficient exponent) attempts (ctx.firstDigits coefficient exponent)

def log10 (ctx : Context) : Decimal → Outcome Decimal :=
  ctx.logarithm fun coefficient exponent =>
    let top := Decimal.leading coefficient exponent
    if coefficient = Nat.pow 10 (digitCount coefficient - 1) then
      ctx.halfEven.round (decide (top < 0)) top.natAbs 0
    else
      ctx.halfEven.settle (decide (top < 0))
        (fun digits => (Enclosure.ln coefficient exponent digits).overLnTen digits) attempts
        (ctx.firstDigits coefficient exponent)

def sqrt (ctx : Context) (x : Decimal) : Outcome Decimal :=
  match x with
  | .undefined .. => ctx.pass x
  | .infinite negative => if negative then refuse .invalidOperation else .ok x
  | .finite negative coefficient exponent =>
    let half := exponent / 2
    if coefficient = 0 then ctx.round negative 0 half
    else if negative then refuse .invalidOperation
    else
      let n := if exponent % 2 = 0 then coefficient else 10 * coefficient
      if root n * root n = n then ctx.halfEven.round false (root n) half
      else
        let places := ctx.precision + 2
        ctx.halfEven.round false (marked (root (n * Nat.pow 10 (2 * places)))) (half - places)

end InfixCalc.Context
