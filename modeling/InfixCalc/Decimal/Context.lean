import InfixCalc.Decimal.Basic
import InfixCalc.Vocabulary.Meaning

/-!
# Contexts of decimal arithmetic

A context says how many digits a result keeps, how it is rounded, and how far its exponent may go.
`Context.round` brings any finite number into a context. A number that is too large is refused; one
that is too small loses digits down to the last place that the context has.
-/

namespace InfixCalc

open InfixCalc.Number

/-- The digits, the rounding and the exponents of results. -/
structure Context where
  precision : Nat
  rounding : Rounding
  greatest : Int
  least : Int
  deriving DecidableEq, Repr

namespace Context

def standard (precision : Nat) (rounding : Rounding) : Context :=
  ⟨precision, rounding, 999999, -999999⟩

def wide (precision : Nat) : Context :=
  ⟨precision, .halfEven, 999999999999999999, -999999999999999999⟩

def lastPlace (ctx : Context) : Int := ctx.least - ctx.precision + 1

def keptPlace (ctx : Context) (coefficient : Nat) (exponent : Int) : Int :=
  max exponent (max ctx.lastPlace (Decimal.leading coefficient exponent - ctx.precision + 1))

/-- A positive magnitude rounded to the digits of the context. A coefficient that is rounded up to
one digit more is a power of ten and loses its last zero. -/
def fit (ctx : Context) (negative : Bool) (coefficient : Nat) (exponent : Int) : Nat × Int :=
  let place := ctx.keptPlace coefficient exponent
  let kept :=
    if place = exponent then coefficient
    else Decimal.dropPlaces ctx.rounding negative coefficient (place - exponent).toNat
  if kept = Nat.pow 10 ctx.precision then (Nat.pow 10 (ctx.precision - 1), place + 1)
  else (kept, place)

def refuse {α : Type} (condition : Signal) : Outcome α := .error (.unusable (.signal condition))

def round (ctx : Context) (negative : Bool) (coefficient : Nat) (exponent : Int) :
    Outcome Decimal :=
  if coefficient = 0 then
    .ok (.finite negative 0 (max ctx.lastPlace (min exponent ctx.greatest)))
  else
    let (kept, place) := ctx.fit negative coefficient exponent
    if ctx.greatest < Decimal.leading kept place then refuse .overflow
    else .ok (.finite negative kept place)

/-- What an undefined operand gives: itself with the part of its payload that fits, unless it is
signaling. -/
def pass (ctx : Context) : Decimal → Outcome Decimal
  | .undefined negative false payload =>
    .ok (.undefined negative false (payload % Nat.pow 10 ctx.precision))
  | _ => refuse .invalidOperation

def passEither (ctx : Context) (x y : Decimal) : Outcome Decimal :=
  if x.isSignaling || y.isSignaling then refuse .invalidOperation
  else if x.isUndefined then ctx.pass x
  else ctx.pass y

end Context
end InfixCalc
