import InfixCalc.Decimal.Functions

/-!
# Powers of decimal numbers

Integer powers are found by repeated squaring with enough digits to spare; other powers are
exponentials of products with logarithms. Powers that leave the context for certain are not
computed.
-/

namespace InfixCalc.Context

open InfixCalc.Number

/-- The number one, with as many zeros after the point as are asked for and fit. -/
def unitPower (ctx : Context) (negative : Bool) (places : Nat) : Decimal :=
  let shown := min places (ctx.precision - 1)
  .finite negative (Nat.pow 10 shown) (-(shown : Int))

/-- One square for each binary digit of the exponent after the first, with a factor where the digit
is 1. `bits` counts the digits that are left. -/
def powerSteps (ctx : Context) (base : Decimal) (n : Nat) : Nat → Decimal → Outcome Decimal
  | 0, value => .ok value
  | bits + 1, value => do
    let squared ← ctx.mul value value
    let next ← if n.testBit bits then ctx.mul squared base else .ok squared
    if next.isZero then .ok next else powerSteps ctx base n bits next

def naturalPower (ctx : Context) (base : Decimal) (n : Nat) : Outcome Decimal :=
  ctx.powerSteps base n n.log2 base

def finish (ctx : Context) (negative : Bool) (x : Decimal) : Outcome Decimal :=
  match x with
  | .finite _ coefficient exponent => ctx.round negative coefficient exponent
  | x => .ok x

/-- The power with an integer as exponent, found with more digits: as many as the exponent has, and
two or three to spare. -/
def integerPower (ctx : Context) (negative : Bool) (base : Decimal) (n : Int) : Outcome Decimal :=
  let more := ctx.precision + digitCount n.natAbs + (if n < 0 then 3 else 2)
  let work : Context := { ctx with precision := more, rounding := .halfEven }
  do
    let start ← if n < 0 then work.div .one base else .ok base
    ctx.finish negative (← work.naturalPower start n.natAbs)

def exponentDigits : Nat := 19

/-- The power with any other exponent. A result of exactly one is shown with all its digits. -/
def realPower (ctx : Context) (coefficient : Nat) (x y : Decimal) : Outcome Decimal :=
  let work := wide (max (digitCount coefficient) ctx.precision + 4 + exponentDigits)
  do
    let product ← work.mul (← work.ln x) y
    let value ← work.exp product
    if value.compare? .one = some .eq then .ok (ctx.unitPower false ctx.precision)
    else ctx.finish false value

def logarithmSize (coefficient : Nat) (exponent : Int) : Int :=
  let top := Decimal.leading coefficient exponent
  if 0 < top then digitCount top.toNat - 1
  else if top < -1 then digitCount (-top - 1).toNat - 1
  else
    let unit := Nat.pow 10 (-exponent).toNat
    let value := coefficient * Nat.pow 10 exponent.toNat
    let distance : Int := Decimal.leading ((value : Int) - unit).natAbs (min exponent 0)
    if top = 0 then distance - 1 else distance

/-- The power of positive or negative finite operands that are neither zero nor one. -/
def finitePower (ctx : Context) (x y : Decimal) (m : Bool) (c : Nat) (p : Int) (n : Bool) (d : Nat)
    (q : Int) : Outcome Decimal :=
  let negative := m && Decimal.isOdd d q
  let size := logarithmSize c p + Decimal.leading d q
  if decide (Decimal.leading c p < 0) = n then
    if digitCount ctx.greatest.natAbs < size then refuse .overflow
    else compute negative
  else if digitCount ctx.lastPlace.natAbs < size then ctx.round negative 1 (ctx.lastPlace - 1)
  else compute negative
where
  compute (negative : Bool) : Outcome Decimal :=
    match y.toInt? with
    | some k => ctx.integerPower negative x k
    | none => ctx.realPower c x y

/-- The power of a base of magnitude one with `places` decimal places. A whole positive exponent
multiplies the places; one with many digits needs no value for that. -/
def powerOfOne (ctx : Context) (negative : Bool) (places : Nat) (n : Bool) (d : Nat) (q : Int) :
    Decimal :=
  if Decimal.isWhole d q then
    if n then .finite negative 1 0
    else if (digitCount ctx.precision : Int) < Decimal.leading d q then
      ctx.unitPower negative (places * ctx.precision)
    else ctx.unitPower negative (places * (Decimal.whole? d q).getD 0)
  else ctx.unitPower negative ctx.precision

def power (ctx : Context) (x y : Decimal) : Outcome Decimal :=
  match x, y with
  | .undefined .., _ | _, .undefined .. => ctx.passEither x y
  | .finite m c p, .infinite n =>
    if c = 0 then .ok (if n then .infinite false else .zero)
    else if m then refuse .invalidOperation
    else
      match Decimal.compareMagnitudes c p 1 0 with
      | .eq => .ok (ctx.unitPower false ctx.precision)
      | .lt => .ok (if n then .infinite false else .zero)
      | .gt => .ok (if n then .zero else .infinite false)
  | .infinite m, .infinite n =>
    if m then refuse .invalidOperation else .ok (if n then .zero else .infinite false)
  | .infinite m, .finite n d q =>
    if m && !Decimal.isWhole d q then refuse .invalidOperation
    else
      let negative := m && Decimal.isOdd d q
      if d = 0 then .ok (.finite negative 1 0)
      else .ok (if n then .finite negative 0 0 else .infinite negative)
  | .finite m c p, .finite n d q =>
    let negative := m && Decimal.isOdd d q
    if c = 0 then
      if d = 0 then refuse .invalidOperation
      else .ok (if n then .infinite negative else .finite negative 0 0)
    else if m && !Decimal.isWhole d q then refuse .invalidOperation
    else if d = 0 then .ok (.finite negative 1 0)
    else if Decimal.compareMagnitudes c p 1 0 = .eq then
      .ok (ctx.powerOfOne negative (-p).toNat n d q)
    else ctx.finitePower x y m c p n d q

end InfixCalc.Context
