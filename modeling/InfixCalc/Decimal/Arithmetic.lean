import InfixCalc.Decimal.Context

/-!
# Decimal arithmetic

Every operation is exact first and brought into the context once. Sums with a summand far below
the last digit that can matter use a smaller stand-in, and quotients carry one digit more than the
context with a mark for what is left over, so that the one rounding sees the same number.
-/

namespace InfixCalc.Context

open InfixCalc.Number

/-- The number in the context; a zero is positive unless the context rounds to the floor. -/
def plus (ctx : Context) : Decimal → Outcome Decimal
  | .finite negative coefficient exponent =>
    ctx.round (negative && (coefficient != 0 || ctx.rounding == .floor)) coefficient exponent
  | .infinite negative => .ok (.infinite negative)
  | x => ctx.pass x

def minus (ctx : Context) (x : Decimal) : Outcome Decimal := ctx.plus x.flip

def abs (ctx : Context) (x : Decimal) : Outcome Decimal := ctx.plus x.magnitude

/-- The summand with the smaller exponent. When it lies wholly below what rounding beside the other
one can see, a single digit just below that place stands for it. -/
def standIn (ctx : Context) (big : Nat) (place : Int) (small : Nat) (exponent : Int) : Nat × Int :=
  let digits := digitCount big
  let below := place - 1 - (if ctx.precision < digits then 0 else ctx.precision + 1 - digits)
  if big ≠ 0 ∧ Decimal.leading small exponent < below then (min small 1, below)
  else (small, exponent)

/-- The sum of finite numbers of which the first has no smaller exponent. A sum of zero from unlike
signs is positive unless the context rounds to the floor. -/
def sumAligned (ctx : Context) (m : Bool) (c : Nat) (p : Int) (n : Bool) (d : Nat) (q : Int) :
    Outcome Decimal :=
  let (d, q) := if p = q then (d, q) else ctx.standIn c p d q
  let c := if c = 0 then 0 else c * Nat.pow 10 (p - q).toNat
  let total := Decimal.signed m c + Decimal.signed n d
  let negative :=
    if m = n then m else if total = 0 then ctx.rounding == .floor else decide (total < 0)
  ctx.round negative total.natAbs q

def add (ctx : Context) (x y : Decimal) : Outcome Decimal :=
  match x, y with
  | .undefined .., _ | _, .undefined .. => ctx.passEither x y
  | .infinite m, .infinite n => if m = n then .ok x else refuse .invalidOperation
  | .infinite _, .finite .. => .ok x
  | .finite .., .infinite _ => .ok y
  | .finite m c p, .finite n d q =>
    if q ≤ p then ctx.sumAligned m c p n d q else ctx.sumAligned n d q m c p

def sub (ctx : Context) (x y : Decimal) : Outcome Decimal := ctx.add x y.flip

def mul (ctx : Context) (x y : Decimal) : Outcome Decimal :=
  match x, y with
  | .undefined .., _ | _, .undefined .. => ctx.passEither x y
  | .infinite m, .infinite n => .ok (.infinite (m != n))
  | .infinite m, .finite n d _ | .finite n d _, .infinite m =>
    if d = 0 then refuse .invalidOperation else .ok (.infinite (m != n))
  | .finite m c p, .finite n d q => ctx.round (m != n) (c * d) (p + q)

/-- A coefficient without the zeros at its end, as far as the exponent stays within `ideal`. -/
def stripTo (ideal : Int) : Nat → Nat → Int → Nat × Int
  | 0, coefficient, exponent => (coefficient, exponent)
  | places + 1, coefficient, exponent =>
    if exponent < ideal ∧ coefficient % 10 = 0 then
      stripTo ideal places (coefficient / 10) (exponent + 1)
    else (coefficient, exponent)

/-- A coefficient with a mark that something was left over: it never ends in 0 or 5. -/
def marked (coefficient : Nat) : Nat :=
  if coefficient % 5 = 0 then coefficient + 1 else coefficient

/-- The quotient of positive magnitudes. An exact one has the exponent nearest to the difference of
the exponents. -/
def quotient (ctx : Context) (negative : Bool) (c : Nat) (p : Int) (d : Nat) (q : Int) :
    Outcome Decimal :=
  let shift : Int := (digitCount d : Int) - digitCount c + ctx.precision + 1
  let num := c * Nat.pow 10 shift.toNat
  let den := d * Nat.pow 10 (-shift).toNat
  if num % den = 0 then
    let (kept, exponent) := stripTo (p - q) (ctx.precision + 1) (num / den) (p - q - shift)
    ctx.round negative kept exponent
  else ctx.round negative (marked (num / den)) (p - q - shift)

def div (ctx : Context) (x y : Decimal) : Outcome Decimal :=
  match x, y with
  | .undefined .., _ | _, .undefined .. => ctx.passEither x y
  | .infinite _, .infinite _ => refuse .invalidOperation
  | .infinite m, .finite n _ _ => .ok (.infinite (m != n))
  | .finite m _ _, .infinite n => .ok (.finite (m != n) 0 ctx.lastPlace)
  | .finite m c p, .finite n d q =>
    if d = 0 then (if c = 0 then refuse .divisionUndefined else .error .zeroDivisor)
    else if c = 0 then ctx.round (m != n) 0 (p - q)
    else ctx.quotient (m != n) c p d q

/-- The remainder of the division that is cut to an integer, with the sign of the dividend. The
integer must fit into the context. -/
def rem (ctx : Context) (x y : Decimal) : Outcome Decimal :=
  match x, y with
  | .undefined .., _ | _, .undefined .. => ctx.passEither x y
  | .infinite _, _ => refuse .invalidOperation
  | .finite m c p, .infinite _ => ctx.round m c p
  | .finite m c p, .finite _ d q =>
    let unit := min p q
    if d = 0 then refuse (if c = 0 then .divisionUndefined else .invalidOperation)
    else if c = 0 then ctx.round m 0 unit
    else
      let ahead := Decimal.leading c p - Decimal.leading d q
      if ahead < 0 then ctx.round m (c * Nat.pow 10 (p - unit).toNat) unit
      else if ctx.precision < ahead then refuse .divisionImpossible
      else
        let num := c * Nat.pow 10 (p - unit).toNat
        let den := d * Nat.pow 10 (q - unit).toNat
        if Nat.pow 10 ctx.precision ≤ num / den then refuse .divisionImpossible
        else ctx.round m (num % den) unit

def integerQuotient (ctx : Context) (x y : Decimal) : Outcome Decimal :=
  match x, y with
  | .undefined .., _ | _, .undefined .. => ctx.passEither x y
  | .infinite _, .infinite _ => refuse .invalidOperation
  | .infinite m, .finite n _ _ => .ok (.infinite (m != n))
  | .finite m _ _, .infinite n => .ok (.finite (m != n) 0 0)
  | .finite m c p, .finite n d q =>
    let ahead := Decimal.leading c p - Decimal.leading d q
    if d = 0 then (if c = 0 then refuse .divisionUndefined else .error .zeroDivisor)
    else if c = 0 ∨ ahead < 0 then .ok (.finite (m != n) 0 0)
    else if ctx.precision < ahead then refuse .divisionImpossible
    else
      let unit := min p q
      let whole := (c * Nat.pow 10 (p - unit).toNat) / (d * Nat.pow 10 (q - unit).toNat)
      if Nat.pow 10 ctx.precision ≤ whole then refuse .divisionImpossible
      else .ok (.finite (m != n) whole 0)

def order (x y : Decimal) : Outcome Ordering :=
  match x.compare? y with
  | some o => .ok o
  | none => refuse .invalidOperation

def equal (x y : Decimal) : Outcome Bool :=
  if x.isSignaling || y.isSignaling then refuse .invalidOperation
  else .ok (x.compare? y == some .eq)

/-- The integer next to a number in a rounding mode. It may have more digits than the context. -/
def toIntegral (ctx : Context) (mode : Rounding) (x : Decimal) : Outcome Decimal :=
  match x with
  | .finite negative coefficient exponent =>
    if 0 ≤ exponent then .ok x
    else if coefficient = 0 then .ok (.finite negative 0 0)
    else .ok (.finite negative
      (Decimal.dropPlaces mode negative coefficient (-exponent).toNat) 0)
  | .infinite _ => .ok x
  | .undefined .. => ctx.pass x

end InfixCalc.Context
