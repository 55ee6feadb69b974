import InfixCalc.Binary64.Text
import InfixCalc.Number.Rounding
import InfixCalc.Vocabulary.Meaning

/-!
# Functions of doubles

The elementary functions with their domains and ranges checked: a finite argument outside the
domain, or a finite argument with an infinite value, is refused. Remainders are exact.
-/

namespace InfixCalc.Binary64

def pi : Float := 3.141592653589793

def e : Float := 2.718281828459045

/-- The value of a function whose infinite values at finite arguments are poles. -/
def withPoles (f : Float → Float) (x : Float) : Outcome Float :=
  let y := f x
  if y.isNaN && !x.isNaN then .error (.unusable .domain)
  else if y.isInf && x.isFinite then .error (.unusable .domain)
  else .ok y

/-- The value of a function whose infinite values at finite arguments are overflows. -/
def withOverflow (f : Float → Float) (x : Float) : Outcome Float :=
  let y := f x
  if y.isNaN && !x.isNaN then .error (.unusable .domain)
  else if y.isInf && x.isFinite then .error (.unusable .range)
  else .ok y

def ln (x : Float) : Outcome Float :=
  if x.isNaN then .ok x
  else if x <= 0 then .error (.unusable .domain)
  else .ok x.log

def log10 (x : Float) : Outcome Float :=
  if x.isNaN then .ok x
  else if x <= 0 then .error (.unusable .domain)
  else .ok x.log10

def quotient (x y : Float) : Outcome Float :=
  if y == 0 then .error .zeroDivisor else .ok (x / y)

def logBase (base x : Float) : Outcome Float := do
  let numerator ← ln x
  let denominator ← ln base
  quotient numerator denominator

def isOddInteger (x : Float) : Bool :=
  match toInt? x with
  | some n => n % 2 != 0
  | none => false

def withSignOf (magnitude sign : Float) : Float :=
  if isNegative sign then -magnitude.abs else magnitude.abs

/-- The power of finite or special operands. A zero base has no negative powers. -/
def power (x y : Float) : Outcome Float :=
  if x.isNaN then .ok (if y == 0 then 1 else x)
  else if y.isNaN then .ok (if x == 1 then 1 else y)
  else if x.isInf then
    if y == 0 then .ok 1
    else if y > 0 then .ok (if isOddInteger y then x else x.abs)
    else .ok (if isOddInteger y then withSignOf 0 x else 0)
  else if y.isInf then
    if x.abs == 1 then .ok 1
    else if y > 0 && x.abs > 1 then .ok y
    else if y < 0 && x.abs < 1 then .ok (-y)
    else .ok 0
  else
    let r := x.pow y
    if r.isNaN then .error (.unusable .domain)
    else if r.isInf then .error (.unusable (if x == 0 then .domain else .range))
    else .ok r

def asInteger (x : Float) : Except Reason Unit :=
  if x.isNaN then .error .undefinedAsInteger
  else if x.isInf then .error .infinityAsInteger
  else .ok ()

def roundedBy (f : Float → Float) (x : Float) : Outcome Float :=
  match asInteger x with
  | .error reason => .error (.unusable reason)
  | .ok () => .ok (f x + 0)

def truncatedRemainder (x y : Float) : Float :=
  match decode x, decode y with
  | .finite negative m p, .finite _ n q =>
    if n = 0 then 0 / 0
    else
      let unit := min p q
      let r := (m <<< (p - unit).toNat) % (n <<< (q - unit).toNat)
      let (num, den) := ratio r unit
      ofRatio negative num den
  | .finite .., .infinite _ => x
  | _, _ => 0 / 0

/-- The remainder with the sign of the divisor; a zero divisor gives none. -/
def remainder (x y : Float) : Float :=
  let r := truncatedRemainder x y
  if r.isNaN then r
  else if r == 0 then withSignOf 0 y
  else if (y < 0) != (r < 0) then r + y
  else r

/-- The quotient rounded down. It is taken of what the remainder leaves, and a quotient that comes
out beside an integer is moved onto it. -/
def floorQuotient (x y : Float) : Float :=
  let r := truncatedRemainder x y
  let cut := (x - r) / y
  let quotient := if r != 0 && (y < 0) != (r < 0) then cut - 1 else cut
  if quotient == 0 then withSignOf 0 (x / y)
  else if quotient - quotient.floor > 0.5 then quotient.floor + 1
  else quotient.floor

def infinity : Float := 1 / 0

def undefined : Float := 0 / 0

/-- The nearest double to the square root of `n * 4 ^ unit`. The root is taken with 64 binary places
more, and an inexact one is moved off the place between two doubles. -/
def nearestRoot (n : Nat) (unit : Int) : Float :=
  let r := Number.root (n <<< 128)
  let sharp := if r * r = n <<< 128 then 2 * r else 2 * r + 1
  let (num, den) := ratio sharp (unit - 65)
  ofRatio false num den

def hypotenuse (x y : Float) : Float :=
  if x.isInf || y.isInf then infinity
  else
    match decode x, decode y with
    | .finite _ m p, .finite _ n q =>
      let unit := min p q
      let a := m <<< (p - unit).toNat
      let b := n <<< (q - unit).toNat
      nearestRoot (a * a + b * b) unit
    | _, _ => undefined

def lnSucc (x : Float) : Float :=
  let u := 1 + x
  if u == 1 || x.isInf then x else u.log * x / (u - 1)

def degrees (x : Float) : Float := x * (180 / pi)

def radians (x : Float) : Float := x * (pi / 180)

def factorialNat : Nat → Nat
  | 0 => 1
  | n + 1 => (n + 1) * factorialNat n

end InfixCalc.Binary64
