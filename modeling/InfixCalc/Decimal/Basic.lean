import InfixCalc.Number.Rounding

/-!
# Decimal numbers

A finite decimal number is a coefficient and a power of ten, with a sign that zeros have too, so
`1.5` and `1.50` are equal as numbers and differ as decimals. Beside the finite numbers there are
two infinities and the undefined values, which carry a payload and may be signaling.
-/

namespace InfixCalc

open InfixCalc.Number

/-- A decimal number: `coefficient * 10 ^ exponent` with a sign, or a special value. -/
inductive Decimal where
  | finite (negative : Bool) (coefficient : Nat) (exponent : Int)
  | infinite (negative : Bool)
  | undefined (negative signaling : Bool) (payload : Nat)
  deriving DecidableEq, Repr

namespace Decimal

def ofNat (n : Nat) : Decimal := .finite false n 0

def ofInt (n : Int) : Decimal := .finite (decide (n < 0)) n.natAbs 0

def zero : Decimal := ofNat 0

def one : Decimal := ofNat 1

def truth (value : Bool) : Decimal := if value then one else zero

def isNegative : Decimal → Bool
  | .finite negative _ _ | .infinite negative | .undefined negative _ _ => negative

def isUndefined : Decimal → Bool
  | .undefined .. => true
  | _ => false

def isSignaling : Decimal → Bool
  | .undefined _ signaling _ => signaling
  | _ => false

def isZero : Decimal → Bool
  | .finite _ coefficient _ => coefficient == 0
  | _ => false

def flip : Decimal → Decimal
  | .finite negative coefficient exponent => .finite (!negative) coefficient exponent
  | .infinite negative => .infinite (!negative)
  | x => x

def magnitude : Decimal → Decimal
  | .finite _ coefficient exponent => .finite false coefficient exponent
  | .infinite _ => .infinite false
  | x => x

def leading (coefficient : Nat) (exponent : Int) : Int := exponent + digitCount coefficient - 1

/-- A coefficient with `places` digits dropped. More places than the coefficient has digits need
no power of ten: what is dropped is then the whole coefficient, and less than a half. -/
def dropPlaces (mode : Rounding) (negative : Bool) (coefficient places : Nat) : Nat :=
  if digitCount coefficient < places then mode.quotient negative (min coefficient 1) 10
  else mode.quotient negative coefficient (Nat.pow 10 places)

def whole? (coefficient : Nat) (exponent : Int) : Option Nat :=
  if 0 ≤ exponent then some (coefficient * Nat.pow 10 exponent.toNat)
  else if coefficient = 0 then some 0
  else if digitCount coefficient < (-exponent).toNat then none
  else if coefficient % Nat.pow 10 (-exponent).toNat = 0 then
    some (coefficient / Nat.pow 10 (-exponent).toNat)
  else none

def signed (negative : Bool) (n : Nat) : Int := if negative then -(n : Int) else n

def toInt? : Decimal → Option Int
  | .finite negative coefficient exponent => (whole? coefficient exponent).map (signed negative)
  | _ => none

def isWhole (coefficient : Nat) (exponent : Int) : Bool :=
  decide (0 ≤ exponent) || (whole? coefficient exponent).isSome

def isOdd (coefficient : Nat) (exponent : Int) : Bool :=
  exponent ≤ 0 &&
    match whole? coefficient exponent with
    | some n => n % 2 == 1
    | none => false

/-- The order of two positive magnitudes. The leading digits decide unless they stand at the same
place. -/
def compareMagnitudes (c : Nat) (p : Int) (d : Nat) (q : Int) : Ordering :=
  if c = 0 then (if d = 0 then .eq else .lt)
  else if d = 0 then .gt
  else if leading c p ≠ leading d q then compare (leading c p) (leading d q)
  else compare (c * Nat.pow 10 (p - min p q).toNat) (d * Nat.pow 10 (q - min p q).toNat)

def compare? (x y : Decimal) : Option Ordering :=
  match x, y with
  | .undefined .., _ | _, .undefined .. => none
  | .infinite m, .infinite n => some (compare n.toNat m.toNat)
  | .infinite m, .finite .. => some (if m then .lt else .gt)
  | .finite .., .infinite n => some (if n then .gt else .lt)
  | .finite m c p, .finite n d q =>
    if c = 0 ∧ d = 0 then some .eq
    else
      match m, n with
      | false, false => some (compareMagnitudes c p d q)
      | true, true => some (compareMagnitudes d q c p)
      | true, false => some .lt
      | false, true => some .gt

end Decimal
end InfixCalc
