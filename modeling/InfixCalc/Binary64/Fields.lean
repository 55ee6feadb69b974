import InfixCalc.Number.Rounding

/-!
# Binary floating point numbers as integers

A finite double is `significand * 2 ^ exponent` with a sign. `decode` takes a double apart,
`ofRatio` rounds a quotient of natural numbers to the nearest double, ties to even, which is how
decimal texts, integers and exact results become doubles.
-/

namespace InfixCalc.Binary64

open InfixCalc.Number

inductive Parts where
  | finite (negative : Bool) (significand : Nat) (exponent : Int)
  | infinite (negative : Bool)
  | undefined
  deriving DecidableEq, Repr

def leastExponent : Int := -1074

def Parts.ofBits (bits : Nat) : Parts :=
  let negative := bits / Nat.pow 2 63 % 2 == 1
  let field : Nat := bits / Nat.pow 2 52 % Nat.pow 2 11
  let fraction : Nat := bits % Nat.pow 2 52
  if field = 2047 then
    if fraction = 0 then .infinite negative else .undefined
  else if field = 0 then .finite negative fraction leastExponent
  else .finite negative (Nat.pow 2 52 + fraction) ((field : Int) - 1075)

def decode (x : Float) : Parts := Parts.ofBits x.toBits.toNat

/-- The word of the finite or infinite double of a sign and a magnitude word. -/
def signed (negative : Bool) (word : Nat) : Float :=
  Float.ofBits (UInt64.ofNat (if negative then Nat.pow 2 63 + word else word))

def infinityWord : Nat := 2047 * Nat.pow 2 52

def binaryExponent (num den : Nat) : Int :=
  let guess : Int := (num.log2 : Int) - den.log2
  let below :=
    if 0 ≤ guess then num < den <<< guess.toNat else num <<< (-guess).toNat < den
  if below then guess - 1 else guess

/-- The magnitude word nearest to `num / den`, ties to even; the significand that rounds up to
`2 ^ 53` carries into the exponent field by itself. -/
def ratioWord (num den : Nat) : Nat :=
  if num = 0 then 0
  else
    let shift := max (binaryExponent num den - 52) leastExponent
    let significand :=
      if 0 ≤ shift then Rounding.halfEven.quotient false num (den <<< shift.toNat)
      else Rounding.halfEven.quotient false (num <<< (-shift).toNat) den
    if significand < Nat.pow 2 52 then significand
    else min infinityWord ((shift + 1075).toNat * Nat.pow 2 52 + (significand - Nat.pow 2 52))

def ofRatio (negative : Bool) (num den : Nat) : Float := signed negative (ratioWord num den)

def ofInt (n : Int) : Float := ofRatio (decide (n < 0)) n.natAbs 1

/-- The double nearest to `digits * 10 ^ exponent`. The exponents at which every such number is
infinite or zero need no power of ten. -/
def ofDecimal (negative : Bool) (digits : Nat) (exponent : Int) : Float :=
  if digits = 0 then signed negative 0
  else
    let size : Int := digitCount digits + exponent
    if 400 < size then signed negative infinityWord
    else if size < -400 then signed negative 0
    else if 0 ≤ exponent then ofRatio negative (digits * Nat.pow 10 exponent.toNat) 1
    else ofRatio negative digits (Nat.pow 10 (-exponent).toNat)

def ratio (significand : Nat) (exponent : Int) : Nat × Nat :=
  if 0 ≤ exponent then (significand <<< exponent.toNat, 1)
  else (significand, 1 <<< (-exponent).toNat)

def toInt? (x : Float) : Option Int :=
  match decode x with
  | .finite negative significand exponent =>
    let (num, den) := ratio significand exponent
    if num % den = 0 then
      some (if negative then -((num / den : Nat) : Int) else ((num / den : Nat) : Int))
    else none
  | _ => none

def isInteger (x : Float) : Bool := (toInt? x).isSome

def isNegative (x : Float) : Bool := x.toBits.toNat / Nat.pow 2 63 % 2 == 1

def floorInt? (x : Float) : Option Int :=
  match decode x with
  | .finite negative significand exponent =>
    let (num, den) := ratio significand exponent
    some (if negative then -((Rounding.up.quotient false num den : Nat) : Int)
      else ((num / den : Nat) : Int))
  | _ => none

end InfixCalc.Binary64
