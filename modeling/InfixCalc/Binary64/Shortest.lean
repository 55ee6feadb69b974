import InfixCalc.Binary64.Fields

/-!
# Shortest decimal digits

The fewest decimal digits that still name a double: of all decimal numbers that round to it, one
with the least number of digits, and among those the nearest. The search walks the decimal grids
from one digit up to seventeen and tests the two neighbours of the exact value on each grid.
-/

namespace InfixCalc.Binary64

open InfixCalc.Number

/-- A positive decimal number `digits * 10 ^ exponent`. -/
structure Digits where
  digits : Nat
  exponent : Int
  deriving DecidableEq, Repr

def decimalExponent (num den : Nat) : Int :=
  let guess : Int := (digitCount num : Int) - digitCount den
  let below :=
    if 0 ≤ guess then num < den * Nat.pow 10 guess.toNat else num * Nat.pow 10 (-guess).toNat < den
  if below then guess - 1 else guess

def inUnits (num den : Nat) (exponent : Int) : Nat × Nat :=
  if 0 ≤ exponent then (num, den * Nat.pow 10 exponent.toNat)
  else (num * Nat.pow 10 (-exponent).toNat, den)

/-- The reals that round to a double, in quarters of its last place: from `below / 4` under to two
quarters over, ends included for an even significand. A power of two has a nearer lower
neighbour. -/
structure Interval where
  low : Nat
  high : Nat
  closed : Bool
  unit : Int

def interval (significand : Nat) (exponent : Int) : Interval where
  low := 4 * significand - (if significand = Nat.pow 2 52 && leastExponent < exponent then 1 else 2)
  high := 4 * significand + 2
  closed := significand % 2 == 0
  unit := exponent - 2

def Interval.contains (i : Interval) (d : Digits) : Bool :=
  let scaled (side : Nat) : Nat :=
    side * (if 0 ≤ i.unit then Nat.pow 2 i.unit.toNat else 1) *
      (if 0 ≤ d.exponent then 1 else Nat.pow 10 (-d.exponent).toNat)
  let point :=
    d.digits * (if 0 ≤ d.exponent then Nat.pow 10 d.exponent.toNat else 1) *
      (if 0 ≤ i.unit then 1 else Nat.pow 2 (-i.unit).toNat)
  if i.closed then scaled i.low ≤ point && point ≤ scaled i.high
  else scaled i.low < point && point < scaled i.high

/-- The nearer of the two neighbours of `num / den` on the grid `10 ^ exponent` that lie in the
interval; a tie goes to the even one. -/
def onGrid (i : Interval) (num den : Nat) (exponent : Int) : Option Digits :=
  let (n, d) := inUnits num den exponent
  let near := Rounding.halfEven.quotient false n d
  let far := if near = n / d then n / d + 1 else n / d
  if i.contains ⟨near, exponent⟩ then some ⟨near, exponent⟩
  else if i.contains ⟨far, exponent⟩ then some ⟨far, exponent⟩
  else none

def stripZeros (d : Digits) : Digits :=
  if h : d.digits ≠ 0 ∧ d.digits % 10 = 0 then stripZeros ⟨d.digits / 10, d.exponent + 1⟩ else d
termination_by d.digits
decreasing_by exact Nat.div_lt_self (Nat.pos_of_ne_zero h.1) (by decide)

/-- The shortest digits of `significand * 2 ^ exponent`; seventeen always suffice. -/
def shortest (significand : Nat) (exponent : Int) : Digits :=
  let (num, den) := ratio significand exponent
  let i := interval significand exponent
  let top := decimalExponent num den
  let grids := (List.range 17).map fun (n : Nat) => top - (n : Int)
  stripZeros ((grids.findSome? (onGrid i num den)).getD ⟨num, 0⟩)

/-- `significand * 2 ^ exponent` rounded to `count` significant digits, ties to even. -/
def significant (count significand : Nat) (exponent : Int) : Digits :=
  let (num, den) := ratio significand exponent
  let unit := decimalExponent num den - ((count : Int) - 1)
  let (n, d) := inUnits num den unit
  let rounded := Rounding.halfEven.quotient false n d
  if rounded = Nat.pow 10 count then ⟨Nat.pow 10 (count - 1), unit + 1⟩ else ⟨rounded, unit⟩

end InfixCalc.Binary64
