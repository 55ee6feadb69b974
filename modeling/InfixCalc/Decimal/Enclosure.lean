import InfixCalc.Decimal.Context

/-!
# Enclosures

Exponentials and logarithms are irrational, so they are known through pairs of integers around
them at a decimal scale that can be made as fine as needed. Series are summed twice, once with
every division cut down and once with every division cut up and a bound for the missing terms.
`Context.settle` refines the scale until both ends round alike.
-/

namespace InfixCalc

open InfixCalc.Number

/-- A positive real between `low` and `high` in units of `10 ^ exponent`. -/
structure Enclosure where
  low : Nat
  high : Nat
  exponent : Int
  deriving DecidableEq, Repr

def ceilDiv (num den : Nat) : Nat := (num + den - 1) / den

namespace Enclosure

/-- The terms of the exponential series of `r / scale` from the `n`-th on, cut down. -/
def expLow (scale r : Nat) : Nat → Nat → Nat → Nat
  | 0, _, _ => 0
  | count + 1, n, term =>
    if term = 0 then 0
    else term + expLow scale r count (n + 1) (term * r / (scale * (n + 1)))

/-- The terms of the exponential series of `r / scale` from the `n`-th on, cut up. From the sixth
term on each is less than half of the one before, as `r / scale` is below 3. -/
def expHigh (scale r : Nat) : Nat → Nat → Nat → Nat
  | 0, _, term => 2 * term
  | count + 1, n, term =>
    if term ≤ 1 ∧ 6 ≤ n then 2 * term
    else term + expHigh scale r count (n + 1) (ceilDiv (term * r) (scale * (n + 1)))

/-- The odd powers from the `n`-th on of `a / b`, each divided by its exponent, cut down. -/
def oddLow (a b : Nat) : Nat → Nat → Nat → Nat
  | 0, _, _ => 0
  | count + 1, n, power =>
    if power = 0 then 0
    else power / (2 * n + 1) + oddLow a b count (n + 1) (power * (a * a) / (b * b))

/-- The odd powers from the `n`-th on of `a / b`, each divided by its exponent, cut up. The terms
left out are fewer than as much again, as `a / b` is below 0.6. -/
def oddHigh (a b : Nat) : Nat → Nat → Nat → Nat
  | 0, n, power => 2 * ceilDiv power (2 * n + 1)
  | count + 1, n, power =>
    if power ≤ 1 then 2 * power
    else
      ceilDiv power (2 * n + 1) +
        oddHigh a b count (n + 1) (ceilDiv (power * (a * a)) (b * b))

def terms (digits : Nat) : Nat := 2 * digits + 20

/-- The natural logarithm of `num / den` between 1 and 4, in units of `10 ^ -digits`. It is twice
the area tangent of `(num - den) / (num + den)`. -/
def lnRatio (digits num den : Nat) : Nat × Nat :=
  let a := num - den
  let b := num + den
  let start := Nat.pow 10 digits * a
  (2 * oddLow a b (terms digits) 0 (start / b), 2 * oddHigh a b (terms digits) 0 (ceilDiv start b))

def lnTen (digits : Nat) : Nat × Nat :=
  let (twoLow, twoHigh) := lnRatio digits 2 1
  let (restLow, restHigh) := lnRatio digits 5 4
  (3 * twoLow + restLow, 3 * twoHigh + restHigh)

/-- The natural logarithm of a positive number, with its sign left out. The number is taken to lie
within a factor of about three around a power of ten. -/
def ln (coefficient : Nat) (exponent : Int) (digits : Nat) : Enclosure :=
  let top := Decimal.leading coefficient exponent
  let unit := Nat.pow 10 (digitCount coefficient - 1)
  let above : Bool := decide (317 * unit ≤ 100 * coefficient)
  let power := if above then top + 1 else top
  let den := if above then 10 * unit else unit
  let (tenLow, tenHigh) := lnTen digits
  let (partLow, partHigh) : Int × Int :=
    if den ≤ coefficient then
      let (low, high) := lnRatio digits coefficient den
      (low, high)
    else
      let (low, high) := lnRatio digits den coefficient
      (-(high : Int), -(low : Int))
  let low := power * (if 0 ≤ power then tenLow else tenHigh) + partLow
  let high := power * (if 0 ≤ power then tenHigh else tenLow) + partHigh
  if 0 ≤ top then ⟨low.toNat, high.toNat, -(digits : Int)⟩
  else ⟨(-high).toNat, (-low).toNat, -(digits : Int)⟩

def overLnTen (digits : Nat) (e : Enclosure) : Enclosure :=
  let (low, high) := lnTen digits
  ⟨e.low * Nat.pow 10 digits / high, ceilDiv (e.high * Nat.pow 10 digits) low, e.exponent⟩

def scaled (coefficient : Nat) (exponent : Int) (digits : Nat) : Nat × Nat :=
  let shift := exponent + digits
  if 0 ≤ shift then
    (coefficient * Nat.pow 10 shift.toNat, coefficient * Nat.pow 10 shift.toNat)
  else
    (Decimal.dropPlaces .down false coefficient (-shift).toNat,
      Decimal.dropPlaces .up false coefficient (-shift).toNat)

/-- The exponential of a number that is not zero: a power of ten that takes up the whole multiples
of its logarithm, and the series of the positive rest. -/
def exp (negative : Bool) (coefficient : Nat) (exponent : Int) (digits : Nat) : Enclosure :=
  let (low, high) := scaled coefficient exponent digits
  let (tenLow, tenHigh) := lnTen digits
  let (restLow, restHigh, power) : Nat × Nat × Int :=
    if negative then
      let k := high / tenLow + 1
      (k * tenLow - high, k * tenHigh - low, -(k : Int))
    else
      let k := low / tenHigh
      (low - k * tenHigh, high - k * tenLow, k)
  let scale := Nat.pow 10 digits
  ⟨expLow scale restLow (terms digits) 0 scale, expHigh scale restHigh (terms digits) 0 scale,
    power - digits⟩

end Enclosure

namespace Context

/-- Round an enclosed number at the first scale at which both ends give the same result; the scale
doubles with every attempt. -/
def settle (ctx : Context) (negative : Bool) (enclose : Nat → Enclosure) :
    Nat → Nat → Outcome Decimal
  | 0, digits =>
    let e := enclose digits
    ctx.round negative e.low e.exponent
  | attempts + 1, digits =>
    let e := enclose digits
    if ctx.precision < digitCount e.low ∧ e.low ≠ 0 ∧
        ctx.fit negative e.low e.exponent = ctx.fit negative e.high e.exponent then
      ctx.round negative e.low e.exponent
    else settle ctx negative enclose attempts (2 * digits)

def attempts : Nat := 40

end Context
end InfixCalc
