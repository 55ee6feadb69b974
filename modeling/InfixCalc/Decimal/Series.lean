import InfixCalc.Decimal.Arithmetic

/-!
# Series of decimal numbers

The circle number, sines and cosines are sums of series that are added up until a sum repeats, with
two digits more than the context. The sums move on a grid of numbers with a fixed number of digits
while the terms shrink. Most sums come to rest so, but those of an undefined argument never do, and
in some rounding modes neither do those that hover at the last place of the context.
-/

namespace InfixCalc.Context

def extended (ctx : Context) : Context := { ctx with precision := ctx.precision + 2 }

/-- Rounds enough for every sum that ever comes to rest, and for every power that ever leaves the
context. -/
def patience (ctx : Context) : Nat := Nat.pow 10 (ctx.precision + 6)

def endless {α : Type} : Outcome α := .error (.unusable .endlessSeries)

/-- The sum of a series for the circle number: each term is the one before times `n / d`. -/
structure CircleSum where
  term : Decimal
  sum : Decimal
  n : Nat
  nStep : Nat
  d : Nat
  dStep : Nat

def CircleSum.start : CircleSum := ⟨.ofNat 3, .ofNat 3, 1, 0, 0, 24⟩

def CircleSum.next (work : Context) (s : CircleSum) : Outcome CircleSum := do
  let n := s.n + s.nStep
  let d := s.d + s.dStep
  let term ← work.div (← work.mul s.term (.ofNat n)) (.ofNat d)
  let sum ← work.add s.sum term
  return ⟨term, sum, n, s.nStep + 8, d, s.dStep + 32⟩

def CircleSum.rest (work : Context) : Nat → CircleSum → Outcome Decimal
  | 0, _ => endless
  | rounds + 1, s => do
    let next ← s.next work
    if ← equal next.sum s.sum then return next.sum else next.rest work rounds

def pi (ctx : Context) : Outcome Decimal := do
  ctx.plus (← CircleSum.start.rest ctx.extended ctx.patience)

/-- The sum of an alternating series of powers of `x`, each divided by a factorial. -/
structure AngleSum where
  sum : Decimal
  power : Decimal
  index : Nat
  factorial : Nat
  negative : Bool

def AngleSum.next (work : Context) (x : Decimal) (s : AngleSum) : Outcome AngleSum := do
  let index := s.index + 2
  let factorial := s.factorial * (index * (index - 1))
  let power ← work.mul s.power (← work.mul x x)
  let negative := !s.negative
  let quotient ← work.div power (.ofNat factorial)
  let term ← work.mul quotient (if negative then Decimal.one.flip else .one)
  return ⟨← work.add s.sum term, power, index, factorial, negative⟩

def AngleSum.rest (work : Context) (x : Decimal) : Nat → Decimal → AngleSum → Outcome Decimal
  | 0, _, _ => endless
  | rounds + 1, last, s => do
    if ← equal s.sum last then return s.sum
    else (← s.next work x).rest work x rounds s.sum

def reduce (ctx : Context) (x : Decimal) : Outcome Decimal := do
  ctx.rem x (← ctx.mul (.ofNat 2) (← ctx.pi))

def sin (ctx : Context) (x : Decimal) : Outcome Decimal := do
  let x ← ctx.reduce x
  ctx.plus (← AngleSum.rest ctx.extended x ctx.patience .zero ⟨x, x, 1, 1, false⟩)

def cos (ctx : Context) (x : Decimal) : Outcome Decimal := do
  let x ← ctx.reduce x
  ctx.plus (← AngleSum.rest ctx.extended x ctx.patience .zero ⟨.one, .one, 0, 1, false⟩)

end InfixCalc.Context
