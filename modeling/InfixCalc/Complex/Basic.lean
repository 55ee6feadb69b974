import InfixCalc.Binary64.Functions
import InfixCalc.Real.Format

/-!
# Complex numbers

Pairs of doubles with arithmetic part by part. The quotient is scaled by the larger part of the
divisor, so that it overflows only where it must. Integer powers up to a hundred are products; other
powers go through the polar form.

In expressions a number is its real part, then its imaginary part with the unit `i`, and a part
that is zero is left out. Messages and listings show both parts between parentheses with the unit
`j`. A literal is a real number or an imaginary one, which ends in `i`.
-/

namespace InfixCalc

open InfixCalc.Binary64

/-- A complex number by its real and imaginary part. -/
structure Complex where
  re : Float
  im : Float

namespace Complex

def ofReal (x : Float) : Complex := ⟨x, 0⟩

def zero : Complex := ⟨0, 0⟩

def one : Complex := ⟨1, 0⟩

def i : Complex := ⟨0, 1⟩

def neg (z : Complex) : Complex := ⟨-z.re, -z.im⟩

def add (z w : Complex) : Complex := ⟨z.re + w.re, z.im + w.im⟩

def sub (z w : Complex) : Complex := ⟨z.re - w.re, z.im - w.im⟩

def mul (z w : Complex) : Complex := ⟨z.re * w.re - z.im * w.im, z.re * w.im + z.im * w.re⟩

def div (z w : Complex) : Outcome Complex :=
  if w.im.abs <= w.re.abs then
    if w.re == 0 then .error .zeroDivisor
    else
      let ratio := w.im / w.re
      let denominator := w.re + w.im * ratio
      .ok ⟨(z.re + z.im * ratio) / denominator, (z.im - z.re * ratio) / denominator⟩
  else if w.re.abs <= w.im.abs then
    let ratio := w.re / w.im
    let denominator := w.re * ratio + w.im
    .ok ⟨(z.re * ratio + z.im) / denominator, (z.im * ratio - z.re) / denominator⟩
  else .ok ⟨undefined, undefined⟩

def isFinite (z : Complex) : Bool := z.re.isFinite && z.im.isFinite

def isInfinite (z : Complex) : Bool := z.re.isInf || z.im.isInf

def modulus (z : Complex) : Outcome Float :=
  let r := hypotenuse z.re z.im
  if z.isFinite && !r.isFinite then .error (.unusable .modulusTooLarge) else .ok r

def argument (z : Complex) : Float := Float.atan2 z.im z.re

/-- The power with a natural number as exponent, by repeated squaring from the lowest binary digit.
-/
def naturalPower (z : Complex) (n : Nat) : Complex :=
  ((List.range (n.log2 + 1)).foldl (fun (product, square) k =>
    (if n.testBit k then mul product square else product, mul square square)) (one, z)).1

def integerPower (z : Complex) (n : Int) : Outcome Complex :=
  if 0 < n then .ok (z.naturalPower n.toNat) else div one (z.naturalPower n.natAbs)

def productExponent? (w : Complex) : Option Int :=
  if w.im == 0 && w.re.abs <= 100 then toInt? w.re else none

/-- The power by way of the polar form. Zero has no negative and no complex powers, and an infinite
angle has no direction. -/
def polarPower (z w : Complex) : Outcome Complex :=
  if z.re == 0 && z.im == 0 then
    if w.im != 0 || w.re < 0 then .error .zeroDivisor else .ok zero
  else
    let radius := hypotenuse z.re z.im
    let angle := z.argument
    let (length, phase) :=
      if w.im != 0 then
        (radius.pow w.re / (angle * w.im).exp, angle * w.re + w.im * radius.log)
      else (radius.pow w.re, angle * w.re)
    if phase.isInf then .error .zeroDivisor
    else .ok ⟨length * phase.cos, length * phase.sin⟩

def power (z w : Complex) : Outcome Complex := do
  let r ← match productExponent? w with
    | some n => integerPower z n
    | none => polarPower z w
  if r.isInfinite then .error (.unusable .powerTooLarge) else .ok r

/- Text. -/

def format (z : Complex) : String :=
  if z.im == 0 then Real.format z.re
  else
    let size := if z.im.abs == 1 then "" else Real.format z.im.abs
    let sign := if z.im < 0 then "-" else ""
    if z.re == 0 then sign ++ size ++ "i"
    else Real.format z.re ++ (if z.im < 0 then "-" else "+") ++ size ++ "i"

/-- The number in messages and listings. A real part of positive zero is left out. -/
def text (z : Complex) : String :=
  let imaginary := Binary64.plain.text z.im
  if z.re == 0 && !Binary64.isNegative z.re then imaginary ++ "j"
  else
    let sign := if imaginary.startsWith "-" then "" else "+"
    "(" ++ Binary64.plain.text z.re ++ sign ++ imaginary ++ "j)"

instance : Shown Complex := ⟨text, text⟩

def read (literal : String) : Option Complex :=
  let trimmed := (literal.toList.reverse.dropWhile Text.isBlank)
  match trimmed with
  | 'i' :: rest => (Binary64.read (String.ofList rest.reverse)).map fun y => ⟨0, y⟩
  | _ => (Binary64.read (String.ofList trimmed.reverse)).map ofReal

end Complex
end InfixCalc
