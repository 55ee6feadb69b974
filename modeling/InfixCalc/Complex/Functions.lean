import InfixCalc.Complex.Basic

/-!
# Elementary functions of complex numbers

Exponentials, logarithms, roots and the trigonometric and hyperbolic functions with their inverses.
Every function keeps the sign of zeros along its branch cuts. Arguments with a part that is not
finite have limits of their own, which stand before the formula of each function. Circular
functions are hyperbolic functions of the argument turned by a right angle.
-/

namespace InfixCalc.Complex

open InfixCalc.Binary64

def large : Float := 1.7976931348623157e308 / 4

def smallestNormal : Float := 2.2250738585072014e-308

def lnTwo : Float := 0.6931471805599453

def lnTen : Float := 2.302585092994046

def quarterTurn : Float := pi / 2

def turn (z : Complex) : Complex := ⟨-z.im, z.re⟩

def turnBack (z : Complex) : Complex := ⟨z.im, -z.re⟩

/-- An infinite part with the sign of another one, which counts as positive if it is undefined. -/
def infinityLike (x : Float) : Float := if x.isNaN then infinity else withSignOf infinity x

/-- A zero part with the sign of another one, which counts as positive if it is undefined. -/
def zeroLike (x : Float) : Float := if x.isNaN then 0 else withSignOf 0 x

def inRange (z : Complex) : Outcome Complex :=
  if z.isInfinite then .error (.unusable .range) else .ok z

def limit (unbounded : Bool) (z : Complex) : Outcome Complex :=
  if unbounded then .error (.unusable .domain) else .ok z

def sqrtLimit (z : Complex) : Complex :=
  if z.im.isInf then ⟨infinity, z.im⟩
  else if z.re.isInf then
    if z.re > 0 then ⟨infinity, if z.im.isNaN then z.im else zeroLike z.im⟩
    else if z.im.isNaN then ⟨z.im, infinity⟩
    else ⟨0, infinityLike z.im⟩
  else ⟨undefined, undefined⟩

/-- The length of a root and the size of its other part. Small arguments are scaled up and others
down. -/
def sqrtParts (x y : Float) : Float × Float :=
  let s :=
    if x < smallestNormal && y < smallestNormal then
      let scaled := x.scaleB 53
      (scaled + hypotenuse scaled (y.scaleB 53)).sqrt.scaleB (-27)
    else 2 * (x / 8 + hypotenuse (x / 8) (y / 8)).sqrt
  (s, y / (2 * s))

def sqrt (z : Complex) : Complex :=
  if !z.isFinite then sqrtLimit z
  else if z.re == 0 && z.im == 0 then ⟨0, z.im⟩
  else
    let (s, d) := sqrtParts z.re.abs z.im.abs
    if z.re >= 0 then ⟨s, withSignOf d z.im⟩ else ⟨d, withSignOf s z.im⟩

def expLimit (z : Complex) : Outcome Complex :=
  let unbounded := z.im.isInf && (z.re.isFinite || z.re == infinity)
  limit unbounded (
    if z.re.isInf then
      if z.im.isFinite && z.im != 0 then
        if z.re > 0 then ⟨infinityLike z.im.cos, infinityLike z.im.sin⟩
        else ⟨zeroLike z.im.cos, zeroLike z.im.sin⟩
      else if z.re > 0 then ⟨infinity, if z.im == 0 then z.im else undefined⟩
      else ⟨0, if z.im == 0 then z.im else 0⟩
    else ⟨undefined, if z.re.isNaN && z.im == 0 then z.im else undefined⟩)

def exp (z : Complex) : Outcome Complex :=
  if !z.isFinite then expLimit z
  else if z.re > large.log then
    let l := (z.re - 1).exp
    inRange ⟨l * z.im.cos * e, l * z.im.sin * e⟩
  else
    let l := z.re.exp
    inRange ⟨l * z.im.cos, l * z.im.sin⟩

/-- The logarithm of the distance from zero. Distances near one are taken by their difference to
one. -/
def lnModulus (x y : Float) : Float :=
  if x > large || y > large then (hypotenuse (x / 2) (y / 2)).log + lnTwo
  else if x < smallestNormal && y < smallestNormal then
    (hypotenuse (x.scaleB 53) (y.scaleB 53)).log - 53 * lnTwo
  else
    let h := hypotenuse x y
    if 0.71 <= h && h <= 1.73 then
      let (most, least) := if x > y then (x, y) else (y, x)
      lnSucc ((most - 1) * (most + 1) + least * least) / 2
    else h.log

def ln (z : Complex) : Outcome Complex :=
  if !z.isFinite then
    .ok (if z.isInfinite then ⟨infinity, z.argument⟩ else ⟨undefined, undefined⟩)
  else if z.re == 0 && z.im == 0 then .error (.unusable .domain)
  else .ok ⟨lnModulus z.re.abs z.im.abs, z.argument⟩

def log10 (z : Complex) : Outcome Complex := do
  let r ← ln z
  return ⟨r.re / lnTen, r.im / lnTen⟩

def logBase (base z : Complex) : Outcome Complex := do
  let numerator ← ln z
  let denominator ← ln base
  div numerator denominator

/-- A hyperbolic function of a finite argument; one with a large real part is taken one step nearer
to zero. -/
def hyperbolic (f g : Float → Float) (z : Complex) : Outcome Complex :=
  if z.re.abs > large.log then
    let x := z.re - withSignOf 1 z.re
    inRange ⟨z.im.cos * f x * e, z.im.sin * g x * e⟩
  else inRange ⟨z.im.cos * f z.re, z.im.sin * g z.re⟩

def coshLimit (z : Complex) : Complex :=
  if z.re.isInf then
    if z.im == 0 then ⟨infinity, withSignOf 1 z.re * z.im⟩
    else if z.im.isFinite then
      ⟨infinityLike z.im.cos, withSignOf 1 z.re * infinityLike z.im.sin⟩
    else ⟨infinity, undefined⟩
  else if z.re == 0 || (z.re.isNaN && z.im == 0) then ⟨undefined, 0⟩
  else ⟨undefined, undefined⟩

def cosh (z : Complex) : Outcome Complex :=
  if z.isFinite then hyperbolic Float.cosh Float.sinh z
  else limit (z.im.isInf && !z.re.isNaN) (coshLimit z)

def sinhLimit (z : Complex) : Complex :=
  if z.re.isInf then
    if z.im == 0 then z
    else if z.im.isFinite then
      ⟨withSignOf 1 z.re * infinityLike z.im.cos, infinityLike z.im.sin⟩
    else ⟨infinity, undefined⟩
  else if z.re == 0 then ⟨0, undefined⟩
  else ⟨undefined, if z.re.isNaN && z.im == 0 then z.im else undefined⟩

def sinh (z : Complex) : Outcome Complex :=
  if z.isFinite then hyperbolic Float.sinh Float.cosh z
  else limit (z.im.isInf && !z.re.isNaN) (sinhLimit z)

def tanhLimit (z : Complex) : Complex :=
  if z.re.isInf then
    ⟨withSignOf 1 z.re,
      if z.im == 0 then z.im
      else if z.im.isFinite then zeroLike (2 * z.im.sin * z.im.cos)
      else 0⟩
  else if z.re == 0 then ⟨z.re, undefined⟩
  else ⟨undefined, if z.re.isNaN && z.im == 0 then z.im else undefined⟩

def tanh (z : Complex) : Outcome Complex :=
  if !z.isFinite then limit (z.im.isInf && z.re.isFinite) (tanhLimit z)
  else if z.re.abs > large.log then
    .ok ⟨withSignOf 1 z.re, 4 * z.im.sin * z.im.cos * (-2 * z.re.abs).exp⟩
  else
    let tx := z.re.tanh
    let ty := z.im.tan
    let cx := 1 / z.re.cosh
    let product := tx * ty
    let denominator := 1 + product * product
    .ok ⟨tx * (1 + ty * ty) / denominator, ty / denominator * cx * cx⟩

def lnTwice (z : Complex) : Float := (hypotenuse (z.re / 2) (z.im / 2)).log + lnTwo * 2

def isLarge (z : Complex) : Bool := z.re.abs > large || z.im.abs > large

def acosLimit (z : Complex) : Complex :=
  if z.isInfinite then
    ⟨Float.atan2 z.im.abs z.re, if z.im.isNaN then infinity else -(withSignOf infinity z.im)⟩
  else ⟨if z.re == 0 then quarterTurn else undefined, undefined⟩

def acos (z : Complex) : Complex :=
  if !z.isFinite then acosLimit z
  else if z.isLarge then
    ⟨Float.atan2 z.im.abs z.re, -(withSignOf (lnTwice z) z.im)⟩
  else
    let s := sqrt ⟨1 - z.re, -z.im⟩
    let t := sqrt ⟨1 + z.re, z.im⟩
    ⟨2 * Float.atan2 s.re t.re, (t.re * s.im - t.im * s.re).asinh⟩

def acoshLimit (z : Complex) : Complex :=
  if z.isInfinite then ⟨infinity, z.argument⟩
  else ⟨undefined, if z.re == 0 then quarterTurn else undefined⟩

def acosh (z : Complex) : Complex :=
  if !z.isFinite then acoshLimit z
  else if z.isLarge then ⟨lnTwice z, z.argument⟩
  else
    let s := sqrt ⟨z.re - 1, z.im⟩
    let t := sqrt ⟨z.re + 1, z.im⟩
    ⟨(s.re * t.re + s.im * t.im).asinh, 2 * Float.atan2 s.im t.re⟩

def asinhLimit (z : Complex) : Complex :=
  if z.isInfinite then ⟨infinityLike z.re, Float.atan2 z.im z.re.abs⟩
  else ⟨undefined, if z.re.isNaN && z.im == 0 then z.im else undefined⟩

def asinh (z : Complex) : Complex :=
  if !z.isFinite then asinhLimit z
  else if z.isLarge then
    ⟨withSignOf (lnTwice z) z.re, Float.atan2 z.im z.re.abs⟩
  else
    let s := sqrt ⟨1 + z.im, -z.re⟩
    let t := sqrt ⟨1 - z.im, z.re⟩
    ⟨(s.re * t.im - t.re * s.im).asinh, Float.atan2 z.im (s.re * t.re - s.im * t.im)⟩

def atanhLimit (z : Complex) : Complex :=
  if z.isInfinite then
    ⟨zeroLike z.re, if z.im.isNaN then z.im else withSignOf quarterTurn z.im⟩
  else ⟨if z.re == 0 then z.re else undefined, undefined⟩

/-- The inverse hyperbolic tangent of a finite number with a real part that is not negative. It has
a pole at one. -/
def atanhRight (z : Complex) : Outcome Complex :=
  let y := z.im.abs
  if z.re > large.sqrt || y > large.sqrt then
    let h := hypotenuse (z.re / 2) (z.im / 2)
    .ok ⟨z.re / 4 / h / h, withSignOf quarterTurn z.im⟩
  else if z.re == 1 && y < smallestNormal.sqrt then
    if y == 0 then .error (.unusable .domain)
    else
      .ok ⟨-(y.sqrt / (hypotenuse y 2).sqrt).log, withSignOf (Float.atan2 2 (-y) / 2) z.im⟩
  else
    .ok ⟨lnSucc (4 * z.re / ((1 - z.re) * (1 - z.re) + y * y)) / 4,
      -(Float.atan2 (-2 * z.im) ((1 - z.re) * (1 + z.re) - y * y)) / 2⟩

def atanh (z : Complex) : Outcome Complex :=
  if !z.isFinite then .ok (atanhLimit z)
  else if isNegative z.re then (atanhRight z.neg).map neg
  else atanhRight z

def sin (z : Complex) : Outcome Complex := (sinh z.turn).map turnBack

def cos (z : Complex) : Outcome Complex := cosh z.turn

def tan (z : Complex) : Outcome Complex := (tanh z.turn).map turnBack

def asin (z : Complex) : Complex := (asinh z.turn).turnBack

def atan (z : Complex) : Outcome Complex := (atanh z.turn).map turnBack

end InfixCalc.Complex
