import InfixCalc.Decimal.Arithmetic
import InfixCalc.Grid.Functions
import InfixCalc.Mixed.Value

/-!
# Arithmetic of mixed values

Operands of different kinds meet at the wider kind: whole numbers become doubles, complex numbers,
decimals or cells as the other operand asks, and doubles become complex numbers or cells. Other
pairs of kinds do not meet.
-/

namespace InfixCalc.Value

inductive Operands where
  | wholes (m n : Int)
  | reals (x y : Float)
  | decimals (x y : Decimal)
  | complexes (z w : Complex)
  | grids (g h : Grid)
  | texts (s t : String)
  | unlike

def realOfWhole (n : Int) : Outcome Float :=
  let x := Binary64.ofInt n
  if x.isInf then .error (.unusable .integerTooLarge) else .ok x

def gridOfWhole (n : Int) : Grid := ⟨[], .wholes [Int64.ofInt n]⟩

def meet : Value → Value → Outcome Operands
  | .whole m, .whole n => .ok (.wholes m n)
  | .real x, .real y => .ok (.reals x y)
  | .decimal x, .decimal y => .ok (.decimals x y)
  | .complex z, .complex w => .ok (.complexes z w)
  | .grid g, .grid h => .ok (.grids g h)
  | .text s, .text t => .ok (.texts s t)
  | .whole m, .real y => do return .reals (← realOfWhole m) y
  | .real x, .whole n => do return .reals x (← realOfWhole n)
  | .whole m, .decimal y => .ok (.decimals (Decimal.ofInt m) y)
  | .decimal x, .whole n => .ok (.decimals x (Decimal.ofInt n))
  | .whole m, .complex w => do return .complexes (Complex.ofReal (← realOfWhole m)) w
  | .complex z, .whole n => do return .complexes z (Complex.ofReal (← realOfWhole n))
  | .real x, .complex w => .ok (.complexes (Complex.ofReal x) w)
  | .complex z, .real y => .ok (.complexes z (Complex.ofReal y))
  | .whole m, .grid h => .ok (.grids (gridOfWhole m) h)
  | .grid g, .whole n => .ok (.grids g (gridOfWhole n))
  | .real x, .grid h => .ok (.grids (Grid.ofFloat x) h)
  | .grid g, .real y => .ok (.grids g (Grid.ofFloat y))
  | _, _ => .ok .unlike

def unsuited {α : Type} : Outcome α := .error (.failure .unsuitedOperand)

def decimals : Context := Context.standard 28 .halfEven

def add (v w : Value) : Outcome Value := do
  match ← meet v w with
  | .wholes m n => return .whole (m + n)
  | .reals x y => return .real (x + y)
  | .decimals x y => return .decimal (← decimals.add x y)
  | .complexes z w => return .complex (Complex.add z w)
  | .grids g h => return .grid (← Fault.adapted (g.add h))
  | .texts s t => return .text (s ++ t)
  | .unlike => unsuited

def sub (v w : Value) : Outcome Value := do
  match ← meet v w with
  | .wholes m n => return .whole (m - n)
  | .reals x y => return .real (x - y)
  | .decimals x y => return .decimal (← decimals.sub x y)
  | .complexes z w => return .complex (Complex.sub z w)
  | .grids g h => return .grid (← Fault.adapted (g.sub h))
  | .texts _ _ | .unlike => unsuited

def repeated (count : Int) (s : String) : String := String.join (List.replicate count.toNat s)

def mul (v w : Value) : Outcome Value := do
  match v, w with
  | .text s, .whole n | .whole n, .text s => return .text (repeated n s)
  | _, _ =>
    match ← meet v w with
    | .wholes m n => return .whole (m * n)
    | .reals x y => return .real (x * y)
    | .decimals x y => return .decimal (← decimals.mul x y)
    | .complexes z w => return .complex (Complex.mul z w)
    | .grids g h => return .grid (← Fault.adapted (g.mul h))
    | .texts _ _ | .unlike => unsuited

def floorDiv (v w : Value) : Outcome Value := do
  match ← meet v w with
  | .wholes m n => if n = 0 then .error .zeroDivisor else return .whole (m.fdiv n)
  | .reals x y => if y == 0 then .error .zeroDivisor else return .real (Binary64.floorQuotient x y)
  | .decimals x y => return .decimal (← decimals.integerQuotient x y)
  | .grids g h => return .grid (← Fault.adapted (g.floorDiv h))
  | .complexes _ _ | .texts _ _ | .unlike => unsuited

def negate : Value → Outcome Value
  | .whole n => .ok (.whole (-n))
  | .real x => .ok (.real (-x))
  | .decimal x => return .decimal (← decimals.minus x)
  | .complex z => .ok (.complex z.neg)
  | .grid g => return .grid (← Fault.adapted g.negate)
  | .text _ | .pair .. | .nothing => unsuited

def less (v w : Value) : Outcome Bool := do
  match ← meet v w with
  | .wholes m n => return decide (m < n)
  | .reals x y => return decide (x < y)
  | .decimals x y => return (← Context.order x y) == .lt
  | .grids g h =>
    let flags ← Fault.adapted (g.compare Grid.lessThan h)
    match flags.cells.toFlags with
    | [flag] => return flag
    | _ => unsuited
  | .texts s t => return decide (s < t)
  | .complexes _ _ | .unlike => unsuited

def half : Value → Outcome Value
  | .whole n =>
    let x := Binary64.ofRatio (decide (n < 0)) n.natAbs 2
    if x.isInf then .error (.unusable .integerTooLarge) else .ok (.real x)
  | .real x => .ok (.real (x / 2))
  | .decimal x => return .decimal (← decimals.div x (Decimal.ofNat 2))
  | .complex z => return .complex (← Complex.div z (Complex.ofReal 2))
  | .grid g => return .grid (← Fault.adapted (g.combineReals (· / ·) (Grid.ofFloat 2)))
  | .text _ | .pair .. | .nothing => unsuited

/-- The number of characters of a text, of members of a pair, or of rows of a grid. -/
def length : Value → Outcome Int
  | .text s => .ok s.length
  | .pair .. => .ok 2
  | .grid ⟨rows :: _, _⟩ => .ok rows
  | _ => unsuited

end InfixCalc.Value
