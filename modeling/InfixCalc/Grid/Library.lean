import InfixCalc.Arrays.Vocabulary
import InfixCalc.Grid.Functions

/-!
# Grids as a library

The library that the calculator over grids runs with. It has cells of three kinds only: where a
narrower kind of number would do for flags, it computes with the widest one.
-/

namespace InfixCalc.Grid

def comparison : ArrayLibrary.Binary → Comparison
  | .greater => ⟨fun x y => x && !y, fun x y => x > y, fun x y => x > y⟩
  | .lessEqual => ⟨fun x y => !x || y, fun x y => x <= y, fun x y => x <= y⟩
  | .greaterEqual => ⟨fun x y => x || !y, fun x y => x >= y, fun x y => x >= y⟩
  | .equal => ⟨fun x y => x == y, fun x y => x == y, fun x y => x == y⟩
  | .notEqual => ⟨fun x y => x != y, fun x y => x != y, fun x y => x != y⟩
  | _ => lessThan

def unary : ArrayLibrary.Unary → Grid → Except Fault Grid
  | .negative => negate
  | .absolute => .ok ∘ abs
  | .floor => .ok ∘ mapRounding Float.floor
  | .ceil => .ok ∘ mapRounding Float.ceil
  | .degrees => .ok ∘ mapReals Binary64.degrees
  | .radians => .ok ∘ mapReals Binary64.radians
  | .exp => .ok ∘ mapReals Float.exp
  | .log => .ok ∘ mapReals Float.log
  | .log10 => .ok ∘ mapReals Float.log10
  | .sqrt => .ok ∘ mapReals Float.sqrt
  | .cbrt => .ok ∘ mapReals Float.cbrt
  | .sin => .ok ∘ mapReals Float.sin
  | .cos => .ok ∘ mapReals Float.cos
  | .tan => .ok ∘ mapReals Float.tan
  | .arcsin => .ok ∘ mapReals Float.asin
  | .arccos => .ok ∘ mapReals Float.acos
  | .arctan => .ok ∘ mapReals Float.atan
  | .sinh => .ok ∘ mapReals Float.sinh
  | .cosh => .ok ∘ mapReals Float.cosh
  | .tanh => .ok ∘ mapReals Float.tanh
  | .arcsinh => .ok ∘ mapReals Float.asinh
  | .arccosh => .ok ∘ mapReals Float.acosh
  | .arctanh => .ok ∘ mapReals Float.atanh

def binary : ArrayLibrary.Binary → Grid → Grid → Except Fault Grid
  | .add => add
  | .subtract => sub
  | .multiply => mul
  | .divide => combineReals (· / ·)
  | .modulo => modulo
  | .power => combineReals Float.pow
  | operation => compare (comparison operation)

/-- How a double is written where a function tells of it: a single one keeps its kind. -/
def realText (single : Bool) (x : Float) : String :=
  if single && !(Binary64.isInteger x && x.abs < 1e16) then "np.float64(" ++ Binary64.text x ++ ")"
  else Real.format x

def itemText (g : Grid) : Item → String
  | .flag b => if b then "True" else "False"
  | .whole n => toString n
  | .real x => realText g.shape.isEmpty x

def full (count : Nat) : Item → Grid
  | .flag b => ⟨[count], .flags (List.replicate count b)⟩
  | .whole n => ⟨[count], .wholes (List.replicate count (Int64.ofInt n))⟩
  | .real x => ⟨[count], .reals (List.replicate count x)⟩

def library : ArrayLibrary Grid where
  ofFloat := ofFloat
  plain := ofFloat
  toFloat? := toFloat?
  shape := shape
  kind g := g.cells.kind
  items g := g.cells.items
  itemText := itemText
  unary := unary
  binary := binary
  select := select
  broadcast := broadcast
  stack := stack
  reduce := reduce
  reals shape xs := ⟨shape, .reals xs⟩
  asArray := id
  full := full

end InfixCalc.Grid
