import InfixCalc.Binary64.Functions
import InfixCalc.Grid.Basic

/-!
# Functions of grids

Operations work cell by cell on grids that are brought to a common shape and kind. Doubles outside
the domain of a function give the undefined value or an infinity; nothing is refused but unequal
shapes and the sign and the difference of flags.
-/

namespace InfixCalc.Grid

/-- Grids have no common shape. -/
def apart : Fault := .value "operands could not be broadcast together"

def mapReals (f : Float → Float) (g : Grid) : Grid := ⟨g.shape, .reals (g.cells.toReals.map f)⟩

def mapRounding (f : Float → Float) (g : Grid) : Grid :=
  match g.cells with
  | .reals xs => ⟨g.shape, .reals (xs.map f)⟩
  | _ => g

def abs (g : Grid) : Grid :=
  match g.cells with
  | .flags _ => g
  | .wholes xs => ⟨g.shape, .wholes (xs.map Int64.abs)⟩
  | .reals xs => ⟨g.shape, .reals (xs.map Float.abs)⟩

def negate (g : Grid) : Except Fault Grid :=
  match g.cells with
  | .flags _ => .error .unsuited
  | .wholes xs => .ok ⟨g.shape, .wholes (xs.map fun n => -n)⟩
  | .reals xs => .ok ⟨g.shape, .reals (xs.map fun x => -x)⟩

def combine (f : CellPairs → Cells) (g h : Grid) : Except Fault Grid :=
  match g.meet? h with
  | none => .error apart
  | some (shape, pairs) => .ok ⟨shape, f pairs⟩

def add : Grid → Grid → Except Fault Grid := combine fun
  | .flags xs ys => .flags (xs.zipWith (· || ·) ys)
  | .wholes xs ys => .wholes (xs.zipWith (· + ·) ys)
  | .reals xs ys => .reals (xs.zipWith (· + ·) ys)

def differences : CellPairs → Cells
  | .flags xs ys => .flags (xs.zipWith (· != ·) ys)
  | .wholes xs ys => .wholes (xs.zipWith (· - ·) ys)
  | .reals xs ys => .reals (xs.zipWith (· - ·) ys)

/-- The difference. Flags have none, whether their shapes can be joined or not. -/
def sub (g h : Grid) : Except Fault Grid :=
  if g.cells.kind = .flags ∧ h.cells.kind = .flags then .error .unsuited
  else combine differences g h

def mul : Grid → Grid → Except Fault Grid := combine fun
  | .flags xs ys => .flags (xs.zipWith (· && ·) ys)
  | .wholes xs ys => .wholes (xs.zipWith (· * ·) ys)
  | .reals xs ys => .reals (xs.zipWith (· * ·) ys)

def combineReals (f : Float → Float → Float) (g h : Grid) : Except Fault Grid :=
  match Shape.join? g.shape h.shape with
  | none => .error apart
  | some shape => .ok ⟨shape, .reals ((g.spread shape).toReals.zipWith f (h.spread shape).toReals)⟩

/-- The remainder of whole numbers, with the sign of the divisor; zero for a zero divisor. -/
def wholeRemainder (m n : Int64) : Int64 :=
  if n = 0 then 0 else Int64.ofInt (m.toInt.fmod n.toInt)

def modulo : Grid → Grid → Except Fault Grid := combine fun
  | .flags xs ys =>
    .wholes ((xs.map Cells.wholeOfFlag).zipWith wholeRemainder (ys.map Cells.wholeOfFlag))
  | .wholes xs ys => .wholes (xs.zipWith wholeRemainder ys)
  | .reals xs ys => .reals (xs.zipWith Binary64.remainder ys)

def wholeQuotient (m n : Int64) : Int64 :=
  if n = 0 then 0 else Int64.ofInt (m.toInt.fdiv n.toInt)

def floorDiv : Grid → Grid → Except Fault Grid := combine fun
  | .flags xs ys =>
    .wholes ((xs.map Cells.wholeOfFlag).zipWith wholeQuotient (ys.map Cells.wholeOfFlag))
  | .wholes xs ys => .wholes (xs.zipWith wholeQuotient ys)
  | .reals xs ys => .reals (xs.zipWith
      (fun x y => if y == 0 then x / y else Binary64.floorQuotient x y) ys)

structure Comparison where
  flags : Bool → Bool → Bool
  wholes : Int64 → Int64 → Bool
  reals : Float → Float → Bool

def lessThan : Comparison := ⟨fun x y => !x && y, fun x y => x < y, fun x y => x < y⟩

def compare (c : Comparison) : Grid → Grid → Except Fault Grid := combine fun
  | .flags xs ys => .flags (xs.zipWith c.flags ys)
  | .wholes xs ys => .flags (xs.zipWith c.wholes ys)
  | .reals xs ys => .flags (xs.zipWith c.reals ys)

/-- The first one of each pair where the flag holds, and otherwise the second one. -/
def selected (flags : List Bool) : CellPairs → Cells
  | .flags xs ys => .flags (choose xs ys)
  | .wholes xs ys => .wholes (choose xs ys)
  | .reals xs ys => .reals (choose xs ys)
where
  choose {α : Type} (xs ys : List α) : List α :=
    flags.zipWith (fun holds (x, y) => if holds then x else y) (xs.zip ys)

/-- Each cell of `condition` that holds selects the cell of `g` at its place, and each other one
the cell of `h`. -/
def select (condition g h : Grid) : Except Fault Grid :=
  match Shape.joinAll? [condition.shape, g.shape, h.shape] with
  | none => .error apart
  | some shape =>
    .ok ⟨shape, selected (condition.spread shape).toFlags
      (.of (g.spread shape) (h.spread shape))⟩

/- Layers. -/

def broadcast (grids : List Grid) : Except Fault (List Grid) :=
  match Shape.joinAll? (grids.map shape) with
  | none => .error apart
  | some shape => .ok (grids.map fun g => ⟨shape, g.spread shape⟩)

/-- The cells of many grids one after another, at the widest kind of them. -/
def gather (grids : List Grid) : Cells :=
  if grids.all fun g => g.cells.kind = .flags then .flags (grids.flatMap (·.cells.toFlags))
  else if grids.any fun g => g.cells.kind = .reals 64 then
    .reals (grids.flatMap (·.cells.toReals))
  else .wholes (grids.flatMap (·.cells.toWholes))

def stack (grids : List Grid) : Except Fault Grid :=
  match grids with
  | [] => .error (.value "need at least one array to stack")
  | g :: others =>
    if others.all fun h => h.shape = g.shape then
      .ok ⟨grids.length :: g.shape, gather grids⟩
    else .error (.value "all input arrays must have the same shape")

/-- Layers of so many cells, brought together cell by cell. -/
def foldLayers {α : Type} (f : α → α → α) (layers : List (List α)) : List α :=
  match layers with
  | [] => []
  | layer :: others => others.foldl (List.zipWith f) layer

/-- The larger of two doubles, the first one if neither is; undefined if one of them is. -/
def larger (x y : Float) : Float :=
  if x.isNaN then x else if y.isNaN then y else if y > x then y else x

/-- The smaller of two doubles, the first one if neither is; undefined if one of them is. -/
def smaller (x y : Float) : Float :=
  if x.isNaN then x else if y.isNaN then y else if y < x then y else x

/-- Layers of cells, brought together in a way for each kind. -/
def reduceCells (flags : Bool → Bool → Bool) (wholes : Int64 → Int64 → Int64)
    (reals : Float → Float → Float) (size count : Nat) : Cells → Cells
  | .flags xs => .flags (foldLayers flags (Shape.blocks size count xs))
  | .wholes xs => .wholes (foldLayers wholes (Shape.blocks size count xs))
  | .reals xs => .reals (foldLayers reals (Shape.blocks size count xs))

def reduceTo (reduction : ArrayLibrary.Reduction) (size count : Nat) (cells : Cells) : Cells :=
  match reduction with
  | .max => reduceCells (· || ·) (fun m n => if n > m then n else m) larger size count cells
  | .min => reduceCells (· && ·) (fun m n => if n < m then n else m) smaller size count cells
  | .mean =>
    let sums := foldLayers (· + ·) (Shape.blocks size count cells.toReals)
    .reals (sums.map (· / Binary64.ofInt count))

def reduce (reduction : ArrayLibrary.Reduction) (g : Grid) : Except Fault Grid :=
  match g.shape with
  | [] => .error (.value "axis 0 is out of bounds for array of dimension 0")
  | count :: shape => .ok ⟨shape, reduceTo reduction (Shape.size shape) count g.cells⟩

end InfixCalc.Grid
