import InfixCalc.Arrays.Library
import InfixCalc.Arrays.Shape
import InfixCalc.Real.Format

/-!
# Grids

A grid holds cells of one kind along any number of axes, row by row. A grid without axes is a
single number. Cells of different kinds meet at the wider kind: flags count as 0 and 1, and whole
numbers become doubles.
-/

namespace InfixCalc

/-- Cells of one kind. Whole numbers are words of 64 bits. -/
inductive Cells where
  | flags (values : List Bool)
  | wholes (values : List Int64)
  | reals (values : List Float)

namespace Cells

def wholeOfFlag (flag : Bool) : Int64 := if flag then 1 else 0

def realOfFlag (flag : Bool) : Float := if flag then 1 else 0

def realOfWhole (n : Int64) : Float := Binary64.ofInt n.toInt

def toReals : Cells → List Float
  | .flags xs => xs.map realOfFlag
  | .wholes xs => xs.map realOfWhole
  | .reals xs => xs

/-- Doubles are cut to whole numbers; no other kind is widened to them. -/
def toWholes : Cells → List Int64
  | .flags xs => xs.map wholeOfFlag
  | .wholes xs => xs
  | .reals xs => xs.map Float.toInt64

def toFlags : Cells → List Bool
  | .flags xs => xs
  | .wholes xs => xs.map (· != 0)
  | .reals xs => xs.map (· != 0)

def kind : Cells → Kind
  | .flags _ => .flags
  | .wholes _ => .wholes 64
  | .reals _ => .reals 64

def items : Cells → List Item
  | .flags xs => xs.map .flag
  | .wholes xs => xs.map fun n => .whole n.toInt
  | .reals xs => xs.map .real

def rearrange (f : {α : Type} → List α → List α) : Cells → Cells
  | .flags xs => .flags (f xs)
  | .wholes xs => .wholes (f xs)
  | .reals xs => .reals (f xs)

end Cells

inductive CellPairs where
  | flags (xs ys : List Bool)
  | wholes (xs ys : List Int64)
  | reals (xs ys : List Float)

def CellPairs.of : Cells → Cells → CellPairs
  | .flags xs, .flags ys => .flags xs ys
  | .flags xs, .wholes ys => .wholes (xs.map Cells.wholeOfFlag) ys
  | .wholes xs, .flags ys => .wholes xs (ys.map Cells.wholeOfFlag)
  | .wholes xs, .wholes ys => .wholes xs ys
  | xs, ys => .reals xs.toReals ys.toReals

/-- Cells along axes; `shape` has the lengths of the axes, outermost first. -/
structure Grid where
  shape : List Nat
  cells : Cells

namespace Grid

def ofFloat (x : Float) : Grid := ⟨[], .reals [x]⟩

def toFloat? (g : Grid) : Option Float :=
  match g.shape, g.cells.toReals with
  | [], [x] => some x
  | _, _ => none

def spread (g : Grid) (shape : List Nat) : Cells := g.cells.rearrange (Shape.spread g.shape shape)

def meet? (g h : Grid) : Option (List Nat × CellPairs) := do
  let shape ← Shape.join? g.shape h.shape
  return (shape, CellPairs.of (g.spread shape) (h.spread shape))

def cellTexts (g : Grid) : List String :=
  match g.cells with
  | .flags xs => xs.map fun flag => if flag then "True" else "False"
  | .wholes xs => xs.map fun n => toString n.toInt
  | .reals xs => xs.map Binary64.text

def bracketed : List Nat → List String → String
  | [], texts => " ".intercalate texts
  | length :: axes, texts =>
    let rows := Shape.blocks (Shape.size axes) length texts
    "[" ++ " ".intercalate (rows.map (bracketed axes)) ++ "]"

def text (g : Grid) : String := bracketed g.shape g.cellTexts

def quoted (g : Grid) : String :=
  if !g.shape.isEmpty then "array(" ++ g.text ++ ")"
  else
    match g.cells with
    | .flags _ => "np." ++ g.text ++ "_"
    | .wholes _ => "np.int64(" ++ g.text ++ ")"
    | .reals _ => "np.float64(" ++ g.text ++ ")"

instance : Shown Grid := ⟨text, quoted⟩

end Grid
end InfixCalc
