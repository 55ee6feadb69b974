import InfixCalc.Frame
import InfixCalc.Grid.Library

/-!
# Frames of grids

Frames that have grids for columns, under names of their own. They are the library that formulas
over grids run with.
-/

namespace InfixCalc

/-- Named columns, each a grid with one cell for each row. -/
structure Frame where
  rows : List String
  columns : Entries Grid

namespace Frame

/-- A grid as a column over so many rows, which must be along its only axis. -/
def series (g : Grid) (rows : List String) : Except Fault Grid :=
  match g.shape with
  | [count] =>
    if count = rows.length then .ok g
    else .error (.value "Length of values does not match length of index")
  | _ => .error (.value "Data must be 1-dimensional")

def insert (frame : Frame) (name : String) (values : Grid) : Frame :=
  { frame with columns := frame.columns.insert name values }

def library : FrameLibrary Grid Frame Grid (List String) String where
  index := rows
  length := List.length
  columns frame name := (frame.columns.get? name).toList
  label := id
  array columns := columns.head?.getD (Grid.ofFloat 0)
  series := series
  values := id
  copy := id
  insert := insert

end Frame
end InfixCalc
