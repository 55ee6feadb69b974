/-!
# Shapes

The lengths of the axes of an array, outermost axis first, and the repetition that brings arrays of
different shapes to a common one. Shapes are compared from the last axis on; an axis of length one
is repeated as often as the other array needs, and missing axes count as axes of length one.
-/

namespace InfixCalc.Shape

def size (shape : List Nat) : Nat := shape.foldr (· * ·) 1

def joinAxis? (m n : Nat) : Option Nat :=
  if m = n then some m
  else if m = 1 then some n
  else if n = 1 then some m
  else none

def joinAxes? : List Nat → List Nat → Option (List Nat)
  | [], ns => some ns
  | m :: ms, [] => some (m :: ms)
  | m :: ms, n :: ns => do
    let length ← joinAxis? m n
    let lengths ← joinAxes? ms ns
    return length :: lengths

def join? (s t : List Nat) : Option (List Nat) :=
  (joinAxes? s.reverse t.reverse).map List.reverse

/-- The common shape of arrays. -/
def joinAll? (shapes : List (List Nat)) : Option (List Nat) := shapes.foldlM join? []

variable {α : Type}

def blocks (size : Nat) : Nat → List α → List (List α)
  | 0, _ => []
  | count + 1, cells => cells.take size :: blocks size count (cells.drop size)

/-- The cells repeated along the axes of length one. Each axis comes with its own length and the
wanted one. -/
def repeatAlong : List (Nat × Nat) → List α → List α
  | [], cells => cells
  | (own, wanted) :: axes, cells =>
    if own = 1 then (List.replicate wanted (repeatAlong axes cells)).flatten
    else (blocks (size (axes.map (·.1))) own cells).flatMap (repeatAlong axes)

/-- The cells of an array of one shape repeated to fill a shape it can be joined to. -/
def spread (own wanted : List Nat) (cells : List α) : List α :=
  let own := List.replicate (wanted.length - own.length) 1 ++ own
  repeatAlong (own.zip wanted) cells

theorem joinAxis?_comm (m n : Nat) : joinAxis? m n = joinAxis? n m := by
  unfold joinAxis?
  grind

theorem joinAxes?_comm (s t : List Nat) : joinAxes? s t = joinAxes? t s := by
  induction s generalizing t with
  | nil => cases t <;> rfl
  | cons m ms ih =>
    cases t with
    | nil => rfl
    | cons n ns => simp only [joinAxes?, joinAxis?_comm m n, ih ns]

theorem join?_comm (s t : List Nat) : join? s t = join? t s := by
  simp only [join?, joinAxes?_comm]

end InfixCalc.Shape
