import InfixCalc.Mixed.Arithmetic
import InfixCalc.Mixed.Value

/-!
# A catalog of callbacks

Callbacks and choices to build vocabularies of mixed values from. Each enters the label it was
registered under into the journal when it is called, before it looks at its parameters.
-/

namespace InfixCalc

abbrev Deed := Action Journal Value

def Deed.note (entry : String) : Deed Unit := Action.update fun journal => journal.note entry

/-- The result of an operation in a callback that does not look after its failures. -/
def Deed.conclude {α : Type} (label : String) : Outcome α → Deed α
  | .ok value => .done value
  | .error (.failure cause) => .fail cause
  | .error (.unusable reason) => .fail (.unhandled reason)
  | .error (.told _) => .fail .unreadableValue
  | .error .zeroDivisor => .fail (.zeroDivisor label)

inductive Routine where
  | add
  | sub
  | mul
  | div
  | rev
  | less
  | both
  | either
  | negate
  | increment
  | identity
  | first
  | last
  | twice
  | pair
  | sum
  | count
  | nothing
  | tick
  | inspect
  | boom
  | present
  deriving DecidableEq, Repr

namespace Routine

def ofName? : String → Option Routine
  | "add" => some .add
  | "sub" => some .sub
  | "mul" => some .mul
  | "div" => some .div
  | "rev" => some .rev
  | "lt" => some .less
  | "and" => some .both
  | "or" => some .either
  | "neg" => some .negate
  | "inc" => some .increment
  | "id" => some .identity
  | "first" => some .first
  | "last" => some .last
  | "twice" => some .twice
  | "pair" => some .pair
  | "sum" => some .sum
  | "count" => some .count
  | "nothing" => some .nothing
  | "tick" => some .tick
  | "inspect" => some .inspect
  | "boom" => some .boom
  | "show" => some .present
  | _ => none

def binary (label : String) (f : Value → Value → Outcome Value) : Deed Value := do
  let v ← Action.parameter 0
  let w ← Action.parameter 1
  Deed.conclude label (f v w)

/-- The sum of the parameters from `first` on, each added as soon as it is read. -/
def total (label : String) (first : Nat) (sum : Value) : Nat → Deed Value
  | 0 => .done sum
  | others + 1 => do
    let v ← Action.parameter first
    let sum ← Deed.conclude label (sum.add v)
    total label (first + 1) sum others

def inspected : Deed Value :=
  .peek 0 fun before => do
    Deed.note (entry before)
    let v ← Action.parameter 0
    Action.peek 0 fun after => do
      Deed.note (entry after)
      return v
where
  entry : Option Value → String
    | none => "False Parameter(unevaluated)"
    | some v => "True Parameter(" ++ v.quoted ++ ")"

def quotient (label : String) : Deed Value := do
  let v ← Action.parameter 0
  let w ← Action.parameter 1
  Meaning.conclude label (v.shown ++ ", " ++ w.shown) (v.floorDiv w)

def body (label : String) (count : Nat) : Routine → Deed Value
  | .add => binary label Value.add
  | .sub => binary label Value.sub
  | .mul => binary label Value.mul
  | .div => quotient label
  | .rev => do
    let w ← Action.parameter 1
    let v ← Action.parameter 0
    Deed.conclude label (v.sub w)
  | .less => do
    let v ← Action.parameter 0
    let w ← Action.parameter 1
    let below ← Deed.conclude label (v.less w)
    return .whole (if below then 1 else 0)
  | .both => do
    let v ← Action.parameter 0
    if ← Action.ofExcept v.holds then Action.parameter 1 else return v
  | .either => do
    let v ← Action.parameter 0
    if ← Action.ofExcept v.holds then return v else Action.parameter 1
  | .negate => do
    let v ← Action.parameter 0
    Deed.conclude label v.negate
  | .increment => do
    let v ← Action.parameter 0
    Deed.conclude label (v.add (.whole 1))
  | .identity | .first => Action.parameter 0
  | .last => Action.parameter (count - 1)
  | .twice => do
    let v ← Action.parameter 0
    let w ← Action.parameter 0
    Deed.conclude label (v.add w)
  | .pair => do
    let v ← Action.parameter 0
    let w ← Action.parameter 0
    return .pair v w
  | .sum => total label 0 (.whole 0) count
  | .count => return .whole count
  | .nothing => return .nothing
  | .tick => .get fun journal =>
    let ticks := journal.ticks + 1
    .set { journal with ticks := ticks } (.done (.whole ticks))
  | .inspect => inspected
  | .boom => .fail (.raised "evaluated")
  | .present => do
    let values ← Action.parameters count
    let texts ← Action.ofExcept (values.mapM Value.display)
    return .text ("[" ++ " ".intercalate (label :: texts) ++ "]")

def callback (routine : Routine) (label : String) : Callback Journal Value := fun count => do
  Deed.note label
  body label count routine

end Routine

inductive Chooser where
  | truthy
  | index
  | half
  | none
  | yes
  | length
  | boom
  deriving DecidableEq, Repr

namespace Chooser

def ofName? : String → Option Chooser
  | "truthy" => some .truthy
  | "index" => some .index
  | "half" => some .half
  | "none" => some .none
  | "yes" => some .yes
  | "length" => some .length
  | "boom" => some .boom
  | _ => Option.none

def selection : Value → Selection
  | .whole n => .index n
  | .grid ⟨[], .wholes [n]⟩ => .index n.toInt
  | v => .other v.quoted

def body (label : String) (v : Value) : Chooser → Deed Selection
  | .truthy => do return .index (if ← Action.ofExcept v.holds then 1 else 2)
  | .index => return selection v
  | .half => do return selection (← Deed.conclude label v.half)
  | .none => return selection .nothing
  | .yes => return .index 1
  | .length => do return .index (← Deed.conclude label v.length)
  | .boom => .fail (.raised "evaluated")

def choice (chooser : Chooser) (label : String) : Choice Journal Value := fun v => do
  Deed.note label
  body label v chooser

end Chooser
end InfixCalc
