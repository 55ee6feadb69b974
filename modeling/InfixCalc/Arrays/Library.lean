import InfixCalc.Binary64.Text
import InfixCalc.Failure
import InfixCalc.Vocabulary.Meaning

/-!
# Array libraries

What the calculator over arrays takes from a library that computes with them. An array has cells of
one kind along any number of axes, and a single number is an array without axes. A library raises
faults of its own; an adapter around the words turns some of them into refusals.
-/

namespace InfixCalc

/-- What a library raises: a value does not fit, a kind of value does not suit the operation, or
something else. -/
inductive Fault where
  | value (text : String)
  | unsuited
  | other (text : String)
  deriving DecidableEq, Repr

namespace Fault

/-- A fault as the adapter around a word takes it. Of unsuited kinds it does not know. -/
def refusal : Fault → Refusal
  | .value text => .told text
  | .unsuited => .failure .unsuitedOperand
  | .other text => .failure (.raised text)

/-- What a library gives or raises, as the adapter around a word takes it. -/
def adapted {α : Type} (outcome : Except Fault α) : Outcome α := outcome.mapError refusal

/-- A fault where there is no adapter. -/
def failure : Fault → Failure
  | .value _ => .unreadableValue
  | .unsuited => .unsuitedOperand
  | .other text => .raised text

end Fault

/-- Kinds of cells: flags, numbers of so many bits, and others by their names, such as numbers from
outside that leave the kind of a result to the other operand. -/
inductive Kind where
  | flags
  | wholes (bits : Nat)
  | reals (bits : Nat)
  | other (name : String)
  deriving DecidableEq, Repr

/-- A cell by itself, without the kind that the library has for it. -/
inductive Item where
  | flag (b : Bool)
  | whole (n : Int)
  | real (x : Float)

def Item.toFloat : Item → Float
  | .flag b => if b then 1 else 0
  | .whole n => Binary64.ofInt n
  | .real x => x

namespace ArrayLibrary

/-- The operations on one array. -/
inductive Unary where
  | negative | absolute | degrees | radians | exp | log | log10 | sqrt | cbrt | floor | ceil
  | sin | cos | tan | arcsin | arccos | arctan | sinh | cosh | tanh | arcsinh | arccosh | arctanh
  deriving DecidableEq, Repr

/-- The operations on two arrays. -/
inductive Binary where
  | less | greater | lessEqual | greaterEqual | equal | notEqual
  | add | subtract | multiply | divide | modulo | power
  deriving DecidableEq, Repr

/-- The ways to bring the layers of an array together to one. -/
inductive Reduction where
  | max | min | mean
  deriving DecidableEq, Repr

end ArrayLibrary

open ArrayLibrary in
/-- A library for arrays. -/
structure ArrayLibrary (A : Type) where
  /-- A number of the library. -/
  ofFloat : Float → A
  /-- A number from outside, as an operand. -/
  plain : Float → A
  /-- The number that a single cell comes to. -/
  toFloat? : A → Option Float
  /-- The lengths of the axes, outermost first. -/
  shape : A → List Nat
  kind : A → Kind
  /-- The cells, row by row. -/
  items : A → List Item
  /-- How a cell of the array is written where a function that is mapped over the array tells of
  it. -/
  itemText : A → Item → String
  unary : Unary → A → Except Fault A
  binary : Binary → A → A → Except Fault A
  /-- Each cell of the second array where the one of the first array holds, and otherwise the one of
  the third. -/
  select : A → A → A → Except Fault A
  /-- The arrays, each repeated to the shape that they have in common. -/
  broadcast : List A → Except Fault (List A)
  /-- Arrays of one shape as the layers of one array, along a new outermost axis. -/
  stack : List A → Except Fault A
  /-- The layers of an array brought together along its outermost axis. -/
  reduce : Reduction → A → Except Fault A
  /-- Doubles along axes of such lengths. -/
  reals : List Nat → List Float → A
  /-- A value as an array, also if it comes from outside. -/
  asArray : A → A
  /-- One cell repeated along one axis. -/
  full : Nat → Item → A

end InfixCalc
