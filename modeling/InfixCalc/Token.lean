import InfixCalc.Action

/-!
# Tokens

Operands and variables are leaves; operators, functions and branches own the parameters that they
are applied to. Separators stand only between tokens and never in a tree.
-/

namespace InfixCalc

/-- Where an operator stands: before or after its operand, or between two. Operators between
operands group to the left or to the right. -/
inductive Fixity where
  | before
  | after
  | left
  | right
  deriving DecidableEq, Repr

namespace Fixity

def isBetween : Fixity → Bool
  | .left | .right => true
  | .before | .after => false

theorem isBetween_iff {fixity : Fixity} :
    fixity.isBetween = true ↔ fixity ≠ .before ∧ fixity ≠ .after := by
  cases fixity <;> simp [isBetween]

def arity (fixity : Fixity) : Nat := if fixity.isBetween then 2 else 1

def name : Fixity → String
  | .before => "PREFIX"
  | .after => "POSTFIX"
  | .left => "INFIX"
  | .right => "INFIX_RIGHT"

def ofName? : String → Option Fixity
  | "PREFIX" => some .before
  | "POSTFIX" => some .after
  | "INFIX" => some .left
  | "INFIX_RIGHT" => some .right
  | _ => none

end Fixity

/-- The marks that group operands and separate arguments. -/
inductive Separator where
  | openParen
  | closeParen
  | comma
  deriving DecidableEq, Repr

def Separator.char : Separator → Char
  | .openParen => '('
  | .closeParen => ')'
  | .comma => ','

def Separator.ofChar? : Char → Option Separator
  | '(' => some .openParen
  | ')' => some .closeParen
  | ',' => some .comma
  | _ => none

/-- How operands appear in listings: alone, and as members of a list. -/
class Shown (α : Type) where
  text : α → String
  quoted : α → String

/-- The number of parameters that a call takes; a variable number is settled where it is
written. -/
inductive Arity where
  | variable
  | exactly (count : Nat)
  deriving DecidableEq, Repr

def Arity.toInt : Arity → Int
  | .variable => -1
  | .exactly count => count

def Arity.isWritable (arity : Arity) : Bool := Number.isWritable arity.toInt

abbrev Callback (σ α : Type) := Nat → Action σ α α

/-- What the choice of a branch gives: the index of a parameter, or something else as messages
show it. -/
inductive Selection where
  | index (n : Int)
  | other (shown : String)
  deriving DecidableEq, Repr

abbrev Choice (σ α : Type) := α → Action σ α Selection

/-- An operator. A marker stands for another operator and is shown by that operator's label. -/
structure Operator (σ α : Type) where
  label : String
  fixity : Fixity
  precedence : Nat
  body : Callback σ α
  symbol : Option String

def Operator.display {σ α : Type} (op : Operator σ α) : String := op.symbol.getD op.label

/-- A named call that evaluates the parameters its callback reads. -/
structure Function (σ α : Type) where
  label : String
  arity : Arity
  body : Callback σ α

/-- A named call that evaluates its first parameter and the one other that its choice selects. -/
structure Branch (σ α : Type) where
  label : String
  arity : Arity
  choice : Choice σ α

/-- What is called by name with arguments in parentheses. -/
inductive Callable (σ α : Type) where
  | function (f : Function σ α)
  | branch (b : Branch σ α)

namespace Callable

variable {σ α : Type}

def label : Callable σ α → String
  | .function f => f.label
  | .branch b => b.label

def arity : Callable σ α → Arity
  | .function f => f.arity
  | .branch b => b.arity

def withArity (callable : Callable σ α) (count : Nat) : Callable σ α :=
  match callable with
  | .function f => .function { f with arity := .exactly count }
  | .branch b => .branch { b with arity := .exactly count }

end Callable

inductive Symbol (σ α : Type) where
  | operand (value : α)
  | variable (label : String)
  | operator (op : Operator σ α)
  | call (callable : Callable σ α)

inductive Token (σ α : Type) where
  | separator (s : Separator)
  | symbol (s : Symbol σ α)

namespace Symbol

variable {σ α : Type}

/-- The number of children of a node; a call whose number of parameters is still open has no
valid number. -/
def arity : Symbol σ α → Option Nat
  | .operand _ | .variable _ => some 0
  | .operator op => some op.fixity.arity
  | .call callable =>
    match callable.arity with
    | .variable => none
    | .exactly count => some count

def endsOperand : Symbol σ α → Bool
  | .operand _ | .variable _ => true
  | .operator op => op.fixity == .after
  | .call _ => false

def awaitsOperand : Symbol σ α → Bool
  | .operator op => op.fixity != .after
  | _ => false

/-- The text of a symbol in listings, by a way to show operands that may fail. -/
def text (display : α → Except Failure String) : Symbol σ α → Except Failure String
  | .operand value => display value
  | .variable label => .ok label
  | .operator op => .ok op.display
  | .call callable => .ok callable.label

end Symbol

namespace Token

variable {σ α : Type}

def endsOperand : Token σ α → Bool
  | .separator s => s == .closeParen
  | .symbol s => s.endsOperand

/-- The number of children of a node; a separator has none. -/
def arity : Token σ α → Option Nat
  | .separator _ => some 0
  | .symbol s => s.arity

def text (display : α → Except Failure String) : Token σ α → Except Failure String
  | .separator s => .ok (String.singleton s.char)
  | .symbol s => s.text display

/-- Whether the token begins an operand, so that an operand before it is multiplied by it. -/
def startsOperand : Token σ α → Bool
  | .separator s => s == .openParen
  | .symbol (.operator op) => op.fixity == .before
  | .symbol _ => true

end Token
end InfixCalc
