import InfixCalc.Tree
import InfixCalc.Vocabulary.Basic

/-!
# Written form of trees

A tree is written with the fewest parentheses that its operators' precedences and groupings ask
for, so that reading the text gives the tree again.
-/

namespace InfixCalc.Tree

variable {σ α : Type}

/-- Which side of an operator an operand stands on. -/
inductive Side where
  | left
  | right
  deriving DecidableEq, Repr

/-- Whether an operand of an operator between operands needs parentheses. At equal precedence the
right side is always grouped, the left side only where the operand groups to the right. -/
def needsParentheses (parent : Operator σ α) (child : Symbol σ α) (side : Side) : Bool :=
  match child with
  | .operator op =>
    if op.precedence != parent.precedence then op.precedence < parent.precedence
    else op.fixity.isBetween && (side == .right || op.fixity == .right)
  | _ => false

def parenthesized (text : String) : String := "(" ++ text ++ ")"

def operandText (parent : Operator σ α) (child : Symbol σ α) (side : Side) (text : String) :
    String :=
  if needsParentheses parent child side then parenthesized text else text

def isSign (op : Operator σ α) : Bool := op.label == unaryPlus || op.label == unaryMinus

/-- An operator with its only operand. Signs sit directly against what they apply to. -/
def unaryText (op : Operator σ α) (child : Symbol σ α) (text : String) : String :=
  if isSign op then
    match child with
    | .operator inner =>
      if inner.fixity = .before then op.display ++ text else op.display ++ parenthesized text
    | _ => op.display ++ text
  else
    match child with
    | .operand _ | .variable _ =>
      if op.fixity = .before then op.display ++ " " ++ text else text ++ " " ++ op.display
    | _ =>
      if op.fixity = .before then op.display ++ parenthesized text
      else parenthesized text ++ " " ++ op.display

def nodeText (s : Symbol σ α) (children : List (Symbol σ α)) (texts : List String) : String :=
  match s, children, texts with
  | .operator op, [left, right], [leftText, rightText] =>
    operandText op left .left leftText ++ " " ++ op.display ++ " " ++
      operandText op right .right rightText
  | .operator op, [child], [text] => unaryText op child text
  | .operator op, _, _ => op.display ++ parenthesized (", ".intercalate texts)
  | .call callable, _, _ => callable.label ++ parenthesized (", ".intercalate texts)
  | .variable label, _, _ => label
  | .operand _, _, _ => ""

mutual

def written (print : α → Except Failure String) : Tree (Symbol σ α) → Except Failure String
  | .node (.operand value) _ => print value
  | .node s cs => do
    let texts ← writtenAll print cs
    return nodeText s (cs.map symbol) texts

def writtenAll (print : α → Except Failure String) :
    List (Tree (Symbol σ α)) → Except Failure (List String)
  | [] => .ok []
  | c :: cs => do
    let text ← written print c
    let texts ← writtenAll print cs
    return text :: texts

end

end InfixCalc.Tree
