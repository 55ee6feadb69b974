import InfixCalc.Pattern.Reader
import InfixCalc.Token

/-!
# Configuration

How operands are read and printed, which texts are operands and variables, and how deep an
expression may nest.
-/

namespace InfixCalc

/-- Scientific notation comes first, so that `1e-3` is not read as `1` followed by `e`. -/
def defaultOperandPatterns : List String := ["\\d+(?:\\.\\d+)?[eE][-+]?\\d+", "\\d*\\.?\\d+"]

def defaultVariablePattern : String := "[a-zA-Z]+[0-9]*[a-zA-Z]*"

def defaultMaxDepth : Nat := 128

structure WrittenPattern where
  text : String
  matcher : Matcher

/-- Read a pattern that may serve to find tokens: one that cannot match the empty text. The engine
that reads it gives a matcher or says what is wrong. -/
def WrittenPattern.read (compile : String → Except String Matcher) (text : String) :
    Except Failure WrittenPattern :=
  match compile text with
  | .error fault => .error (.invalidPattern text fault)
  | .ok matcher =>
    if matcher.matchesEmpty then .error (.patternMatchesEmpty text) else .ok ⟨text, matcher⟩

/-- `print` writes operands in expressions, `display` where tokens and trees are listed. Reading has
no effect, and what a text is read as depends on the text alone. What is said of caches rests on
this: an expression that is found again is the one that would be built again. -/
structure Config (α : Type) where
  read : String → Option α
  print : α → Except Failure String
  display : α → Except Failure String
  operandPatterns : List WrittenPattern
  variablePattern : WrittenPattern
  maxDepth : Option Nat

namespace Config

variable {α : Type}

/-- The depth limit that a setting gives; an absent one leaves the depth open. -/
def readMaxDepth (given : Setting) : Except Failure (Option Nat) :=
  match given with
  | .absent => .ok none
  | _ =>
    match given.atLeast? 1 with
    | some n => .ok (some n.toNat)
    | none => .error (.showing given (.invalidMaxDepth given))

def make (compile : String → Except String Matcher) (read : String → Option α)
    (print display : α → Except Failure String) (operandPatterns : List String)
    (variablePattern : String) (maxDepth : Setting) : Except Failure (Config α) := do
  if operandPatterns.isEmpty then throw .noOperandPattern
  let operands ← operandPatterns.mapM (WrittenPattern.read compile)
  let names ← WrittenPattern.read compile variablePattern
  let depth ← readMaxDepth maxDepth
  return ⟨read, print, display, operands, names, depth⟩

/-- The configuration with the default patterns. -/
def standard (read : String → Option α) (print display : α → Except Failure String)
    (maxDepth : Setting) : Except Failure (Config α) :=
  make Pattern.compile read print display defaultOperandPatterns defaultVariablePattern maxDepth

end Config
end InfixCalc
