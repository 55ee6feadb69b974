import InfixCalc.Calculator.Assignment
import InfixCalc.Real.Vocabulary

/-!
# The calculator

Real expressions with stored variables and a history. The last result is bound to `ans`.
-/

namespace InfixCalc

open InfixCalc.Number

/-- A builder over real numbers, the calculations so far, the stored variables and the last
result. -/
structure Calculator where
  builder : Builder Seed Float
  history : List (String × Float)
  stored : Entries Float
  lastResult : Float
  seed : Seed

namespace Calculator

def cacheSize : Nat := 128

def freshBuilder : Except Failure (Builder Seed Float) :=
  Real.builder (.whole cacheSize) (.whole defaultMaxDepth)

def ofBuilder (builder : Builder Seed Float) : Calculator := ⟨builder, [], .empty, 0, .initial⟩

def answerName : String := "ans"

/-- The bindings of an evaluation: the last result goes before a variable of its name. -/
def bindings (c : Calculator) : List (String × Float) :=
  (answerName, c.lastResult) :: c.stored.toList

def evaluate (c : Calculator) (text : String) : Except Failure Float × Calculator :=
  match c.builder.build text with
  | (.error cause, builder) => (.error cause, { c with builder := builder })
  | (.ok e, builder) =>
    let c := { c with builder := builder }
    match (e.evaluate c.bindings).run c.seed with
    | (.error cause, seed) => (.error cause, { c with seed := seed })
    | (.ok value, seed) =>
      match e.written with
      | .error cause => (.error cause, { c with seed := seed, lastResult := value })
      | .ok shown =>
        (.ok value,
          { c with seed := seed, lastResult := value, history := c.history ++ [(shown, value)] })

def isVariable {σ α : Type} (name : String) : List (Token σ α) → Bool
  | [.symbol (.variable label)] => label == name
  | _ => false

/-- Store a variable. Its name must read back as that one variable, and not be taken. -/
def setVariable (c : Calculator) (name : String) (value : Float) :
    Except Failure Unit × Calculator :=
  if name == answerName || c.builder.vocabulary.constants.contains name then
    (.error (.reservedName name), c)
  else
    let (tokens, builder) := c.builder.tokenize name
    let c := { c with builder := builder }
    let alone :=
      match tokens with
      | .ok found => isVariable name found
      | .error _ => false
    if alone then (.ok (), { c with stored := c.stored.insert name value })
    else (.error (.reservedName name), c)

/-- Carry out an assignment; a line that makes none leaves the calculator alone. -/
def assign (c : Calculator) (line : String) :
    Except Failure (Option (String × Float)) × Calculator :=
  match Assignment.ofLine? line with
  | none => (.ok none, c)
  | some assignment =>
    match c.evaluate assignment.source with
    | (.error cause, c) => (.error cause, c)
    | (.ok value, c) =>
      match c.setVariable assignment.name value with
      | (.error cause, c) => (.error cause, c)
      | (.ok (), c) => (.ok (some (assignment.name, value)), c)

/-- The calculations of the history that a count selects: the last `n` of them; all for zero; all
but the first ones for a negative count. -/
def recent (c : Calculator) (n : Int) : List (String × Float) :=
  if n ≤ 0 then c.history.drop n.natAbs
  else c.history.drop (c.history.length - n.toNat)

def recentCount : Int := 10

def historyLine (entry : String × Float) : String :=
  "  " ++ entry.1 ++ " = " ++ Real.formatResult entry.2

def showHistory (c : Calculator) (n : Int) : List String := (c.recent n).map historyLine

def clearHistory (c : Calculator) : Calculator := { c with history := [], lastResult := 0 }

def clearAll (c : Calculator) : Calculator := { c.clearHistory with stored := .empty }

end Calculator
end InfixCalc
