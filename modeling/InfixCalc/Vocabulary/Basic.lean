import InfixCalc.Token
import InfixCalc.Vocabulary.Entries
import InfixCalc.Text.Character

/-!
# Vocabularies

The operators, functions, branches and constants that expressions may use. A label has at most one
meaning before, after and between operands, and a function and a branch never share one. Three
labels are reserved for the operators that the scanner makes up: the two signs and the
multiplication of operands that stand side by side. Every change raises the version by one.
-/

namespace InfixCalc

def unaryPlus : String := "uplus"

def unaryMinus : String := "uminus"

def impliedProduct : String := "imult"

def reservedLabels : List String := [unaryPlus, unaryMinus, impliedProduct]

def maxPrecedence : Nat := 2147483647

/-- Whether a label may be used: some text, without blanks, parentheses and commas. -/
def isValidLabel (label : String) : Bool :=
  !label.toList.isEmpty &&
    label.toList.all fun c => !(Text.isBlank c || c == '(' || c == ')' || c == ',')

/-- The operators, functions, branches and constants of expressions over `α`. -/
structure Vocabulary (σ α : Type) where
  before : Entries (Operator σ α)
  after : Entries (Operator σ α)
  between : Entries (Operator σ α)
  functions : Entries (Function σ α)
  branches : Entries (Branch σ α)
  constants : Entries α
  version : Nat

namespace Vocabulary

variable {σ α : Type}

def empty : Vocabulary σ α := ⟨.empty, .empty, .empty, .empty, .empty, .empty, 0⟩

def copy (v : Vocabulary σ α) : Vocabulary σ α := { v with version := 0 }

def touch (v : Vocabulary σ α) : Vocabulary σ α := { v with version := v.version + 1 }

def checkReserved (label : String) : Except Failure Unit :=
  if reservedLabels.contains label then .error (.reservedLabel label) else .ok ()

def checkLabel (label : String) : Except Failure Unit := do
  checkReserved label
  if isValidLabel label then .ok () else .error (.invalidLabel label)

/-- The operators of a fixity; both fixities between operands share theirs. -/
def operatorsAt (v : Vocabulary σ α) : Fixity → Entries (Operator σ α)
  | .before => v.before
  | .after => v.after
  | .left | .right => v.between

def setOperatorsAt (v : Vocabulary σ α) (fixity : Fixity) (entries : Entries (Operator σ α)) :
    Vocabulary σ α :=
  match fixity with
  | .before => { v with before := entries }
  | .after => { v with after := entries }
  | .left | .right => { v with between := entries }

/-- Put an operator under its label, in place of one with the same fixity. -/
def putOperator (v : Vocabulary σ α) (op : Operator σ α) : Vocabulary σ α :=
  (v.setOperatorsAt op.fixity ((v.operatorsAt op.fixity).insert op.label op)).touch

def putFunction (v : Vocabulary σ α) (f : Function σ α) : Vocabulary σ α :=
  { v with functions := v.functions.insert f.label f }.touch

def putBranch (v : Vocabulary σ α) (b : Branch σ α) : Vocabulary σ α :=
  { v with branches := v.branches.insert b.label b }.touch

def putConstant (v : Vocabulary σ α) (label : String) (value : α) : Vocabulary σ α :=
  { v with constants := v.constants.insert label value }.touch

/-- Add an operator, in place of one with the same label and fixity. The fixity comes by its
name. -/
def addOperator (v : Vocabulary σ α) (label fixityName : String) (precedence : Setting)
    (body : Callback σ α) : Except Failure (Operator σ α × Vocabulary σ α) := do
  checkLabel label
  let some fixity := Fixity.ofName? fixityName | .error (.invalidFixity label fixityName)
  let some level := precedence.atLeast? 1
    | .error (.showing precedence (.invalidPrecedence label precedence))
  let op : Operator σ α := ⟨label, fixity, level.toNat, body, none⟩
  return (op, v.putOperator op)

def removeOperatorAt (v : Vocabulary σ α) (label : String) (fixity : Fixity) :
    Except Failure (Bool × Vocabulary σ α) := do
  checkReserved label
  if (v.operatorsAt fixity).contains label then
    return (true, (v.setOperatorsAt fixity ((v.operatorsAt fixity).erase label)).touch)
  else return (false, v)

def removeOperator (v : Vocabulary σ α) (label : String) :
    Except Failure (Bool × Vocabulary σ α) := do
  checkReserved label
  if v.before.contains label || v.after.contains label || v.between.contains label then
    return (true, { v with
      before := v.before.erase label
      after := v.after.erase label
      between := v.between.erase label }.touch)
  else return (false, v)

def operator? (v : Vocabulary σ α) (label : String) (fixity : Fixity) : Option (Operator σ α) :=
  match (v.operatorsAt fixity).get? label with
  | some op => if fixity.isBetween && op.fixity != fixity then none else some op
  | none => none

def hasOperatorAt (v : Vocabulary σ α) (label : String) (fixity : Fixity) : Bool :=
  (v.operator? label fixity).isSome

def hasOperator (v : Vocabulary σ α) (label : String) : Bool :=
  v.before.contains label || v.after.contains label || v.between.contains label

def operators (v : Vocabulary σ α) : List (Operator σ α) :=
  v.before.values ++ v.after.values ++ v.between.values

def addFunction (v : Vocabulary σ α) (label : String) (arity : Setting) (body : Callback σ α) :
    Except Failure (Function σ α × Vocabulary σ α) := do
  checkLabel label
  if v.branches.contains label then throw (.labelOfBranch label)
  let some count := arity.atLeast? (-1)
    | .error (.showing arity (.invalidFunctionArity label arity))
  let f : Function σ α := ⟨label, if count = -1 then .variable else .exactly count.toNat, body⟩
  return (f, v.putFunction f)

def removeFunction (v : Vocabulary σ α) (label : String) :
    Except Failure (Bool × Vocabulary σ α) := do
  checkReserved label
  if v.functions.contains label then
    return (true, { v with functions := v.functions.erase label }.touch)
  else return (false, v)

/-- The arity of a branch: a variable number of parameters, or at least three. -/
def branchArity? (arity : Setting) : Option Arity :=
  match arity.atLeast? (-1) with
  | some count =>
    if count = -1 then some .variable
    else if 3 ≤ count then some (.exactly count.toNat)
    else none
  | none => none

def addBranch (v : Vocabulary σ α) (label : String) (arity : Setting) (choice : Choice σ α) :
    Except Failure (Branch σ α × Vocabulary σ α) := do
  checkLabel label
  if v.functions.contains label then throw (.labelOfFunction label)
  let some count := branchArity? arity
    | .error (.showing arity (.invalidBranchArity label arity))
  let b : Branch σ α := ⟨label, count, choice⟩
  return (b, v.putBranch b)

def removeBranch (v : Vocabulary σ α) (label : String) :
    Except Failure (Bool × Vocabulary σ α) := do
  checkReserved label
  if v.branches.contains label then
    return (true, { v with branches := v.branches.erase label }.touch)
  else return (false, v)

def addConstant (v : Vocabulary σ α) (label : String) (value : α) :
    Except Failure (Vocabulary σ α) := do
  checkLabel label
  return v.putConstant label value

def removeConstant (v : Vocabulary σ α) (label : String) :
    Except Failure (Bool × Vocabulary σ α) := do
  checkReserved label
  if v.constants.contains label then
    return (true, { v with constants := v.constants.erase label }.touch)
  else return (false, v)

/-- What a change gives back: the word that it has added, or whether it found what to remove. -/
inductive Answer (σ α : Type) where
  | operator (op : Operator σ α)
  | function (f : Function σ α)
  | branch (b : Branch σ α)
  | nothing
  | removed (found : Bool)

/-- The answer of a change that is told to the log when it has been made. Of a word that was added
the number that belongs to it is written out. -/
def Answer.logged : Answer σ α → Except Failure (Answer σ α)
  | .operator op => do
    let _ ← Number.written op.precedence
    return .operator op
  | .function f => do
    let _ ← Number.written f.arity.toInt
    return .function f
  | .branch b => do
    let _ ← Number.written b.arity.toInt
    return .branch b
  | .nothing => .ok .nothing
  | .removed found => .ok (.removed found)

def constant (v : Vocabulary σ α) (label : String) : Except Failure α :=
  match v.constants.get? label with
  | some value => .ok value
  | none => .error (.unknownConstant label)

def callable? (v : Vocabulary σ α) (label : String) : Option (Callable σ α) :=
  match v.functions.get? label with
  | some f => some (.function f)
  | none => (v.branches.get? label).map .branch

/-- The longer of two labels comes first; among labels of one length the order is alphabetic. -/
def labelBefore (a b : String) : Bool :=
  decide (b.length < a.length) || (a.length == b.length && decide (a ≤ b))

def labels (v : Vocabulary σ α) : List String :=
  let all := v.functions.labels ++ v.branches.labels ++ v.before.labels ++ v.after.labels ++
    v.between.labels
  all.eraseDups.mergeSort labelBefore

/-- The operator that a reserved label stands for. It borrows fixity, precedence and meaning from
the written operator and is shown as it; a sign `+` needs no definition. -/
def marker (v : Vocabulary σ α) (label : String) : Except Failure (Operator σ α) :=
  let stand (source : String) (op : Operator σ α) : Operator σ α :=
    { op with label := label, symbol := some source }
  if label = unaryPlus then
    match v.before.get? "+" with
    | some op => .ok (stand op.label op)
    | none => .ok ⟨unaryPlus, .before, maxPrecedence, fun _ => Action.parameter 0, some "+"⟩
  else if label = unaryMinus then
    match v.before.get? "-" with
    | some op => .ok (stand op.label op)
    | none => .error (.undefinedSymbol "-")
  else if label = impliedProduct then
    match v.between.get? "*" with
    | some op => .ok (stand op.label op)
    | none => .error (.undefinedSymbol "*")
  else .error (.notReserved label)

end Vocabulary
end InfixCalc
