import InfixCalc.Token

/-!
# Postfix order

Tokens in written order become symbols in postfix order, operands before what is applied to them.
Operators wait on a stack until one that binds less tightly, a separator or the end applies them.
Every open call counts its arguments on the same stack.
-/

namespace InfixCalc

/-- What waits on the stack: an operator without its right operand, a call with the number of
arguments begun so far, or a parenthesis that groups. -/
inductive Waiting (σ α : Type) where
  | operator (op : Operator σ α)
  | call (callable : Callable σ α) (arguments : Nat)
  | group

namespace Postfix

variable {σ α : Type}

/-- The state between two tokens. `output` has the last symbol first; `callOpened` holds right
behind the parenthesis of a call. -/
structure State (σ α : Type) where
  output : List (Symbol σ α)
  stack : List (Waiting σ α)
  depth : Nat
  callOpened : Bool
  last : Option (Token σ α)

def State.initial : State σ α := ⟨[], [], 0, false, none⟩

/-- Whether the waiting operator is applied before the one that comes in. -/
def appliesFirst (waiting incoming : Operator σ α) : Bool :=
  if waiting.precedence != incoming.precedence then incoming.precedence < waiting.precedence
  else waiting.fixity == .left || waiting.fixity == .after

def applyWhile (condition : Operator σ α → Bool) (output : List (Symbol σ α)) :
    List (Waiting σ α) → List (Symbol σ α) × List (Waiting σ α)
  | .operator op :: stack =>
    if condition op then applyWhile condition (.operator op :: output) stack
    else (output, .operator op :: stack)
  | stack => (output, stack)

def applyAll : List (Symbol σ α) → List (Waiting σ α) → List (Symbol σ α) × List (Waiting σ α) :=
  applyWhile fun _ => true

def enter (maxDepth : Option Nat) (depth : Nat) : Except Failure Nat :=
  match maxDepth with
  | some limit => if limit < depth + 1 then .error (.tooDeep limit) else .ok (depth + 1)
  | none => .ok (depth + 1)

/-- Whether the last token leaves an operand missing before an operator behind its operand, a
comma or a closing parenthesis. -/
def lacksOperand : Option (Token σ α) → Bool
  | some (.separator s) => s != .closeParen
  | some (.symbol s) => s.awaitsOperand
  | none => false

def atOpening : Option (Token σ α) → Bool
  | none => true
  | some (.symbol (.call _)) => true
  | _ => false

def settle (callable : Callable σ α) (actual : Nat) : Except Failure (Callable σ α) :=
  match callable.arity, callable with
  | .variable, .branch b =>
    if actual < 3 then .error (.wrongArity b.label 3 actual) else .ok (callable.withArity actual)
  | .variable, .function _ => .ok (callable.withArity actual)
  | .exactly expected, _ =>
    if expected = actual then .ok callable
    else .error (.writing expected (.wrongArity callable.label expected actual))

/-- Close the innermost parenthesis. An operator before a group that has just been closed is
applied at once. -/
def close (output : List (Symbol σ α)) (stack : List (Waiting σ α)) (noArguments : Bool) :
    Except Failure (List (Symbol σ α) × List (Waiting σ α)) :=
  match applyAll output stack with
  | (output, .call callable count :: stack) => do
    let settled ← settle callable (if noArguments then 0 else count)
    return (.call settled :: output, stack)
  | (output, .group :: stack) =>
    match stack with
    | .operator op :: below =>
      if op.fixity = .before then .ok (.operator op :: output, below) else .ok (output, stack)
    | _ => .ok (output, stack)
  | _ => .error .unmatchedParenthesis

def openGroup (maxDepth : Option Nat) (state : State σ α) : Except Failure (State σ α) := do
  let depth ← enter maxDepth state.depth
  return ⟨state.output, .group :: state.stack, depth, false, some (.separator .openParen)⟩

def closeParen (state : State σ α) : Except Failure (State σ α) := do
  if !state.callOpened && lacksOperand state.last then
    throw (.missingOperandBefore ")")
  let (output, stack) ← close state.output state.stack state.callOpened
  return ⟨output, stack, state.depth - 1, false, some (.separator .closeParen)⟩

def comma (state : State σ α) : Except Failure (State σ α) := do
  if atOpening state.last then throw .misplacedComma
  if lacksOperand state.last then throw (.missingOperandBefore ",")
  match applyAll state.output state.stack with
  | (output, .call callable count :: stack) =>
    return ⟨output, .call callable (count + 1) :: stack, state.depth, false,
      some (.separator .comma)⟩
  | _ => throw .commaOutsideCall

def openCall (maxDepth : Option Nat) (state : State σ α) (callable : Callable σ α) :
    Except Failure (State σ α) := do
  let depth ← enter maxDepth state.depth
  return ⟨state.output, .call callable 1 :: state.stack, depth, true,
    some (.symbol (.call callable))⟩

def operator (state : State σ α) (op : Operator σ α) : Except Failure (State σ α) := do
  let last : Option (Token σ α) := some (.symbol (.operator op))
  if op.fixity = .before then
    if (state.last.map Token.endsOperand).getD false then throw (.misplacedPrefix op.display)
    return ⟨state.output, .operator op :: state.stack, state.depth, false, last⟩
  if atOpening state.last || lacksOperand state.last then
    throw (.missingOperandBefore op.display)
  let (output, stack) := applyWhile (appliesFirst · op) state.output state.stack
  if op.fixity = .after then
    return ⟨.operator op :: output, stack, state.depth, false, last⟩
  return ⟨output, .operator op :: stack, state.depth, false, last⟩

def leaf (state : State σ α) (symbol : Symbol σ α) : State σ α :=
  ⟨symbol :: state.output, state.stack, state.depth, false, some (.symbol symbol)⟩

def run (maxDepth : Option Nat) (state : State σ α) :
    List (Token σ α) → Except Failure (State σ α)
  | [] => .ok state
  | .separator .openParen :: rest => do run maxDepth (← openGroup maxDepth state) rest
  | .separator .closeParen :: rest => do run maxDepth (← closeParen state) rest
  | .separator .comma :: rest => do run maxDepth (← comma state) rest
  | .symbol (.call callable) :: .separator .openParen :: rest => do
    run maxDepth (← openCall maxDepth state callable) rest
  | .symbol (.call callable) :: _ => .error (.missingParenthesisAfter callable.label)
  | .symbol (.operator op) :: rest => do run maxDepth (← operator state op) rest
  | .symbol symbol :: rest => run maxDepth (leaf state symbol) rest

def finish (state : State σ α) : Except Failure (List (Symbol σ α)) :=
  let unfinished :=
    match state.last with
    | none => true
    | some (.symbol s) => s.awaitsOperand
    | some _ => false
  if unfinished then .error .missingOperandAtEnd
  else
    match applyAll state.output state.stack with
    | (output, []) => .ok output.reverse
    | _ => .error .unmatchedParenthesis

/-- The symbols of the tokens, in postfix order. -/
def reorder (maxDepth : Option Nat) (tokens : List (Token σ α)) :
    Except Failure (List (Symbol σ α)) := do
  finish (← run maxDepth .initial tokens)

/-- The symbols in postfix order, which are listed for the log before they are returned. -/
def ofTokens (display : α → Except Failure String) (maxDepth : Option Nat)
    (tokens : List (Token σ α)) : Except Failure (List (Symbol σ α)) := do
  let symbols ← reorder maxDepth tokens
  let _ ← symbols.mapM (Symbol.text display)
  return symbols

end Postfix
end InfixCalc
