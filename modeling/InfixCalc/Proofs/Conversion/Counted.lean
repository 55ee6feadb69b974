import InfixCalc.Proofs.Conversion.Limit

/-!
# Argument counts on a stack of their own

A conversion to postfix order that keeps the argument counts of the open calls apart from the
calls, the innermost count first. It looks for a count only where there is one, and what it gives
is what the conversion with the counts beside the calls gives.
-/

namespace InfixCalc

variable {σ α : Type}

/-- What waits on the stack when the counts are kept elsewhere. -/
inductive Pending (σ α : Type) where
  | operator (op : Operator σ α)
  | call (callable : Callable σ α)
  | group

def Waiting.pending : Waiting σ α → Pending σ α
  | .operator op => .operator op
  | .call callable _ => .call callable
  | .group => .group

def Waiting.count? : Waiting σ α → Option Nat
  | .call _ arguments => some arguments
  | .operator _ | .group => none

namespace Postfix

/-- Why a conversion with separate counts stops: it refuses the tokens, or it looks for a count and
there is none. -/
inductive Halt where
  | refused (cause : Failure)
  | noCount

structure Counted (σ α : Type) where
  output : List (Symbol σ α)
  stack : List (Pending σ α)
  counts : List Nat
  depth : Nat
  callOpened : Bool
  last : Option (Token σ α)

namespace Counted

def initial : Counted σ α := ⟨[], [], [], 0, false, none⟩

def refuse {β : Type} : Except Failure β → Except Halt β := Except.mapError Halt.refused

/-- Change the count of the innermost call. -/
def recount (change : Nat → Nat) : List Nat → Except Halt (List Nat)
  | [] => .error .noCount
  | count :: outer => .ok (change count :: outer)

def applyWhile (condition : Operator σ α → Bool) (output : List (Symbol σ α)) :
    List (Pending σ α) → List (Symbol σ α) × List (Pending σ α)
  | .operator op :: stack =>
    if condition op then applyWhile condition (.operator op :: output) stack
    else (output, .operator op :: stack)
  | stack => (output, stack)

def applyAll : List (Symbol σ α) → List (Pending σ α) → List (Symbol σ α) × List (Pending σ α) :=
  applyWhile fun _ => true

def closeGroup (output : List (Symbol σ α)) :
    List (Pending σ α) → List (Symbol σ α) × List (Pending σ α)
  | .operator op :: below =>
    if op.fixity = .before then (.operator op :: output, below)
    else (output, .operator op :: below)
  | stack => (output, stack)

def close (output : List (Symbol σ α)) (stack : List (Pending σ α)) (counts : List Nat) :
    Except Halt (List (Symbol σ α) × List (Pending σ α) × List Nat) :=
  match applyAll output stack with
  | (output, .call callable :: stack) =>
    match counts with
    | [] => .error .noCount
    | count :: outer => do
      let settled ← refuse (settle callable count)
      return (.call settled :: output, stack, outer)
  | (output, .group :: stack) =>
    let (output, stack) := closeGroup output stack
    .ok (output, stack, counts)
  | _ => .error (.refused .unmatchedParenthesis)

def openGroup (maxDepth : Option Nat) (state : Counted σ α) : Except Halt (Counted σ α) := do
  let depth ← refuse (enter maxDepth state.depth)
  return { state with
    stack := .group :: state.stack, depth := depth, callOpened := false
    last := some (.separator .openParen) }

def closeParen (state : Counted σ α) : Except Halt (Counted σ α) := do
  if !state.callOpened && lacksOperand state.last then
    throw (.refused (.missingOperandBefore ")"))
  let counts ← if state.callOpened then recount (fun _ => 0) state.counts else .ok state.counts
  let closed ← close state.output state.stack counts
  return ⟨closed.1, closed.2.1, closed.2.2, state.depth - 1, false,
    some (.separator .closeParen)⟩

def comma (state : Counted σ α) : Except Halt (Counted σ α) := do
  if atOpening state.last then throw (.refused .misplacedComma)
  if lacksOperand state.last then throw (.refused (.missingOperandBefore ","))
  match applyAll state.output state.stack with
  | (output, .call callable :: stack) =>
    let counts ← recount (· + 1) state.counts
    return ⟨output, .call callable :: stack, counts, state.depth, false,
      some (.separator .comma)⟩
  | _ => throw (.refused .commaOutsideCall)

def openCall (maxDepth : Option Nat) (state : Counted σ α) (callable : Callable σ α) :
    Except Halt (Counted σ α) := do
  let depth ← refuse (enter maxDepth state.depth)
  return ⟨state.output, .call callable :: state.stack, 1 :: state.counts, depth, true,
    some (.symbol (.call callable))⟩

def operator (state : Counted σ α) (op : Operator σ α) : Except Halt (Counted σ α) := do
  let last : Option (Token σ α) := some (.symbol (.operator op))
  if op.fixity = .before then
    if (state.last.map Token.endsOperand).getD false then
      throw (.refused (.misplacedPrefix op.display))
    return { state with stack := .operator op :: state.stack, callOpened := false, last := last }
  if atOpening state.last || lacksOperand state.last then
    throw (.refused (.missingOperandBefore op.display))
  let (output, stack) := applyWhile (appliesFirst · op) state.output state.stack
  if op.fixity = .after then
    return ⟨.operator op :: output, stack, state.counts, state.depth, false, last⟩
  return ⟨output, .operator op :: stack, state.counts, state.depth, false, last⟩

def leaf (state : Counted σ α) (symbol : Symbol σ α) : Counted σ α :=
  { state with
    output := symbol :: state.output, callOpened := false, last := some (.symbol symbol) }

def run (maxDepth : Option Nat) (state : Counted σ α) :
    List (Token σ α) → Except Halt (Counted σ α)
  | [] => .ok state
  | .separator .openParen :: rest => do run maxDepth (← openGroup maxDepth state) rest
  | .separator .closeParen :: rest => do run maxDepth (← closeParen state) rest
  | .separator .comma :: rest => do run maxDepth (← comma state) rest
  | .symbol (.call callable) :: .separator .openParen :: rest => do
    run maxDepth (← openCall maxDepth state callable) rest
  | .symbol (.call callable) :: _ => .error (.refused (.missingParenthesisAfter callable.label))
  | .symbol (.operator op) :: rest => do run maxDepth (← operator state op) rest
  | .symbol symbol :: rest => run maxDepth (leaf state symbol) rest

def finish (state : Counted σ α) : Except Halt (List (Symbol σ α)) :=
  let unfinished :=
    match state.last with
    | none => true
    | some (.symbol s) => s.awaitsOperand
    | some _ => false
  if unfinished then .error (.refused .missingOperandAtEnd)
  else
    match applyAll state.output state.stack with
    | (output, []) => .ok output.reverse
    | _ => .error (.refused .unmatchedParenthesis)

def reorder (maxDepth : Option Nat) (tokens : List (Token σ α)) :
    Except Halt (List (Symbol σ α)) := do
  finish (← run maxDepth .initial tokens)

end Counted

def State.counted (state : State σ α) : Counted σ α where
  output := state.output
  stack := state.stack.map Waiting.pending
  counts := state.stack.filterMap Waiting.count?
  depth := state.depth
  callOpened := state.callOpened
  last := state.last

/-- A result with the counts kept apart. -/
def kept (result : Except Failure (State σ α)) : Except Halt (Counted σ α) :=
  Counted.refuse (result.map State.counted)

/-- The count of the innermost call is its number of arguments. -/
theorem Counted.close_call {output applied : List (Symbol σ α)}
    {stack rest : List (Pending σ α)} {callable : Callable σ α}
    (top : Counted.applyAll output stack = (applied, .call callable :: rest)) (count : Nat)
    (outer : List Nat) :
    Counted.close output stack (count :: outer) =
      Counted.refuse ((settle callable count).map fun settled =>
        (.call settled :: applied, rest, outer)) := by
  unfold Counted.close
  simp only [top]
  cases settle callable count with
  | error cause => rfl
  | ok settled => rfl

end Postfix
end InfixCalc
