import InfixCalc.Token

/-!
# Expression trees

A tree is a token over the trees of its operands. `ofPostfix` rebuilds the tree of a postfix list
and `postorder` lists the tokens of a tree again. Both only need to know how many operands each
token takes, so the tokens may be the symbols of an expression or separators as well.
-/

namespace InfixCalc

/-- Tokens that take a number of operands, unless it is still open. -/
class Ranked (τ : Type) where
  arity : τ → Option Nat

instance (σ α : Type) : Ranked (Symbol σ α) := ⟨Symbol.arity⟩

instance (σ α : Type) : Ranked (Token σ α) := ⟨Token.arity⟩

@[simp] theorem Symbol.ranked_arity {σ α : Type} (s : Symbol σ α) : Ranked.arity s = s.arity := rfl

inductive Tree (τ : Type) where
  | node (symbol : τ) (children : List (Tree τ))

namespace Tree

variable {τ : Type}

def symbol : Tree τ → τ
  | .node s _ => s

def children : Tree τ → List (Tree τ)
  | .node _ cs => cs

mutual

def postorder : Tree τ → List τ
  | .node s cs => postorderAll cs ++ [s]

def postorderAll : List (Tree τ) → List τ
  | [] => []
  | c :: cs => postorder c ++ postorderAll cs

end

mutual

def height : Tree τ → Nat
  | .node _ cs => heightAll cs + 1

def heightAll : List (Tree τ) → Nat
  | [] => 0
  | c :: cs => max (height c) (heightAll cs)

end

mutual

def variableLabels {σ α : Type} : Tree (Symbol σ α) → List String
  | .node (.variable label) cs => variableLabelsAll cs ++ [label]
  | .node _ cs => variableLabelsAll cs

def variableLabelsAll {σ α : Type} : List (Tree (Symbol σ α)) → List String
  | [] => []
  | c :: cs => variableLabels c ++ variableLabelsAll cs

end

mutual

/-- The tree in one line, each token before its operands, by a way to show tokens that may fail. -/
def outline (display : τ → Except Failure String) : Tree τ → Except Failure String
  | .node s [] => do return "Node(" ++ (← display s) ++ ")"
  | .node s (c :: cs) => do
    let shown ← display s
    return "Node(" ++ shown ++ ", [" ++ ", ".intercalate (← outlineAll display (c :: cs)) ++ "])"

def outlineAll (display : τ → Except Failure String) : List (Tree τ) → Except Failure (List String)
  | [] => .ok []
  | c :: cs => do
    let first ← outline display c
    return first :: (← outlineAll display cs)

end

variable [Ranked τ]

def hasFreeSlot (s : τ) (taken : Nat) : Bool :=
  match Ranked.arity s with
  | some count => taken < count
  | none => false

/-- Put a tree in front of the operands of the deepest node with a free slot, looking along first
operands only. Tokens that come from the end of a postfix list find their place in this way. -/
def insertFirst (new : Tree τ) : Tree τ → Option (Tree τ)
  | .node s [] => if hasFreeSlot s 0 then some (.node s [new]) else none
  | .node s (c :: cs) =>
    match insertFirst new c with
    | some c' => some (.node s (c' :: cs))
    | none => if hasFreeSlot s (cs.length + 1) then some (.node s (new :: c :: cs)) else none

mutual

/-- Check a tree at a depth, root before operands and last operand first: it must not be too deep,
and each node must have all its operands. -/
def check (maxDepth : Option Nat) (depth : Nat) : Tree τ → Except Failure Unit
  | .node s cs =>
    match maxDepth with
    | some limit =>
      if limit < depth then .error (.tooDeep limit)
      else if Ranked.arity s = some cs.length then checkAll maxDepth (depth + 1) cs
      else .error .malformedTree
    | none =>
      if Ranked.arity s = some cs.length then checkAll maxDepth (depth + 1) cs
      else .error .malformedTree

def checkAll (maxDepth : Option Nat) (depth : Nat) : List (Tree τ) → Except Failure Unit
  | [] => .ok ()
  | c :: cs =>
    match checkAll maxDepth depth cs with
    | .ok () => check maxDepth depth c
    | .error cause => .error cause

end

def insertAll (tree : Tree τ) : List τ → Except Failure (Tree τ)
  | [] => .ok tree
  | s :: rest =>
    match insertFirst (.node s []) tree with
    | some grown => insertAll grown rest
    | none => .error .malformedTree

/-- The tree of a postfix list. -/
def assemble (maxDepth : Option Nat) (tokens : List τ) : Except Failure (Tree τ) :=
  match tokens.reverse with
  | [] => .error .malformedTree
  | root :: rest => do
    let tree ← insertAll (.node root []) rest
    check maxDepth 1 tree
    return tree

/-- The tree of a postfix list, which is outlined for the log before it is returned. -/
def ofPostfix (display : τ → Except Failure String) (maxDepth : Option Nat) (tokens : List τ) :
    Except Failure (Tree τ) := do
  let tree ← assemble maxDepth tokens
  let _ ← tree.outline display
  return tree

end Tree
end InfixCalc
