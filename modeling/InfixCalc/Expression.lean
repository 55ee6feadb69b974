import InfixCalc.Number.Integer
import InfixCalc.Tree.Written

/-!
# Expressions

A built expression is a tree with the constants that the vocabulary held when it was built.
Evaluation is lazy: callbacks run the parameters they read, each at most once, and a branch
evaluates its selector and then one other parameter.
-/

namespace InfixCalc

def valueOf {α : Type} (bindings : List (String × α)) (constants : Entries α) (label : String) :
    Option α :=
  bindings.lookup label <|> constants.get? label

namespace Tree

variable {σ α : Type}

/-- The position of the parameter that a branch with `count` parameters has chosen. -/
def chosen (label : String) (count : Nat) : Selection → Except Failure Nat
  | .other shown => .error (.choiceNotIndex label shown)
  | .index n =>
    if 1 ≤ n ∧ n < count then .ok n.toNat
    else if Nat.pow 10 Number.maxIntegerDigits ≤ n.natAbs then .error .unreadableValue
    else .error (.choiceOutOfRange label n (count - 1))

def apply (values : String → Option α) (s : Symbol σ α) (parameters : List (Effect σ α)) :
    Effect σ α :=
  match s with
  | .operand value => pure value
  | .variable label =>
    match values label with
    | some value => pure value
    | none => throw (.unknownVariable label)
  | .operator op => (op.body parameters.length).start parameters
  | .call (.function f) => (f.body parameters.length).start parameters
  | .call (.branch b) =>
    match parameters with
    | [] => throw .missingParameter
    | selector :: _ => do
      let value ← selector
      let selection ← (b.choice value).start []
      match chosen b.label parameters.length selection with
      | .error cause => throw cause
      | .ok index =>
        match parameters[index]? with
        | some parameter => parameter
        | none => throw .missingParameter

mutual

def evaluate (values : String → Option α) : Tree (Symbol σ α) → Effect σ α
  | .node s cs => apply values s (evaluateAll values cs)

def evaluateAll (values : String → Option α) : List (Tree (Symbol σ α)) → List (Effect σ α)
  | [] => []
  | c :: cs => evaluate values c :: evaluateAll values cs

end

end Tree

/-- A built expression. The stamp tells builds of one text apart. -/
structure Expression (σ α : Type) where
  root : Tree (Symbol σ α)
  constants : Entries α
  print : α → Except Failure String
  stamp : Nat

namespace Expression

variable {σ α : Type}

def written (e : Expression σ α) : Except Failure String := e.root.written e.print

def variableLabels (e : Expression σ α) : List String :=
  e.root.variableLabels.eraseDups.mergeSort fun a b => decide (a ≤ b)

def evaluate (e : Expression σ α) (bindings : List (String × α)) : Effect σ α :=
  e.root.evaluate (valueOf bindings e.constants)

end Expression
end InfixCalc
