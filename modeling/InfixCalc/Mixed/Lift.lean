import InfixCalc.Mixed.Arithmetic
import InfixCalc.Builder

/-!
# Vocabularies over mixed values

A vocabulary over one type works on mixed values too: operands are read as values of its type,
whole numbers among them, and results become mixed values again. The signs, sums, differences and
products of operands that are all of other kinds are those of mixed values.
-/

namespace InfixCalc

/-- A type whose values are among the mixed values. `read?` takes the values of the type itself
and `widen?` also those that can be converted. -/
structure Embedding (α : Type) where
  value : α → Value
  read? : Value → Option α
  widen? : Value → Option α

namespace Embedding

def real : Embedding Float where
  value := .real
  read?
    | .real x => some x
    | _ => none
  widen?
    | .real x => some x
    | .whole n => some (Binary64.ofInt n)
    | _ => none

def decimal : Embedding Decimal where
  value := .decimal
  read?
    | .decimal x => some x
    | _ => none
  widen?
    | .decimal x => some x
    | .whole n => some (Decimal.ofInt n)
    | _ => none

def complex : Embedding Complex where
  value := .complex
  read?
    | .complex z => some z
    | _ => none
  widen?
    | .complex z => some z
    | .real x => some (Complex.ofReal x)
    | .whole n => some (Complex.ofReal (Binary64.ofInt n))
    | _ => none

def grid : Embedding Grid where
  value := .grid
  read?
    | .grid g => some g
    | _ => none
  widen?
    | .grid g => some g
    | .real x => some (Grid.ofFloat x)
    | .whole n => some (Value.gridOfWhole n)
    | _ => none

variable {σ α : Type}

def operand (emb : Embedding α) (v : Value) : Outcome α :=
  match emb.widen? v with
  | some x => .ok x
  | none => Value.unsuited

def owns (emb : Embedding α) (v : Value) : Bool := (emb.read? v).isSome

def unary (emb : Embedding α) (label : String) (f : α → Outcome α) (v : Value) : Outcome Value :=
  if label = "-" ∧ !emb.owns v then v.negate
  else do return emb.value (← f (← emb.operand v))

def mixed? : String → Option (Value → Value → Outcome Value)
  | "+" => some Value.add
  | "-" => some Value.sub
  | "*" => some Value.mul
  | _ => none

def binary (emb : Embedding α) (label : String) (f : α → α → Outcome α) (v w : Value) :
    Outcome Value :=
  let typed : Outcome Value := do return emb.value (← f (← emb.operand v) (← emb.operand w))
  if emb.owns v || emb.owns w then typed
  else
    match mixed? label with
    | some operation => operation v w
    | none => typed

def ternary (emb : Embedding α) (f : α → α → α → Except Failure α) (u v w : Value) :
    Except Failure Value :=
  match emb.widen? u, emb.widen? v, emb.widen? w with
  | some x, some y, some z => do return emb.value (← f x y z)
  | _, _, _ => .error .unsuitedOperand

def meaning (emb : Embedding α) (label : String) : Meaning σ α → Meaning σ Value
  | .same => .same
  | .unary f => .unary (emb.unary label f)
  | .binary f => .binary (emb.binary label f)
  | .ternary f => .ternary (emb.ternary f)
  | .aggregate f => .aggregate fun vs => do return emb.value (← f (← vs.mapM emb.operand))
  | .drawn draw => .drawn fun state =>
    let (x, state) := draw state
    (emb.value x, state)

/-- The choice of a branch on mixed values; conditions may be of any kind. -/
def choice (emb : Embedding α) (label : String) (f : α → Except Failure Selection) (v : Value) :
    Except Failure Selection :=
  match emb.widen? v with
  | some x => f x
  | none =>
    if label = "if" then do return .index (if ← v.holds then 1 else 2)
    else .error .unsuitedOperand

def wordbook (emb : Embedding α) (book : Wordbook σ α) : Wordbook σ Value where
  operators := book.operators.map fun (label, fixity, precedence, m) =>
    (label, fixity, precedence, emb.meaning label m)
  functions := book.functions.map fun (label, arity, m) => (label, arity, emb.meaning label m)
  branches := book.branches.map fun (label, arity, f) => (label, arity, emb.choice label f)
  constants := book.constants.map fun (label, x) => (label, emb.value x)

def config (emb : Embedding α) (c : Config α) : Config Value :=
  { c with
    read := fun text => (c.read text).map emb.value
    print := fun v =>
      match emb.widen? v with
      | some x => c.print x
      | none => .error .unsuitedOperand
    display := Value.display }

end Embedding
end InfixCalc
