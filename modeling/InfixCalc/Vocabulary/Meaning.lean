import InfixCalc.Vocabulary.Basic

/-!
# Meanings of words

A ready-made vocabulary gives each word a meaning: an operation on evaluated operands. The
callback of a meaning reads its parameters from left to right, applies the operation, and reports
an operation without a value together with the operands as they were given.
-/

namespace InfixCalc

/-- Why a word has no value for its operands. A library may tell why in its own words. -/
inductive Refusal where
  | zeroDivisor
  | unusable (reason : Reason)
  | told (text : String)
  | failure (cause : Failure)

abbrev Outcome (α : Type) := Except Refusal α

/-- A refusal as a failure of the labelled operation on operands that are shown as given. -/
def Refusal.report (label shown : String) : Refusal → Failure
  | .zeroDivisor => .zeroDivisor label
  | .unusable reason => .notEvaluable label shown reason
  | .told text => .refusedByLibrary label shown text
  | .failure cause => cause

inductive Meaning (σ α : Type) where
  | same
  | unary (f : α → Outcome α)
  | binary (f : α → α → Outcome α)
  | ternary (f : α → α → α → Except Failure α)
  | aggregate (f : List α → Outcome α)
  | drawn (draw : σ → α × σ)

namespace Meaning

variable {σ α : Type} [Shown α]

def listText (values : List α) : String := "[" ++ ", ".intercalate (values.map Shown.quoted) ++ "]"

def conclude (label shown : String) : Outcome α → Action σ α α
  | .ok value => .done value
  | .error refusal => .fail (refusal.report label shown)

def callback (label : String) : Meaning σ α → Callback σ α
  | .same => fun _ => .parameter 0
  | .unary f => fun _ => do
    let x ← Action.parameter 0
    conclude label (Shown.text x) (f x)
  | .binary f => fun _ => do
    let x ← Action.parameter 0
    let y ← Action.parameter 1
    conclude label (Shown.text x ++ ", " ++ Shown.text y) (f x y)
  | .ternary f => fun _ => do
    let x ← Action.parameter 0
    let y ← Action.parameter 1
    let z ← Action.parameter 2
    Action.ofExcept (f x y z)
  | .aggregate f => fun count => do
    let values ← Action.parameters count
    conclude label (listText values) (f values)
  | .drawn draw => fun _ =>
    .get fun state =>
      let (value, next) := draw state
      .set next (.done value)

end Meaning

/-- The words of a ready-made vocabulary, in the order in which they are registered. -/
structure Wordbook (σ α : Type) where
  operators : List (String × Fixity × Nat × Meaning σ α)
  functions : List (String × Arity × Meaning σ α)
  branches : List (String × Arity × (α → Except Failure Selection))
  constants : List (String × α)

namespace Wordbook

variable {σ α : Type} [Shown α]

def vocabulary (book : Wordbook σ α) : Vocabulary σ α :=
  let v := book.operators.foldl (fun v (label, fixity, precedence, meaning) =>
    v.putOperator ⟨label, fixity, precedence, meaning.callback label, none⟩) Vocabulary.empty
  let v := book.functions.foldl (fun v (label, arity, meaning) =>
    v.putFunction ⟨label, arity, meaning.callback label⟩) v
  let v := book.branches.foldl (fun v (label, arity, choice) =>
    v.putBranch ⟨label, arity, fun value => Action.ofExcept (choice value)⟩) v
  book.constants.foldl (fun v (label, value) => v.putConstant label value) v

end Wordbook

/-- The precedences of the ready-made operators, loosest first. -/
structure Precedences where
  comparison : Nat
  additive : Nat
  multiplicative : Nat
  power : Nat
  word : Nat
  factorial : Nat

def precedences : Precedences := ⟨1, 2, 3, 4, 5, 6⟩

end InfixCalc
