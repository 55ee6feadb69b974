import InfixCalc.Proofs.Conversion.Shown

/-!
# The grammar of expressions

Conversion to postfix order and assembly to a tree never look at a grammar. Still the tokens that
give a tree are those of one:

    expression ::= unary (infix unary)*
    unary      ::= prefix* primary postfix*
    primary    ::= operand | variable | "(" expression ")"
                 | callable "(" [expression ("," expression)*] ")"
-/

namespace InfixCalc

variable {σ α : Type}

inductive Part where
  | expression
  | unary
  | primary
  deriving DecidableEq, Repr

def operatorTokens (ops : List (Operator σ α)) : List (Token σ α) :=
  ops.map fun op => .symbol (.operator op)

def listTokens (arguments : List (List (Token σ α))) : List (Token σ α) :=
  [.separator .comma].intercalate arguments

/-- The token lists that the grammar derives. A call has a number of arguments that it takes. -/
inductive Derives : Part → List (Token σ α) → Prop where
  | single {ts : List (Token σ α)} : Derives .unary ts → Derives .expression ts
  | chain {ts rest : List (Token σ α)} {op : Operator σ α} :
      Derives .unary ts → op.fixity.isBetween = true → Derives .expression rest →
        Derives .expression (ts ++ .symbol (.operator op) :: rest)
  | unary {befores afters : List (Operator σ α)} {ts : List (Token σ α)} :
      (∀ op ∈ befores, op.fixity = .before) → Derives .primary ts →
        (∀ op ∈ afters, op.fixity = .after) →
          Derives .unary (operatorTokens befores ++ ts ++ operatorTokens afters)
  | operand (value : α) : Derives .primary [.symbol (.operand value)]
  | variable (label : String) : Derives .primary [.symbol (.variable label)]
  | group {ts : List (Token σ α)} :
      Derives .expression ts →
        Derives .primary (.separator .openParen :: ts ++ [.separator .closeParen])
  | call {callable : Callable σ α} {arguments : List (List (Token σ α))} :
      callable.Takes arguments.length → (∀ ts ∈ arguments, Derives .expression ts) →
        Derives .primary
          (.symbol (.call callable) :: .separator .openParen :: listTokens arguments ++
            [.separator .closeParen])

namespace Derives

/- Every well-formed phrase is derived. -/

theorem before_unary {op : Operator σ α} {ts : List (Token σ α)} (fixity : op.fixity = .before)
    (unary : Derives .unary ts) : Derives .unary (.symbol (.operator op) :: ts) := by
  cases unary with
  | @unary befores afters ts before primary after =>
    have all : ∀ other ∈ op :: befores, other.fixity = .before := by
      intro other member
      rcases List.mem_cons.mp member with rfl | member
      · exact fixity
      · exact before other member
    exact Derives.unary all primary after

theorem before {op : Operator σ α} {ts : List (Token σ α)} (fixity : op.fixity = .before)
    (expression : Derives .expression ts) :
    Derives .expression (.symbol (.operator op) :: ts) := by
  cases expression with
  | single unary => exact .single (before_unary fixity unary)
  | chain unary between rest => exact .chain (before_unary fixity unary) between rest

theorem after_unary {op : Operator σ α} {ts : List (Token σ α)} (fixity : op.fixity = .after)
    (unary : Derives .unary ts) : Derives .unary (ts ++ [.symbol (.operator op)]) := by
  cases unary with
  | @unary befores afters ts before primary after =>
    have all : ∀ other ∈ afters ++ [op], other.fixity = .after := by
      intro other member
      rcases List.mem_append.mp member with member | member
      · exact after other member
      · exact List.mem_singleton.mp member ▸ fixity
    simpa [operatorTokens] using Derives.unary before primary all

theorem after {op : Operator σ α} {ts : List (Token σ α)} (fixity : op.fixity = .after)
    (expression : Derives .expression ts) :
    Derives .expression (ts ++ [.symbol (.operator op)]) := by
  generalize part : Part.expression = kind at expression
  induction expression with
  | single unary => exact .single (after_unary fixity unary)
  | chain unary between rest _ ih => simpa using Derives.chain unary between (ih rfl)
  | _ => cases part

theorem between {op : Operator σ α} {left right : List (Token σ α)}
    (fixity : op.fixity.isBetween = true) (expression : Derives .expression left)
    (rightExpression : Derives .expression right) :
    Derives .expression (left ++ .symbol (.operator op) :: right) := by
  generalize part : Part.expression = kind at expression
  induction expression with
  | single unary => exact .chain unary fixity rightExpression
  | chain unary inner rest _ ih => simpa using Derives.chain unary inner (ih rfl)
  | _ => cases part

end Derives

namespace Phrase

end Phrase

/- Whatever is derived is read. -/

end InfixCalc
