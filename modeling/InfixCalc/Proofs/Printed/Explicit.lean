import InfixCalc.Expression
import InfixCalc.Proofs.Printed.Ordered

/-!
# Implied products written out

A tree with its implied products written out is written, evaluated and bound like the tree itself.
-/

namespace InfixCalc

variable {σ α : Type}

theorem Operator.display_explicit (op : Operator σ α) : op.explicit.display = op.display := by
  unfold Operator.explicit
  split
  · rfl
  · rfl

theorem Operator.body_explicit (op : Operator σ α) : op.explicit.body = op.body := by
  unfold Operator.explicit
  split
  · rfl
  · rfl

namespace Tree

theorem symbol_explicit (t : Tree (Symbol σ α)) : t.explicit.symbol = t.symbol.explicit := by
  cases t
  rfl

theorem map_symbol_explicit (cs : List (Tree (Symbol σ α))) :
    (explicitAll cs).map symbol = (cs.map symbol).map Symbol.explicit := by
  rw [explicitAll_eq_map, List.map_map, List.map_map]
  exact List.map_congr_left fun c _ => c.symbol_explicit

/- Variables and values. -/

theorem variableLabels_explicit (t : Tree (Symbol σ α)) :
    t.explicit.variableLabels = t.variableLabels := by
  induction t with
  | node s cs ih =>
    have inner : variableLabelsAll (explicitAll cs) = variableLabelsAll cs := by
      induction cs with
      | nil => rfl
      | cons c cs ihAll =>
        rw [explicitAll, variableLabelsAll, variableLabelsAll, ih c List.mem_cons_self,
          ihAll fun d member => ih d (List.mem_cons_of_mem _ member)]
    cases s with
    | «variable» label => exact congrArg (· ++ [label]) inner
    | _ => exact inner

theorem apply_explicit (values : String → Option α) (s : Symbol σ α)
    (parameters : List (Effect σ α)) :
    apply values s.explicit parameters = apply values s parameters := by
  cases s with
  | operator op => simp only [Symbol.explicit, apply, Operator.body_explicit]
  | _ => rfl

/-- A tree has the same value under all bindings with its implied products written out. -/
theorem evaluate_explicit (values : String → Option α) (t : Tree (Symbol σ α)) :
    t.explicit.evaluate values = t.evaluate values := by
  induction t with
  | node s cs ih =>
    have inner : evaluateAll values (explicitAll cs) = evaluateAll values cs := by
      induction cs with
      | nil => rfl
      | cons c cs ihAll =>
        rw [explicitAll, evaluateAll, evaluateAll, ih c List.mem_cons_self,
          ihAll fun d member => ih d (List.mem_cons_of_mem _ member)]
    rw [explicit, evaluate, evaluate, apply_explicit, inner]

/- The written form. -/

theorem needsParentheses_explicit (op : Operator σ α) (child : Symbol σ α) (side : Side) :
    needsParentheses op.explicit child.explicit side = needsParentheses op child side := by
  cases child with
  | operator inner =>
    simp only [needsParentheses, Symbol.explicit, Operator.precedence_explicit,
      Operator.fixity_explicit]
  | _ => rfl

theorem unaryText_explicit (op : Operator σ α) (child : Symbol σ α) (text : String) :
    unaryText op child.explicit text = unaryText op child text := by
  cases child with
  | operator inner => simp only [unaryText, Symbol.explicit, Operator.fixity_explicit]
  | _ => rfl

theorem operandText_explicit (op : Operator σ α) (child : Symbol σ α) (side : Side)
    (text : String) : operandText op.explicit child.explicit side text =
      operandText op child side text := by
  rw [operandText, operandText, needsParentheses_explicit]

theorem writtenAll_congr {print : α → Except Failure String} {cs : List (Tree (Symbol σ α))}
    (each : ∀ c ∈ cs, c.explicit.written print = c.written print) :
    writtenAll print (explicitAll cs) = writtenAll print cs := by
  induction cs with
  | nil => rfl
  | cons c cs ih =>
    rw [explicitAll, writtenAll, writtenAll, each c List.mem_cons_self,
      ih fun d member => each d (List.mem_cons_of_mem _ member)]

theorem written_node_explicit {print : α → Except Failure String} {s : Symbol σ α}
    {cs : List (Tree (Symbol σ α))} (inner : ∀ value, s ≠ .operand value)
    (each : ∀ c ∈ cs, c.explicit.written print = c.written print)
    (node : ∀ texts, nodeText s.explicit ((cs.map symbol).map Symbol.explicit) texts =
      nodeText s (cs.map symbol) texts) :
    (Tree.node s cs).explicit.written print = (Tree.node s cs).written print := by
  rw [explicit]
  cases s with
  | operand value => exact absurd rfl (inner value)
  | _ =>
    simp only [written, Symbol.explicit, writtenAll_congr each, map_symbol_explicit]
    simp only [Symbol.explicit] at node
    simp only [node]

/-- A spoken tree is written the same with its implied products written out. -/
theorem Spoken.written_explicit {scanner : Scanner σ α} (ready : scanner.Ready)
    (print : α → Except Failure String) {t : Tree (Symbol σ α)} (h : t.Spoken scanner) :
    t.explicit.written print = t.written print := by
  induction h with
  | operand _ => rfl
  | name _ => rfl
  | @before op child fixity offers _ ih =>
    have same := (offers.before_cases ready.regular fixity).1
    refine written_node_explicit (by simp) (by simpa using ih) fun texts => ?_
    rw [Symbol.explicit, same]
    rcases texts with _ | ⟨text, _ | _⟩
    · rfl
    · exact unaryText_explicit op child.symbol text
    · rfl
  | @after op child fixity offers _ ih =>
    have same := (offers.after_cases ready.regular fixity).1
    refine written_node_explicit (by simp) (by simpa using ih) fun texts => ?_
    rw [Symbol.explicit, same]
    rcases texts with _ | ⟨text, _ | _⟩
    · rfl
    · exact unaryText_explicit op child.symbol text
    · rfl
  | @between op left right _ _ _ _ leftIh rightIh =>
    refine written_node_explicit (by simp) (by simpa using ⟨leftIh, rightIh⟩) fun texts => ?_
    rcases texts with _ | ⟨leftText, _ | ⟨rightText, _ | _⟩⟩
    case cons.cons.nil =>
      change operandText op.explicit left.symbol.explicit .left leftText ++ " " ++
        op.explicit.display ++ " " ++
          operandText op.explicit right.symbol.explicit .right rightText = _
      rw [operandText_explicit, operandText_explicit, Operator.display_explicit]
      rfl
    all_goals
      simp only [List.map_cons, List.map_nil, nodeText, Symbol.explicit,
        Operator.display_explicit]
  | call _ _ _ ih => exact written_node_explicit (by simp) ih fun _ => rfl

end Tree
end InfixCalc
