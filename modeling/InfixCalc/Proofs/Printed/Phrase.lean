import InfixCalc.Proofs.Conversion.Limit
import InfixCalc.Proofs.Printed.Spoken

/-!
# Printed phrases

The phrase that the written form of a tree shows: the tree with its implied products written out,
and with a group wherever the written form has parentheses around an operand.
-/

namespace InfixCalc

variable {σ α : Type}

/-- The call as it is written, before its number of arguments is settled. -/
def Vocabulary.spelled (v : Vocabulary σ α) (callable : Callable σ α) : Callable σ α :=
  (v.callable? callable.label).getD callable

def Phrase.grouped (needed : Bool) (p : Phrase σ α) : Phrase σ α := if needed then .group p else p

namespace Tree

/-- Whether the only operand of an operator is written in parentheses. -/
def wrapsOperand (op : Operator σ α) (child : Symbol σ α) : Bool :=
  match child with
  | .operator inner => !isSign op || inner.fixity != .before
  | .call _ => !isSign op
  | .operand _ | .variable _ => false

def nodePhrase (v : Vocabulary σ α) (s : Symbol σ α) (children : List (Symbol σ α))
    (phrases : List (Phrase σ α)) : Phrase σ α :=
  match s, children, phrases with
  | .operator op, [left, right], [p, q] =>
    .between (p.grouped (needsParentheses op left .left)) op.explicit
      (q.grouped (needsParentheses op right .right))
  | .operator op, [child], [p] =>
    if op.fixity = .before then .before op.explicit (p.grouped (wrapsOperand op child))
    else .after (p.grouped (wrapsOperand op child)) op.explicit
  | .operator op, _, _ => .name op.label
  | .call callable, _, _ => .call (v.spelled callable) phrases
  | .variable label, _, _ => .name label
  | .operand value, _, _ => .operand value

mutual

/-- The phrase that the written form of the tree shows. -/
def printed (v : Vocabulary σ α) : Tree (Symbol σ α) → Phrase σ α
  | .node s cs => nodePhrase v s (cs.map symbol) (printedAll v cs)

def printedAll (v : Vocabulary σ α) : List (Tree (Symbol σ α)) → List (Phrase σ α)
  | [] => []
  | c :: cs => printed v c :: printedAll v cs

end

theorem printedAll_eq_map (v : Vocabulary σ α) (cs : List (Tree (Symbol σ α))) :
    printedAll v cs = cs.map (printed v) := by
  induction cs with
  | nil => rfl
  | cons c cs ih => simp only [printedAll, List.map_cons, ih]

end Tree

theorem Phrase.WellFormed.grouped {p : Phrase σ α} (needed : Bool) (h : p.WellFormed) :
    (p.grouped needed).WellFormed := by
  cases needed with
  | true => exact .group h
  | false => exact h

theorem Phrase.tree_grouped (needed : Bool) (p : Phrase σ α) :
    (p.grouped needed).tree = p.tree := by
  cases needed with
  | true => rfl
  | false => rfl

/-- Parentheses close both edges. -/
theorem Phrase.mem_rightEdge_grouped {needed : Bool} {p : Phrase σ α} {x : Operator σ α} :
    x ∈ (p.grouped needed).rightEdge ↔ needed = false ∧ x ∈ p.rightEdge := by
  cases needed <;> simp [grouped, rightEdge]

theorem Phrase.mem_leftEdge_grouped {needed : Bool} {p : Phrase σ α} {x : Operator σ α} :
    x ∈ (p.grouped needed).leftEdge ↔ needed = false ∧ x ∈ p.leftEdge := by
  cases needed <;> simp [grouped, leftEdge]

theorem Phrase.Ordered.grouped {p : Phrase σ α} (needed : Bool) (h : p.Ordered) :
    (p.grouped needed).Ordered := by
  cases needed with
  | true => exact .group h
  | false => exact h

theorem Operator.fixity_explicit (op : Operator σ α) : op.explicit.fixity = op.fixity := by
  unfold Operator.explicit
  split
  · rfl
  · rfl

namespace Callable

theorem label_settledAt (callable : Callable σ α) (count : Nat) :
    (callable.settledAt count).label = callable.label := by
  rcases callable.settledAt_cases count with same | same
  · rw [same]
  · rw [same]
    cases callable <;> rfl

end Callable

namespace Tree

theorem spelled_settledAt {v : Vocabulary σ α} {callable : Callable σ α} {count : Nat}
    (called : v.callable? callable.label = some callable) :
    v.spelled (callable.settledAt count) = callable := by
  rw [Vocabulary.spelled, Callable.label_settledAt, called]
  rfl

/- The printed phrase of each kind of node. -/

theorem printed_before (v : Vocabulary σ α) {op : Operator σ α} (fixity : op.fixity = .before)
    (child : Tree (Symbol σ α)) : printed v (.node (.operator op) [child]) =
      .before op.explicit ((child.printed v).grouped (wrapsOperand op child.symbol)) := by
  simp only [printed, printedAll, nodePhrase, List.map_cons, List.map_nil, if_pos fixity]

theorem printed_after (v : Vocabulary σ α) {op : Operator σ α} (fixity : op.fixity = .after)
    (child : Tree (Symbol σ α)) : printed v (.node (.operator op) [child]) =
      .after ((child.printed v).grouped (wrapsOperand op child.symbol)) op.explicit := by
  have notBefore : op.fixity ≠ .before := by
    rw [fixity]
    decide
  simp only [printed, printedAll, nodePhrase, List.map_cons, List.map_nil, if_neg notBefore]

theorem printed_between (v : Vocabulary σ α) (op : Operator σ α) (left right : Tree (Symbol σ α)) :
    printed v (.node (.operator op) [left, right]) =
      .between ((left.printed v).grouped (needsParentheses op left.symbol .left)) op.explicit
        ((right.printed v).grouped (needsParentheses op right.symbol .right)) := rfl

theorem printed_call {v : Vocabulary σ α} {callable : Callable σ α}
    (called : v.callable? callable.label = some callable) (count : Nat)
    (children : List (Tree (Symbol σ α))) :
    printed v (.node (.call (callable.settledAt count)) children) =
      .call callable (children.map (printed v)) := by
  rw [printed, printedAll_eq_map, nodePhrase, spelled_settledAt called]

theorem Spoken.wellFormed {scanner : Scanner σ α} {t : Tree (Symbol σ α)} (h : t.Spoken scanner) :
    (t.printed scanner.vocabulary).WellFormed := by
  induction h with
  | operand _ => exact .operand _
  | name _ => exact .name _
  | before fixity _ _ ih =>
    rw [printed_before _ fixity]
    exact .before (by rw [Operator.fixity_explicit, fixity]) (ih.grouped _)
  | after fixity _ _ ih =>
    rw [printed_after _ fixity]
    exact .after (by rw [Operator.fixity_explicit, fixity]) (ih.grouped _)
  | between fixity _ _ _ left right =>
    rw [printed_between]
    exact .between (by rw [Operator.fixity_explicit, fixity]) (left.grouped _) (right.grouped _)
  | call called takes _ ih =>
    rw [printed_call called]
    refine .call (by rwa [List.length_map]) ?_
    intro p member
    obtain ⟨c, inside, rfl⟩ := List.mem_map.mp member
    exact ih c inside

theorem Spoken.tree_printed {scanner : Scanner σ α} {t : Tree (Symbol σ α)} (h : t.Spoken scanner) :
    (t.printed scanner.vocabulary).tree = t.explicit := by
  induction h with
  | operand _ => rfl
  | name _ => rfl
  | before fixity _ _ ih =>
    rw [printed_before _ fixity, Phrase.tree, Phrase.tree_grouped, ih]
    rfl
  | after fixity _ _ ih =>
    rw [printed_after _ fixity, Phrase.tree, Phrase.tree_grouped, ih]
    rfl
  | between _ _ _ _ left right =>
    rw [printed_between, Phrase.tree, Phrase.tree_grouped, Phrase.tree_grouped, left, right]
    rfl
  | @call callable children called _ _ ih =>
    rw [printed_call called, Phrase.tree, List.length_map, Phrase.trees_eq_map, List.map_map,
      explicit, explicitAll_eq_map]
    congr 1
    exact List.map_congr_left ih

/- Parentheses. -/

theorem height_node (s : Symbol σ α) (cs : List (Tree (Symbol σ α))) :
    (node s cs).height = heightAll cs + 1 := rfl

theorem height_le_heightAll {c : Tree (Symbol σ α)} {cs : List (Tree (Symbol σ α))}
    (member : c ∈ cs) :
    c.height ≤ heightAll cs := by
  induction cs with
  | nil => cases member
  | cons d cs ih =>
    rw [heightAll]
    rcases List.mem_cons.mp member with rfl | member
    · exact Nat.le_max_left _ _
    · exact Nat.le_trans (ih member) (Nat.le_max_right _ _)

end Tree

namespace Phrase

theorem nestingFrom_furtherTokens {ps : List (Phrase σ α)} {limit depth : Nat}
    (each : ∀ p ∈ ps, ∀ rest, nestingFrom depth (p.tokens ++ rest) ≤
      max limit (nestingFrom depth rest)) (rest : List (Token σ α)) :
    nestingFrom depth (furtherTokens ps ++ rest) ≤ max limit (nestingFrom depth rest) := by
  induction ps with
  | nil => exact Nat.le_max_right _ _
  | cons p ps ih =>
    have first := each p List.mem_cons_self (furtherTokens ps ++ rest)
    have later := ih fun q member => each q (List.mem_cons_of_mem _ member)
    simp only [furtherTokens, List.cons_append, List.append_assoc, nestingFrom]
    omega

theorem nestingFrom_argumentTokens {ps : List (Phrase σ α)} {limit depth : Nat}
    (each : ∀ p ∈ ps, ∀ rest, nestingFrom depth (p.tokens ++ rest) ≤
      max limit (nestingFrom depth rest)) (rest : List (Token σ α)) :
    nestingFrom depth (argumentTokens ps ++ rest) ≤ max limit (nestingFrom depth rest) := by
  cases ps with
  | nil => exact Nat.le_max_right _ _
  | cons p ps =>
    have first := each p List.mem_cons_self (furtherTokens ps ++ rest)
    have later := nestingFrom_furtherTokens
      (fun q member => each q (List.mem_cons_of_mem _ member)) rest
    simp only [argumentTokens, List.append_assoc]
    omega

theorem nestingFrom_grouped {p : Phrase σ α} {height : Nat} (needed : Bool)
    (inner : ∀ depth rest, nestingFrom depth (p.tokens ++ rest) ≤
      max (depth + height) (nestingFrom depth rest)) (depth : Nat) (rest : List (Token σ α)) :
    nestingFrom depth ((p.grouped needed).tokens ++ rest) ≤
      max (depth + (height + 1)) (nestingFrom depth rest) := by
  cases needed with
  | true =>
    have opened := inner (depth + 1) (.separator .closeParen :: rest)
    simp only [grouped, if_true, tokens, List.cons_append, List.append_assoc, List.nil_append,
      nestingFrom, Nat.add_sub_cancel] at opened ⊢
    omega
  | false =>
    have flat := inner depth rest
    simp only [grouped, Bool.false_eq_true, if_false]
    omega

end Phrase

namespace Tree

/-- Parentheses are nested no deeper than the tree is high. -/
theorem Spoken.nestingFrom_printed {scanner : Scanner σ α} {t : Tree (Symbol σ α)}
    (h : t.Spoken scanner)
    (depth : Nat) (rest : List (Token σ α)) :
    nestingFrom depth ((t.printed scanner.vocabulary).tokens ++ rest) ≤
      max (depth + t.height) (nestingFrom depth rest) := by
  induction h generalizing depth rest with
  | operand _ => exact Nat.le_max_right _ _
  | name _ => exact Nat.le_max_right _ _
  | @before op child fixity _ _ ih =>
    rw [printed_before _ fixity]
    have inner := Phrase.nestingFrom_grouped (wrapsOperand op child.symbol) ih depth rest
    simpa only [Phrase.tokens, List.cons_append, nestingFrom, height_node, heightAll,
      Nat.max_zero] using inner
  | @after op child fixity _ _ ih =>
    rw [printed_after _ fixity]
    have inner := Phrase.nestingFrom_grouped (wrapsOperand op child.symbol) ih depth
      (.symbol (.operator op.explicit) :: rest)
    simpa only [Phrase.tokens, List.append_assoc, List.cons_append, List.nil_append, nestingFrom,
      height_node, heightAll, Nat.max_zero] using inner
  | @between op left right _ _ _ _ leftIh rightIh =>
    rw [printed_between]
    have second := Phrase.nestingFrom_grouped (needsParentheses op right.symbol .right) rightIh
      depth rest
    have first := Phrase.nestingFrom_grouped (needsParentheses op left.symbol .left) leftIh depth
      (.symbol (.operator op.explicit) ::
        (((right.printed scanner.vocabulary).grouped
          (needsParentheses op right.symbol .right)).tokens ++ rest))
    simp only [Phrase.tokens, List.append_assoc, List.cons_append, nestingFrom, height_node,
      heightAll, Nat.max_zero] at first second ⊢
    omega
  | @call callable children called _ _ ih =>
    rw [printed_call called]
    have each : ∀ p ∈ children.map (printed scanner.vocabulary), ∀ rest,
        nestingFrom (depth + 1) (p.tokens ++ rest) ≤
          max (depth + 1 + heightAll children) (nestingFrom (depth + 1) rest) := by
      intro p member rest
      obtain ⟨c, inside, rfl⟩ := List.mem_map.mp member
      have low := height_le_heightAll inside
      have nested := ih c inside (depth + 1) rest
      omega
    have inner := Phrase.nestingFrom_argumentTokens each (.separator .closeParen :: rest)
    simp only [Phrase.tokens, List.append_assoc, List.cons_append, List.nil_append, nestingFrom,
      height_node, Nat.add_sub_cancel] at inner ⊢
    omega

theorem Spoken.nesting_printed {scanner : Scanner σ α} {t : Tree (Symbol σ α)}
    (h : t.Spoken scanner) :
    nesting (t.printed scanner.vocabulary).tokens ≤ t.height := by
  have nested := h.nestingFrom_printed 0 []
  simpa [nesting, nestingFrom] using nested

end Tree
end InfixCalc
