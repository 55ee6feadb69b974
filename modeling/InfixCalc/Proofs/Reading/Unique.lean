import Mathlib.Algebra.Ring.Nat
import InfixCalc.Proofs.Phrase

/-!
# Phrases from tokens and tree

The tokens of a phrase leave open how operators and operands belong together, and its tree leaves
open where parentheses stand. Tokens and tree together tell the phrase.
-/

namespace InfixCalc

variable {σ α : Type}

/-- The number of symbols before a parenthesis closes that is open already, with so many others
open inside it. -/
def enclosed : Nat → List (Token σ α) → Nat
  | _, [] => 0
  | depth, .separator .openParen :: rest => enclosed (depth + 1) rest
  | 0, .separator .closeParen :: _ => 0
  | depth + 1, .separator .closeParen :: rest => enclosed depth rest
  | depth, .separator .comma :: rest => enclosed depth rest
  | depth, .symbol _ :: rest => enclosed depth rest + 1

@[simp] theorem enclosed_openParen (depth : Nat) (rest : List (Token σ α)) :
    enclosed depth (.separator .openParen :: rest) = enclosed (depth + 1) rest := by
  simp [enclosed]

@[simp] theorem enclosed_comma (depth : Nat) (rest : List (Token σ α)) :
    enclosed depth (.separator .comma :: rest) = enclosed depth rest := by
  simp [enclosed]

@[simp] theorem enclosed_symbol (depth : Nat) (s : Symbol σ α) (rest : List (Token σ α)) :
    enclosed depth (.symbol s :: rest) = enclosed depth rest + 1 := by
  simp [enclosed]

def Tree.size (t : Tree (Symbol σ α)) : Nat := t.postorder.length

theorem Tree.size_node (s : Symbol σ α) (cs : List (Tree (Symbol σ α))) :
    (Tree.node s cs).size = (cs.map size).sum + 1 := by
  have children : (postorderAll cs).length = (cs.map size).sum := by
    induction cs with
    | nil => rfl
    | cons c cs ih => simp [postorderAll, size, ih]
  simp [size, postorder, children]

namespace Phrase

theorem enclosed_furtherTokens (ps : List (Phrase σ α))
    (each : ∀ p ∈ ps, ∀ depth rest,
      enclosed depth (p.tokens ++ rest) = p.tree.size + enclosed depth rest)
    (depth : Nat) (rest : List (Token σ α)) :
    enclosed depth (furtherTokens ps ++ rest) =
      ((trees ps).map Tree.size).sum + enclosed depth rest := by
  induction ps with
  | nil => simp [furtherTokens, trees]
  | cons p ps ih =>
    have others := ih fun q member => each q (List.mem_cons_of_mem _ member)
    simp only [furtherTokens, List.cons_append, List.append_assoc, enclosed_comma,
      each p List.mem_cons_self, others, trees, List.map_cons, List.sum_cons]
    omega

theorem enclosed_argumentTokens (ps : List (Phrase σ α))
    (each : ∀ p ∈ ps, ∀ depth rest,
      enclosed depth (p.tokens ++ rest) = p.tree.size + enclosed depth rest)
    (depth : Nat) (rest : List (Token σ α)) :
    enclosed depth (argumentTokens ps ++ rest) =
      ((trees ps).map Tree.size).sum + enclosed depth rest := by
  cases ps with
  | nil => simp [argumentTokens, trees]
  | cons p ps =>
    have others := enclosed_furtherTokens ps
      (fun q member => each q (List.mem_cons_of_mem _ member)) depth rest
    simp only [argumentTokens, List.append_assoc, each p List.mem_cons_self, others, trees,
      List.map_cons, List.sum_cons]
    omega

theorem enclosed_tokens (p : Phrase σ α) (depth : Nat) (rest : List (Token σ α)) :
    enclosed depth (p.tokens ++ rest) = p.tree.size + enclosed depth rest := by
  induction p generalizing depth rest with
  | operand value =>
    simp only [tokens, tree, Tree.size_node, List.singleton_append, enclosed_symbol, List.map_nil,
      List.sum_nil]
    omega
  | name label =>
    simp only [tokens, tree, Tree.size_node, List.singleton_append, enclosed_symbol, List.map_nil,
      List.sum_nil]
    omega
  | group inner ih =>
    simp only [tokens, tree, List.cons_append, List.append_assoc, enclosed_openParen, ih]
    simp [enclosed]
  | before op inner ih =>
    simp only [tokens, tree, Tree.size_node, List.cons_append, enclosed_symbol, ih, List.map_cons,
      List.map_nil, List.sum_cons, List.sum_nil]
    omega
  | after inner op ih =>
    simp only [tokens, tree, Tree.size_node, List.append_assoc, List.singleton_append, ih,
      enclosed_symbol, List.map_cons, List.map_nil, List.sum_cons, List.sum_nil]
    omega
  | between left op right leftIh rightIh =>
    simp only [tokens, tree, Tree.size_node, List.append_assoc, List.cons_append, leftIh,
      enclosed_symbol, rightIh, List.map_cons, List.map_nil, List.sum_cons, List.sum_nil]
    omega
  | call callable arguments ih =>
    have inside := enclosed_argumentTokens arguments ih (depth + 1)
      (.separator .closeParen :: rest)
    simp only [tokens, tree, Tree.size_node, List.append_assoc, List.cons_append, List.nil_append,
      enclosed_symbol, enclosed_openParen, inside]
    simp only [enclosed]
    omega

theorem tokens_ne_nil (p : Phrase σ α) : p.tokens ≠ [] := by
  cases p <;> simp [tokens]

theorem enclosed_first (p : Phrase σ α) {ts : List (Token σ α)}
    (first : p.tokens = .separator .openParen :: ts) (rest : List (Token σ α)) :
    enclosed 0 (ts ++ rest) + (if p.isGroup then 0 else 1) ≤ p.tree.size := by
  induction p generalizing ts rest with
  | operand value => simp [tokens] at first
  | name label => simp [tokens] at first
  | before op inner => simp [tokens] at first
  | call callable arguments => simp [tokens] at first
  | group inner =>
    simp only [tokens, List.cons_append, List.cons.injEq, true_and] at first
    subst first
    rw [List.append_assoc, enclosed_tokens]
    simp [enclosed, isGroup, tree]
  | after inner op ih =>
    rcases inside : inner.tokens with _ | ⟨t, others⟩
    · exact absurd inside inner.tokens_ne_nil
    · simp only [tokens, inside, List.cons_append, List.cons.injEq] at first
      obtain ⟨rfl, rfl⟩ := first
      have smaller := ih inside (.symbol (.operator op) :: rest)
      simp only [List.append_assoc, List.singleton_append, tree, Tree.size_node, isGroup,
        List.map_cons, List.map_nil, List.sum_cons, List.sum_nil, Bool.false_eq_true, if_false]
      omega
  | between left op right ih _ =>
    rcases inside : left.tokens with _ | ⟨t, others⟩
    · exact absurd inside left.tokens_ne_nil
    · simp only [tokens, inside, List.cons_append, List.cons.injEq] at first
      obtain ⟨rfl, rfl⟩ := first
      have smaller := ih inside (.symbol (.operator op) :: right.tokens ++ rest)
      simp only [List.append_assoc, List.cons_append, tree, Tree.size_node, isGroup,
        List.map_cons, List.map_nil, List.sum_cons, List.sum_nil, Bool.false_eq_true, if_false]
        at smaller ⊢
      omega

/-- A group and a phrase that is none do not begin the same tokens with the same tree. -/
theorem not_group {p inner : Phrase σ α} {rest others : List (Token σ α)}
    (noGroup : p.isGroup = false) (sameTree : p.tree = (group inner).tree)
    (sameTokens : p.tokens ++ rest = (group inner).tokens ++ others) : False := by
  rcases inside : p.tokens with _ | ⟨t, ts⟩
  · exact p.tokens_ne_nil inside
  · simp only [inside, tokens, List.cons_append, List.cons.injEq, List.append_assoc] at sameTokens
    obtain ⟨rfl, same⟩ := sameTokens
    have smaller := p.enclosed_first inside rest
    rw [same, enclosed_tokens, sameTree, noGroup] at smaller
    simp only [tree, enclosed, Bool.false_eq_true, if_false] at smaller
    omega

theorem eq_of_furtherTokens {ps qs : List (Phrase σ α)}
    (each : ∀ p ∈ ps, ∀ q rest others, q.WellFormed → p.tree = q.tree →
      p.tokens ++ rest = q.tokens ++ others → p = q ∧ rest = others)
    (wholes : ∀ q ∈ qs, q.WellFormed) (sameTrees : trees ps = trees qs)
    {rest others : List (Token σ α)}
    (sameTokens : furtherTokens ps ++ rest = furtherTokens qs ++ others) :
    ps = qs ∧ rest = others := by
  induction ps generalizing qs with
  | nil =>
    cases qs with
    | nil => exact ⟨rfl, sameTokens⟩
    | cons q qs => simp [trees] at sameTrees
  | cons p ps ih =>
    cases qs with
    | nil => simp [trees] at sameTrees
    | cons q qs =>
      simp only [trees, List.cons.injEq] at sameTrees
      simp only [furtherTokens, List.cons_append, List.append_assoc, List.cons.injEq, true_and]
        at sameTokens
      obtain ⟨rfl, later⟩ := each p List.mem_cons_self q _ _ (wholes q List.mem_cons_self)
        sameTrees.1 sameTokens
      obtain ⟨rfl, last⟩ := ih (fun x member => each x (List.mem_cons_of_mem _ member))
        (fun x member => wholes x (List.mem_cons_of_mem _ member)) sameTrees.2 later
      exact ⟨rfl, last⟩

theorem eq_of_argumentTokens {ps qs : List (Phrase σ α)}
    (each : ∀ p ∈ ps, ∀ q rest others, q.WellFormed → p.tree = q.tree →
      p.tokens ++ rest = q.tokens ++ others → p = q ∧ rest = others)
    (wholes : ∀ q ∈ qs, q.WellFormed) (sameTrees : trees ps = trees qs)
    {rest others : List (Token σ α)}
    (sameTokens : argumentTokens ps ++ rest = argumentTokens qs ++ others) :
    ps = qs ∧ rest = others := by
  refine eq_of_furtherTokens each wholes sameTrees ?_
  cases ps with
  | nil =>
    cases qs with
    | nil => exact sameTokens
    | cons q qs => simp [trees] at sameTrees
  | cons p ps =>
    cases qs with
    | nil => simp [trees] at sameTrees
    | cons q qs =>
      simp only [argumentTokens] at sameTokens
      simp only [furtherTokens, List.cons_append, sameTokens]

/-- The induction is on the first phrase. What is said of the tokens allows others behind them,
since the tokens of an operand are followed by those of the operator. -/
theorem eq_of_tokens_append {p : Phrase σ α} (whole : p.WellFormed) :
    ∀ (q : Phrase σ α) (rest others : List (Token σ α)), q.WellFormed → p.tree = q.tree →
      p.tokens ++ rest = q.tokens ++ others → p = q ∧ rest = others := by
  induction whole with
  | operand value =>
    intro q rest others otherWhole sameTree sameTokens
    cases q with
    | group inner => exact (not_group rfl sameTree sameTokens).elim
    | operand other => simpa [tokens] using sameTokens
    | _ => simp [tree] at sameTree
  | name label =>
    intro q rest others otherWhole sameTree sameTokens
    cases q with
    | group inner => exact (not_group rfl sameTree sameTokens).elim
    | name other => simpa [tokens] using sameTokens
    | _ => simp [tree] at sameTree
  | @group inner _ ih =>
    intro q rest others otherWhole sameTree sameTokens
    cases isGroup : q.isGroup with
    | false => exact (not_group isGroup sameTree.symm sameTokens.symm).elim
    | true =>
      cases q with
      | group content =>
        cases otherWhole with | group otherWhole =>
        simp only [tokens, List.cons_append, List.append_assoc, List.cons.injEq, true_and]
          at sameTokens
        obtain ⟨rfl, later⟩ := ih content _ _ otherWhole sameTree sameTokens
        exact ⟨rfl, by simpa using later⟩
      | _ => cases isGroup
  | @before op inner fixity _ ih =>
    intro q rest others otherWhole sameTree sameTokens
    cases otherWhole with
    | group _ => exact (not_group rfl sameTree sameTokens).elim
    | @before other content _ otherWhole =>
      simp only [tree, Tree.node.injEq, Symbol.operator.injEq, List.cons.injEq, and_true]
        at sameTree
      obtain ⟨rfl, below⟩ := sameTree
      simp only [tokens, List.cons_append, List.cons.injEq, true_and] at sameTokens
      obtain ⟨rfl, later⟩ := ih content _ _ otherWhole below sameTokens
      exact ⟨rfl, later⟩
    | after otherFixity _ => simp_all [tree]
    | _ => simp [tree] at sameTree
  | @after inner op fixity _ ih =>
    intro q rest others otherWhole sameTree sameTokens
    cases otherWhole with
    | group _ => exact (not_group rfl sameTree sameTokens).elim
    | @after content other _ otherWhole =>
      simp only [tree, Tree.node.injEq, Symbol.operator.injEq, List.cons.injEq, and_true]
        at sameTree
      obtain ⟨rfl, below⟩ := sameTree
      simp only [tokens, List.append_assoc] at sameTokens
      obtain ⟨rfl, later⟩ := ih content _ _ otherWhole below sameTokens
      exact ⟨rfl, by simpa using later⟩
    | before otherFixity _ => simp_all [tree]
    | _ => simp [tree] at sameTree
  | @between left right op fixity _ _ leftIh rightIh =>
    intro q rest others otherWhole sameTree sameTokens
    cases otherWhole with
    | group _ => exact (not_group rfl sameTree sameTokens).elim
    | @between otherLeft otherRight other _ leftWhole rightWhole =>
      simp only [tree, Tree.node.injEq, Symbol.operator.injEq, List.cons.injEq, and_true]
        at sameTree
      obtain ⟨rfl, leftSame, rightSame⟩ := sameTree
      simp only [tokens, List.append_assoc, List.cons_append] at sameTokens
      obtain ⟨rfl, later⟩ := leftIh otherLeft _ _ leftWhole leftSame sameTokens
      simp only [List.cons.injEq, true_and] at later
      obtain ⟨rfl, last⟩ := rightIh otherRight _ _ rightWhole rightSame later
      exact ⟨rfl, last⟩
    | _ => simp [tree] at sameTree
  | @call callable arguments takes _ ih =>
    intro q rest others otherWhole sameTree sameTokens
    cases otherWhole with
    | group _ => exact (not_group rfl sameTree sameTokens).elim
    | @call other otherArguments _ wholes =>
      simp only [tree, Tree.node.injEq] at sameTree
      simp only [tokens, List.cons_append, List.append_assoc, List.cons.injEq, Token.symbol.injEq,
        Symbol.call.injEq, true_and] at sameTokens
      obtain ⟨rfl, below⟩ := sameTokens
      obtain ⟨rfl, later⟩ := eq_of_argumentTokens ih wholes sameTree.2 below
      exact ⟨rfl, by simpa using later⟩
    | _ => simp [tree] at sameTree

/-- Tokens and tree tell the phrase. -/
theorem WellFormed.eq_of_tokens {p q : Phrase σ α} (whole : p.WellFormed)
    (otherWhole : q.WellFormed) (sameTokens : p.tokens = q.tokens) (sameTree : p.tree = q.tree) :
    p = q :=
  (eq_of_tokens_append whole q [] [] otherWhole sameTree (by rw [sameTokens])).1

end Phrase
end InfixCalc
