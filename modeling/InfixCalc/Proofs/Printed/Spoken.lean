import InfixCalc.Proofs.Phrase
import InfixCalc.Proofs.Scan.Origin
import InfixCalc.Tree.Written

/-!
# Trees of scanned tokens

A spoken tree is one whose symbols the scanner may give. Written out, its implied products become
the operator `*`, which stands in the vocabulary like every other operator of such a tree.
-/

namespace InfixCalc

variable {σ α : Type}

/-- The operator with an implied product written out. -/
def Operator.explicit (op : Operator σ α) : Operator σ α :=
  if op.label = impliedProduct then { op with label := op.display, symbol := none } else op

def Symbol.explicit : Symbol σ α → Symbol σ α
  | .operator op => .operator op.explicit
  | s => s

namespace Tree

mutual

def explicit : Tree (Symbol σ α) → Tree (Symbol σ α)
  | .node s cs => .node s.explicit (explicitAll cs)

def explicitAll : List (Tree (Symbol σ α)) → List (Tree (Symbol σ α))
  | [] => []
  | c :: cs => explicit c :: explicitAll cs

end

theorem explicitAll_eq_map (cs : List (Tree (Symbol σ α))) : explicitAll cs = cs.map explicit := by
  induction cs with
  | nil => rfl
  | cons c cs ih => simp only [explicitAll, List.map_cons, ih]

end Tree

namespace Vocabulary

/-- No label is both an operator and a call. -/
def Separate (v : Vocabulary σ α) : Prop :=
  ∀ label, v.hasOperator label = true → v.callable? label = none

theorem hasOperator_of_get? {v : Vocabulary σ α} {label : String} {op : Operator σ α}
    (found : v.before.get? label = some op ∨ v.after.get? label = some op ∨
      v.between.get? label = some op) : v.hasOperator label = true := by
  rcases found with found | found | found <;> simp [hasOperator, Entries.contains, found]

theorem marker_cases {v : Vocabulary σ α} {label : String} {op : Operator σ α}
    (regular : v.Regular) (marked : v.marker label = .ok op) :
    (∃ c, Scanner.signLabel? c = some label ∧ op.fixity = .before ∧
      op.display = String.singleton c) ∨
      label = impliedProduct ∧ ∃ source, v.between.get? "*" = some source ∧
        op = { source with label := impliedProduct, symbol := some "*" } := by
  unfold marker at marked
  simp only at marked
  split at marked
  · rename_i plus
    subst plus
    refine .inl ⟨'+', rfl, ?_⟩
    split at marked
    · rename_i source found
      obtain ⟨same, _, _, fixity⟩ := regular.before "+" source found
      cases marked
      exact ⟨fixity, same⟩
    · cases marked
      exact ⟨rfl, rfl⟩
  · split at marked
    · rename_i minus
      subst minus
      refine .inl ⟨'-', rfl, ?_⟩
      split at marked
      · rename_i source found
        obtain ⟨same, _, _, fixity⟩ := regular.before "-" source found
        cases marked
        exact ⟨fixity, same⟩
      · cases marked
    · split at marked
      · rename_i product
        split at marked
        · rename_i source found
          have same := (regular.between "*" source found).1
          cases marked
          exact .inr ⟨product, source, found, by rw [same, product]⟩
        · cases marked
      · cases marked

theorem not_reserved {op : Operator σ α} {label : String} (usable : IsUsable label)
    (same : op.label = label) :
    Tree.isSign op = false ∧ op.label ≠ impliedProduct := by
  subst same
  have free := usable.1
  simp only [reservedLabels, List.mem_cons, List.not_mem_nil, or_false, not_or] at free
  exact ⟨by simp [Tree.isSign, free.1, free.2.1], free.2.2⟩

theorem explicit_eq_self {op : Operator σ α} (other : op.label ≠ impliedProduct) :
    op.explicit = op := if_neg other

/-- An operator before operands is a sign, or it stands in the vocabulary. -/
theorem Offers.before_cases {v : Vocabulary σ α} {op : Operator σ α} (regular : v.Regular)
    (offers : v.Offers op) (fixity : op.fixity = .before) :
    op.explicit = op ∧
      ((∃ c label, Scanner.signLabel? c = some label ∧ v.marker label = .ok op ∧
        op.display = String.singleton c ∧ Tree.isSign op = true) ∨
      v.callable? op.display = none ∧ v.before.get? op.display = some op ∧
        op.display = op.label ∧ Tree.isSign op = false) := by
  cases offers with
  | @marker label _ marked =>
    have same := label_marker marked
    rcases marker_cases regular marked with ⟨c, signed, _, shown⟩ | ⟨_, source, found, rfl⟩
    · have isSign : label = unaryPlus ∨ label = unaryMinus := by
        unfold Scanner.signLabel? at signed
        split at signed
        · exact .inl (Option.some.inj signed).symm
        · exact .inr (Option.some.inj signed).symm
        · cases signed
      refine ⟨explicit_eq_self ?_, .inl ⟨c, label, signed, marked, shown, ?_⟩⟩
      · rw [same]
        rcases isSign with rfl | rfl
        · decide
        · decide
      · rw [Tree.isSign, same]
        rcases isSign with rfl | rfl
        · rfl
        · rfl
    · have holds := (regular.between "*" source found).2.2.2
      rw [show source.fixity = .before from fixity] at holds
      cases holds
  | before notCalled found =>
    obtain ⟨_, usable, plain, _⟩ := regular.before _ op found
    have shown : op.display = op.label := by
      rw [Operator.display, plain]
      rfl
    obtain ⟨noSign, notProduct⟩ := not_reserved usable rfl
    rw [shown]
    exact ⟨explicit_eq_self notProduct, .inr ⟨notCalled, found, rfl, noSign⟩⟩
  | between _ found =>
    have holds := (regular.between _ op found).2.2.2
    rw [fixity] at holds
    cases holds
  | after _ _ found =>
    have holds := (regular.after _ op found).2.2.2
    rw [fixity] at holds
    cases holds

theorem Offers.after_cases {v : Vocabulary σ α} {op : Operator σ α} (regular : v.Regular)
    (offers : v.Offers op) (fixity : op.fixity = .after) :
    op.explicit = op ∧ v.callable? op.display = none ∧ v.between.get? op.display = none ∧
      v.after.get? op.display = some op ∧ Tree.isSign op = false := by
  cases offers with
  | marker marked =>
    rcases marker_cases regular marked with ⟨c, _, before, _⟩ | ⟨_, source, found, rfl⟩
    · rw [fixity] at before
      cases before
    · have holds := (regular.between "*" source found).2.2.2
      rw [show source.fixity = .after from fixity] at holds
      cases holds
  | before _ found =>
    have holds := (regular.before _ op found).2.2.2
    rw [fixity] at holds
    cases holds
  | between _ found =>
    have holds := (regular.between _ op found).2.2.2
    rw [fixity] at holds
    cases holds
  | after notCalled missing found =>
    obtain ⟨_, usable, plain, _⟩ := regular.after _ op found
    have shown : op.display = op.label := by
      rw [Operator.display, plain]
      rfl
    obtain ⟨noSign, notProduct⟩ := not_reserved usable rfl
    rw [shown]
    exact ⟨explicit_eq_self notProduct, notCalled, missing, found, noSign⟩

/-- An operator between operands stands in the vocabulary once it is written out. -/
theorem Offers.between_cases {v : Vocabulary σ α} {op : Operator σ α} (regular : v.Regular)
    (separate : v.Separate) (offers : v.Offers op) (fixity : op.fixity.isBetween = true) :
    v.callable? op.display = none ∧ v.between.get? op.display = some op.explicit := by
  cases offers with
  | marker marked =>
    rcases marker_cases regular marked with ⟨c, _, before, _⟩ | ⟨_, source, found, rfl⟩
    · rw [before] at fixity
      cases fixity
    · obtain ⟨same, _, plain, _⟩ := regular.between "*" source found
      have written : (Operator.explicit
          { source with label := impliedProduct, symbol := some "*" }) = source := by
        rw [Operator.explicit, if_pos rfl]
        obtain ⟨label, _, _, _, symbol⟩ := source
        cases same
        cases plain
        rfl
      rw [written]
      exact ⟨separate "*" (hasOperator_of_get? (.inr (.inr found))), found⟩
  | before _ found =>
    have holds := (regular.before _ op found).2.2.2
    rw [holds] at fixity
    cases fixity
  | between notCalled found =>
    obtain ⟨_, usable, plain, _⟩ := regular.between _ op found
    have shown : op.display = op.label := by
      rw [Operator.display, plain]
      rfl
    rw [shown, explicit_eq_self (not_reserved usable rfl).2]
    exact ⟨notCalled, found⟩
  | after _ _ found =>
    have holds := (regular.after _ op found).2.2.2
    rw [holds] at fixity
    cases fixity

end Vocabulary

namespace Tree

/-- The trees whose symbols the scanner may give. -/
inductive Spoken (scanner : Scanner σ α) : Tree (Symbol σ α) → Prop where
  | operand {value : α} : scanner.Literal value → Spoken scanner (.node (.operand value) [])
  | name {label : String} : scanner.IsName label → Spoken scanner (.node (.variable label) [])
  | before {op : Operator σ α} {child : Tree (Symbol σ α)} :
      op.fixity = .before → scanner.vocabulary.Offers op → Spoken scanner child →
        Spoken scanner (.node (.operator op) [child])
  | after {op : Operator σ α} {child : Tree (Symbol σ α)} :
      op.fixity = .after → scanner.vocabulary.Offers op → Spoken scanner child →
        Spoken scanner (.node (.operator op) [child])
  | between {op : Operator σ α} {left right : Tree (Symbol σ α)} :
      op.fixity.isBetween = true → scanner.vocabulary.Offers op → Spoken scanner left →
      Spoken scanner right → Spoken scanner (.node (.operator op) [left, right])
  | call {callable : Callable σ α} {children : List (Tree (Symbol σ α))} :
      scanner.vocabulary.callable? callable.label = some callable →
      callable.Takes children.length → (∀ c ∈ children, Spoken scanner c) →
        Spoken scanner (.node (.call (callable.settledAt children.length)) children)

end Tree

theorem Phrase.WellFormed.spoken {scanner : Scanner σ α} {p : Phrase σ α} (h : p.WellFormed)
    (given : scanner.AllGiven p.tokens) : p.tree.Spoken scanner := by
  induction h with
  | operand value =>
    cases given _ List.mem_cons_self with
    | operand literal => exact .operand literal
  | name label =>
    cases given _ List.mem_cons_self with
    | name isName => exact .name isName
  | group _ ih =>
    refine ih fun s member => given s ?_
    simp [Phrase.tokens, member]
  | before fixity _ ih =>
    cases given _ List.mem_cons_self with
    | operator offers =>
      exact .before fixity offers (ih fun s member => given s (List.mem_cons_of_mem _ member))
  | after fixity _ ih =>
    cases given _ (List.mem_append_right _ List.mem_cons_self) with
    | operator offers =>
      exact .after fixity offers (ih fun s member => given s (List.mem_append_left _ member))
  | between fixity _ _ left right =>
    cases given _ (List.mem_append_right _ List.mem_cons_self) with
    | operator offers =>
      refine .between fixity offers (left fun s member => given s (List.mem_append_left _ member))
        (right fun s member => given s ?_)
      exact List.mem_append_right _ (List.mem_cons_of_mem _ member)
  | @call callable arguments takes _ ih =>
    cases given _ List.mem_cons_self with
    | call called =>
      have size : (Phrase.trees arguments).length = arguments.length := by
        rw [Phrase.trees_eq_map, List.length_map]
      rw [Phrase.tree, ← size]
      refine .call called (size ▸ takes) ?_
      rw [Phrase.trees_eq_map]
      intro t member
      obtain ⟨p, inside, rfl⟩ := List.mem_map.mp member
      refine ih p inside fun s memberToo => given s ?_
      have among := (Phrase.tokens_infix_argumentTokens inside).subset memberToo
      simp [Phrase.tokens, among]

end InfixCalc
