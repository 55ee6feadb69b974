import Mathlib.Data.List.Chain
import InfixCalc.Proofs.Printed.Rescan

/-!
# Symbols that look like signs

In the tokens of a phrase a call stands right before its parenthesis. So where no product is
implied, a symbol that looks like a sign has nothing to hide behind, and no scan gives it.
-/

namespace InfixCalc

variable {σ α : Type}

namespace Phrase

def Follows (first second : Token σ α) : Prop :=
  ∀ callable, first = .symbol (.call callable) → second = .separator .openParen

theorem isChain_separator {s : Separator} {ts : List (Token σ α)} (h : List.IsChain Follows ts) :
    List.IsChain Follows (.separator s :: ts) := by
  refine .cons h ?_
  intro y _ callable same
  cases same

theorem isChain_operator {op : Operator σ α} {ts : List (Token σ α)}
    (h : List.IsChain Follows ts) : List.IsChain Follows (.symbol (.operator op) :: ts) := by
  refine .cons h ?_
  intro y _ callable same
  cases same

theorem isChain_append_of_ends {front back : List (Token σ α)} {last : Token σ α}
    (first : List.IsChain Follows (front ++ [last])) (ends : last.endsOperand = true)
    (second : List.IsChain Follows back) : List.IsChain Follows (front ++ [last] ++ back) := by
  refine first.append second ?_
  intro x member y _
  rw [List.getLast?_concat] at member
  cases member
  rintro callable rfl
  cases ends

theorem isChain_furtherTokens {ps : List (Phrase σ α)} (whole : ∀ p ∈ ps, p.WellFormed)
    (each : ∀ p ∈ ps, List.IsChain Follows p.tokens) :
    List.IsChain Follows (furtherTokens ps ++ [.separator .closeParen]) := by
  induction ps with
  | nil => exact .singleton _
  | cons p ps ih =>
    obtain ⟨front, last, same, ends⟩ := (whole p List.mem_cons_self).tokens_last
    have first := each p List.mem_cons_self
    have later := ih (fun q member => whole q (List.mem_cons_of_mem _ member))
      fun q member => each q (List.mem_cons_of_mem _ member)
    rw [furtherTokens, List.append_assoc, same]
    rw [same] at first
    exact isChain_separator (isChain_append_of_ends first ends later)

theorem isChain_argumentTokens {ps : List (Phrase σ α)} (whole : ∀ p ∈ ps, p.WellFormed)
    (each : ∀ p ∈ ps, List.IsChain Follows p.tokens) :
    List.IsChain Follows (argumentTokens ps ++ [.separator .closeParen]) := by
  cases ps with
  | nil => exact .singleton _
  | cons p ps =>
    obtain ⟨front, last, same, ends⟩ := (whole p List.mem_cons_self).tokens_last
    have first := each p List.mem_cons_self
    have later := isChain_furtherTokens (fun q member => whole q (List.mem_cons_of_mem _ member))
      fun q member => each q (List.mem_cons_of_mem _ member)
    rw [argumentTokens, List.append_assoc, same]
    rw [same] at first
    exact isChain_append_of_ends first ends later

theorem WellFormed.isChain {p : Phrase σ α} (h : p.WellFormed) :
    List.IsChain Follows p.tokens := by
  induction h with
  | operand value => exact .singleton _
  | name label => exact .singleton _
  | group inner ih =>
    obtain ⟨front, last, same, ends⟩ := inner.tokens_last
    rw [same] at ih
    rw [tokens, List.cons_append, same]
    exact isChain_separator (isChain_append_of_ends ih ends (.singleton _))
  | before _ _ ih => exact isChain_operator ih
  | after _ inner ih =>
    obtain ⟨front, last, same, ends⟩ := inner.tokens_last
    rw [same] at ih
    rw [tokens, same]
    exact isChain_append_of_ends ih ends (.singleton _)
  | between _ left _ leftIh rightIh =>
    obtain ⟨front, last, same, ends⟩ := left.tokens_last
    rw [same] at leftIh
    rw [tokens, same]
    exact isChain_append_of_ends leftIh ends (isChain_operator rightIh)
  | call _ whole ih =>
    rw [tokens, List.cons_append, List.cons_append]
    exact .cons_cons (fun _ _ => rfl) (isChain_separator (isChain_argumentTokens whole ih))

theorem exists_token {p : Phrase σ α} {s : Symbol σ α} (member : s ∈ p.tree.postorder) :
    ∃ written, .symbol written ∈ p.tokens ∧
      Scanner.looksLikeSign written = Scanner.looksLikeSign s := by
  refine forall_mem_postorder (P := fun s => ∃ written, .symbol written ∈ p.tokens ∧
    Scanner.looksLikeSign written = Scanner.looksLikeSign s) ?_ (fun s inside => ⟨s, inside, rfl⟩)
    s member
  rintro callable count ⟨written, inside, same⟩
  refine ⟨written, inside, same.trans ?_⟩
  rw [Scanner.looksLikeSign, Scanner.looksLikeSign, Callable.label_settledAt]

end Phrase

namespace Tree

theorem postorder_explicit (t : Tree (Symbol σ α)) :
    t.explicit.postorder = t.postorder.map Symbol.explicit := by
  induction t with
  | node s cs ih =>
    have inner : postorderAll (explicitAll cs) = (postorderAll cs).map Symbol.explicit := by
      induction cs with
      | nil => rfl
      | cons c cs ihAll =>
        rw [explicitAll, postorderAll, postorderAll, List.map_append, ih c List.mem_cons_self,
          ihAll fun d member => ih d (List.mem_cons_of_mem _ member)]
    rw [explicit, postorder, postorder, List.map_append, inner]
    rfl

/-- What holds of literals, names, operators on offer and calls holds of every symbol. -/
theorem Spoken.forall_symbols {scanner : Scanner σ α} {P : Symbol σ α → Prop}
    (operand : ∀ value, scanner.Literal value → P (.operand value))
    (name : ∀ label, scanner.IsName label → P (.variable label))
    (operator : ∀ op, scanner.vocabulary.Offers op → P (.operator op))
    (call : ∀ callable, P (.call callable)) {t : Tree (Symbol σ α)} (h : t.Spoken scanner) :
    ∀ s ∈ t.postorder, P s := by
  have unary {op : Operator σ α} {child : Tree (Symbol σ α)} (offers : scanner.vocabulary.Offers op)
      (ih : ∀ s ∈ child.postorder, P s) : ∀ s ∈ (node (.operator op) [child]).postorder, P s := by
    intro s member
    rcases mem_postorder.mp member with ⟨c, among, inside⟩ | rfl
    · cases List.mem_singleton.mp among
      exact ih s inside
    · exact operator op offers
  induction h with
  | operand literal => simpa [postorder, postorderAll] using operand _ literal
  | name isName => simpa [postorder, postorderAll] using name _ isName
  | before _ offers _ ih => exact unary offers ih
  | after _ offers _ ih => exact unary offers ih
  | @between op left right _ offers _ _ leftIh rightIh =>
    intro s member
    rcases mem_postorder.mp member with ⟨c, among, inside⟩ | rfl
    · rcases List.mem_cons.mp among with rfl | among
      · exact leftIh s inside
      · cases List.mem_singleton.mp among
        exact rightIh s inside
    · exact operator op offers
  | call _ _ _ ih =>
    intro s member
    rcases mem_postorder.mp member with ⟨c, among, inside⟩ | rfl
    · exact ih c among s inside
    · exact call _

theorem Spoken.offers {scanner : Scanner σ α} {t : Tree (Symbol σ α)} (h : t.Spoken scanner)
    {op : Operator σ α} (member : .operator op ∈ t.postorder) : scanner.vocabulary.Offers op :=
  h.forall_symbols (P := fun s => ∀ op, s = .operator op → scanner.vocabulary.Offers op)
    (fun _ _ _ other => nomatch other) (fun _ _ _ other => nomatch other)
    (fun _ offers _ same => Symbol.operator.inj same ▸ offers) (fun _ _ other => nomatch other)
    _ member op rfl

theorem Spoken.literal {scanner : Scanner σ α} {t : Tree (Symbol σ α)} (h : t.Spoken scanner)
    {value : α} (member : .operand value ∈ t.postorder) : scanner.Literal value :=
  h.forall_symbols (P := fun s => ∀ value, s = .operand value → scanner.Literal value)
    (fun _ literal _ same => Symbol.operand.inj same ▸ literal) (fun _ _ _ other => nomatch other)
    (fun _ _ _ other => nomatch other) (fun _ _ other => nomatch other) _ member value rfl

theorem Spoken.isName {scanner : Scanner σ α} {t : Tree (Symbol σ α)} (h : t.Spoken scanner)
    {label : String} (member : .variable label ∈ t.postorder) : scanner.IsName label :=
  h.forall_symbols (P := fun s => ∀ label, s = .variable label → scanner.IsName label)
    (fun _ _ _ other => nomatch other) (fun _ isName _ same => Symbol.variable.inj same ▸ isName)
    (fun _ _ _ other => nomatch other) (fun _ _ other => nomatch other) _ member label rfl

end Tree

theorem Scanner.signLabel?_ne_product {c : Char} {label : String}
    (signed : signLabel? c = some label) : label ≠ impliedProduct := by
  unfold signLabel? at signed
  split at signed
  · cases signed
    decide
  · cases signed
    decide
  · cases signed

theorem Vocabulary.Offers.label_explicit {v : Vocabulary σ α} {op : Operator σ α}
    (regular : v.Regular) (offers : v.Offers op) : op.explicit.label ≠ impliedProduct := by
  have plain {label : String} (usable : IsUsable label) (same : op.label = label) :
      op.explicit.label ≠ impliedProduct := by
    have other := (not_reserved usable same).2
    rwa [explicit_eq_self other]
  cases offers with
  | marker marked =>
    rcases marker_cases regular marked with ⟨c, signed, _, _⟩ | ⟨_, source, _, rfl⟩
    · have other : op.label ≠ impliedProduct := by
        rw [label_marker marked]
        exact Scanner.signLabel?_ne_product signed
      rwa [explicit_eq_self other]
    · rw [Operator.explicit, if_pos rfl]
      exact show "*" ≠ impliedProduct by decide
  | before _ found => exact plain (regular.before _ op found).2.1 rfl
  | between _ found => exact plain (regular.between _ op found).2.1 rfl
  | after _ _ found => exact plain (regular.after _ op found).2.1 rfl

theorem Scanner.explicit_of_looksLikeSign {s : Symbol σ α} (looks : looksLikeSign s = true) :
    s.explicit = s := by
  cases s with
  | operator op =>
    have other : op.label ≠ impliedProduct := by
      intro same
      rw [looksLikeSign, same, Bool.and_eq_true] at looks
      exact absurd looks.2 (by decide)
    rw [Symbol.explicit, Vocabulary.explicit_eq_self other]
  | _ => rfl

/-- A symbol that looks like a sign stands behind an implied product, if its phrase is well
formed. -/
theorem Scanner.Sheltered.product {v : Vocabulary σ α} {p : Phrase σ α} (wellFormed : p.WellFormed)
    (sheltered : Sheltered v p.tokens.reverse) {s : Symbol σ α} (inside : .symbol s ∈ p.tokens)
    (looks : looksLikeSign s = true) :
    ∃ product, .symbol (.operator product) ∈ p.tokens ∧ product.label = impliedProduct ∧
      ∀ op, s = .operator op → v.between.get? op.label = none := by
  obtain ⟨before, later, split⟩ := List.append_of_mem inside
  have reversed : p.tokens.reverse = later.reverse ++ .symbol s :: before.reverse := by
    simp [split]
  rw [reversed] at sheltered
  obtain ⟨front, earlier, made, hides⟩ := sheltered.behind looks
  have tokens : p.tokens = earlier.reverse ++ .symbol front :: .symbol s :: later := by
    rw [split, ← List.reverse_reverse before, made]
    simp
  cases front with
  | operand _ => cases hides
  | «variable» _ => cases hides
  | call callable =>
    -- a call stands right before its parenthesis
    have chain := wellFormed.isChain
    rw [tokens, List.isChain_append_cons_cons] at chain
    cases chain.2.1 callable rfl
  | operator op => exact ⟨op, by simp [tokens], hides⟩

/-- A tree that is read from its written form has no symbol that looks like a sign. -/
theorem Tree.Spoken.plain {scanner : Scanner σ α} (ready : scanner.Ready) {t : Tree (Symbol σ α)}
    (spoken : t.Spoken scanner) {p : Phrase σ α} (wellFormed : p.WellFormed)
    (same : p.tree = t.explicit)
    (sheltered : Scanner.Sheltered scanner.vocabulary p.tokens.reverse) :
    ∀ s ∈ t.postorder, Scanner.looksLikeSign s = false := by
  intro s member
  rw [← Bool.not_eq_true]
  intro looks
  have inTree : s ∈ p.tree.postorder := by
    rw [same, postorder_explicit, ← Scanner.explicit_of_looksLikeSign looks]
    exact List.mem_map_of_mem member
  obtain ⟨written, inside, sameLooks⟩ := Phrase.exists_token inTree
  -- there is no implied product in the written form
  obtain ⟨op, written, product, _⟩ := sheltered.product wellFormed inside (sameLooks.trans looks)
  have among := Phrase.mem_postorder_of_mem_tokens (fun _ same => by cases same) written
  rw [same, postorder_explicit] at among
  obtain ⟨source, there, explicit⟩ := List.mem_map.mp among
  cases source with
  | operator source =>
    cases explicit
    exact (spoken.offers there).label_explicit ready.regular product
  | _ => cases explicit

/-- What begins like a sign is no call, and it stands before operands only if it stands between
them too. -/
def Vocabulary.SharesSigns (v : Vocabulary σ α) : Prop :=
  ∀ label, Scanner.beginsLikeSign label = true → v.callable? label = none ∧
    (v.between.get? label = none → v.before.get? label = none)

/-- Where operators before operands share their signs with those between them, no symbol of a tree
that is scanned looks like a sign. -/
theorem Phrase.WellFormed.plain {scanner : Scanner σ α} (ready : scanner.Ready)
    (shares : scanner.vocabulary.SharesSigns) {p : Phrase σ α} (wellFormed : p.WellFormed)
    (given : scanner.AllGiven p.tokens)
    (sheltered : Scanner.Sheltered scanner.vocabulary p.tokens.reverse) :
    ∀ s ∈ p.tree.postorder, Scanner.looksLikeSign s = false := by
  intro s member
  rw [← Bool.not_eq_true]
  intro looks
  obtain ⟨written, inside, same⟩ := Phrase.exists_token member
  have looks : Scanner.looksLikeSign written = true := same.trans looks
  obtain ⟨_, _, _, notBetween⟩ := sheltered.product wellFormed inside looks
  cases written with
  | operand _ => cases looks
  | «variable» _ => cases looks
  | call callable =>
    cases given _ inside with
    | call called => cases called.symm.trans (shares _ looks).1
  | operator op =>
    obtain ⟨fixity, begins⟩ := Bool.and_eq_true_iff.mp looks
    cases given _ inside with
    | operator offers =>
      obtain ⟨_, ⟨c, label, signed, marked, _⟩ | ⟨_, found, shown, _⟩⟩ :=
        offers.before_cases ready.regular (beq_iff_eq.mp fixity)
      · exact Bool.noConfusion
          ((Scanner.looksLikeSign_of_signLabel? signed marked).symm.trans looks)
      · rw [shown] at found
        cases found.symm.trans ((shares _ begins).2 (notBetween op rfl))

end InfixCalc
