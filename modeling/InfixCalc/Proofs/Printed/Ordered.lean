import InfixCalc.Proofs.Precedence
import InfixCalc.Proofs.Printed.Shelter

/-!
# Written forms that keep operands

Where the operators that stand before or after one operand bind tighter than those between two,
the parentheses of the written form are enough: each operator finds its own operands there.
-/

namespace InfixCalc

variable {σ α : Type}

/-- The operators of one operand bind tighter than those of two. -/
def Vocabulary.Tight (v : Vocabulary σ α) : Prop :=
  ∀ op tight, v.Offers op → v.Offers tight → op.fixity.isBetween = true →
    tight.fixity.isBetween = false → op.precedence < tight.precedence

theorem Operator.precedence_explicit (op : Operator σ α) :
    op.explicit.precedence = op.precedence := by
  unfold Operator.explicit
  split
  · rfl
  · rfl

namespace Tree

/-- An operand that needs no parentheses and is an operator binds tighter than its parent, or as
tight and groups to the left on the left. -/
theorem of_needsParentheses {parent op : Operator σ α} {side : Side}
    (free : needsParentheses parent (.operator op) side = false) :
    parent.precedence < op.precedence ∨
      op.precedence = parent.precedence ∧
        (op.fixity.isBetween = true → side = .left ∧ op.fixity = .left) := by
  unfold needsParentheses at free
  simp only at free
  split at free
  · rename_i differs
    have notLess : ¬ op.precedence < parent.precedence := by simpa using free
    have notSame : op.precedence ≠ parent.precedence := by simpa using differs
    exact .inl (by omega)
  · rename_i same
    have same : op.precedence = parent.precedence := by simpa using same
    refine .inr ⟨same, fun between => ?_⟩
    rw [between, Bool.true_and] at free
    cases side with
    | right => cases free
    | left =>
      obtain ⟨notBefore, notAfter⟩ := Fixity.isBetween_iff.mp between
      refine ⟨rfl, ?_⟩
      cases fixity : op.fixity with
      | left => rfl
      | right =>
        rw [fixity] at free
        cases free
      | before => exact absurd fixity notBefore
      | after => exact absurd fixity notAfter

/- The edges of printed phrases. -/

theorem Spoken.unwrapped {scanner : Scanner σ α} {t : Tree (Symbol σ α)} (h : t.Spoken scanner)
    {parent : Operator σ α} (free : wrapsOperand parent t.symbol = false) :
    (t.printed scanner.vocabulary).leftEdge = [] ∧
      (t.printed scanner.vocabulary).opensGroup = false := by
  cases h with
  | operand _ => exact ⟨rfl, rfl⟩
  | name _ => exact ⟨rfl, rfl⟩
  | before fixity _ _ =>
    rw [printed_before _ fixity]
    exact ⟨rfl, rfl⟩
  | after fixity _ _ => simp [symbol, wrapsOperand, fixity] at free
  | @between op _ _ fixity _ _ _ =>
    have notBefore := (Fixity.isBetween_iff.mp fixity).1
    simp [symbol, wrapsOperand, notBefore] at free
  | call called _ _ =>
    rw [printed_call called]
    exact ⟨rfl, rfl⟩

theorem Spoken.unwrapped_word {scanner : Scanner σ α} {t : Tree (Symbol σ α)} (h : t.Spoken scanner)
    {parent : Operator σ α} (noSign : isSign parent = false)
    (free : wrapsOperand parent t.symbol = false) :
    (t.printed scanner.vocabulary).rightEdge = [] := by
  cases h with
  | operand _ => rfl
  | name _ => rfl
  | _ => simp [symbol, wrapsOperand, noSign] at free

/-- Where an operator at the right edge of a printed phrase comes from: it stands before its
operand, or it binds as tight as an operator between operands at the root. -/
def RightBound (v : Vocabulary σ α) (t : Tree (Symbol σ α)) (x : Operator σ α) : Prop :=
  ∃ source, v.Offers source ∧ x = source.explicit ∧
    (source.fixity = .before ∨ ∃ op, t.symbol = .operator op ∧ op.fixity.isBetween = true ∧
      op.precedence ≤ source.precedence ∧
        (op.precedence = source.precedence → source.fixity = op.fixity))

theorem Spoken.rightEdge_printed {scanner : Scanner σ α} {t : Tree (Symbol σ α)}
    (h : t.Spoken scanner) :
    ∀ x ∈ (t.printed scanner.vocabulary).rightEdge, RightBound scanner.vocabulary t x := by
  induction h with
  | operand _ =>
    intro x member
    cases member
  | name _ =>
    intro x member
    cases member
  | @before op child fixity offers _ ih =>
    intro x member
    rw [printed_before _ fixity] at member
    cases wraps : wrapsOperand op child.symbol with
    | true =>
      rw [wraps] at member
      cases member
    | false =>
      rw [wraps] at member
      simp only [Phrase.grouped, Phrase.rightEdge, Bool.false_eq_true, if_false] at member
      split at member
      · cases member
      · rcases List.mem_cons.mp member with rfl | inside
        · exact ⟨op, offers, rfl, .inl fixity⟩
        · obtain ⟨source, offered, same, before | ⟨inner, root, between, _⟩⟩ := ih x inside
          · exact ⟨source, offered, same, .inl before⟩
          · have notBefore := (Fixity.isBetween_iff.mp between).1
            simp [root, wrapsOperand, notBefore] at wraps
  | after fixity _ _ _ =>
    intro x member
    rw [printed_after _ fixity] at member
    cases member
  | @between op left right fixity offers _ _ _ ih =>
    intro x member
    rw [printed_between] at member
    rcases List.mem_cons.mp member with rfl | inside
    · exact ⟨op, offers, rfl, .inr ⟨op, rfl, fixity, Nat.le_refl _, fun _ => rfl⟩⟩
    · obtain ⟨free, inside⟩ := Phrase.mem_rightEdge_grouped.mp inside
      obtain ⟨source, offered, same, before | ⟨inner, root, between, low, _⟩⟩ := ih x inside
      · exact ⟨source, offered, same, .inl before⟩
      · rw [root] at free
        rcases of_needsParentheses free with tighter | ⟨_, onLeft⟩
        · exact ⟨source, offered, same, .inr ⟨op, rfl, fixity, by omega, by omega⟩⟩
        · cases (onLeft between).1
  | call called _ _ _ =>
    intro x member
    rw [printed_call called] at member
    cases member

/-- An operator at the left edge of a printed phrase binds as tight as the one at the root. -/
def LeftBound (t : Tree (Symbol σ α)) (x : Operator σ α) : Prop :=
  ∃ op, t.symbol = .operator op ∧ op.precedence ≤ x.precedence

theorem Spoken.leftEdge_printed {scanner : Scanner σ α} {t : Tree (Symbol σ α)}
    (h : t.Spoken scanner) :
    ∀ x ∈ (t.printed scanner.vocabulary).leftEdge, LeftBound t x := by
  induction h with
  | operand _ =>
    intro x member
    cases member
  | name _ =>
    intro x member
    cases member
  | before fixity _ _ _ =>
    intro x member
    rw [printed_before _ fixity] at member
    cases member
  | @after op child fixity _ spoken _ =>
    intro x member
    rw [printed_after _ fixity] at member
    rcases List.mem_cons.mp member with rfl | inside
    · exact ⟨op, rfl, Nat.le_of_eq op.precedence_explicit.symm⟩
    · obtain ⟨free, inside⟩ := Phrase.mem_leftEdge_grouped.mp inside
      rw [(spoken.unwrapped free).1] at inside
      cases inside
  | @between op left right fixity _ _ _ ih _ =>
    intro x member
    rw [printed_between] at member
    rcases List.mem_cons.mp member with rfl | inside
    · exact ⟨op, rfl, Nat.le_of_eq op.precedence_explicit.symm⟩
    · obtain ⟨free, inside⟩ := Phrase.mem_leftEdge_grouped.mp inside
      obtain ⟨inner, root, low⟩ := ih x inside
      rw [root] at free
      refine ⟨op, rfl, ?_⟩
      rcases of_needsParentheses free with tighter | ⟨same, _⟩
      · omega
      · omega
  | call called _ _ _ =>
    intro x member
    rw [printed_call called] at member
    cases member

/- The written form keeps every operand. -/

/-- Next to an operator between operands the left one is applied first, unless it is in
parentheses. -/
theorem Spoken.left_applied {scanner : Scanner σ α} (tight : scanner.vocabulary.Tight)
    {t : Tree (Symbol σ α)} (h : t.Spoken scanner) {op : Operator σ α}
    (offers : scanner.vocabulary.Offers op)
    (fixity : op.fixity.isBetween = true) :
    ∀ x ∈ ((t.printed scanner.vocabulary).grouped
      (needsParentheses op t.symbol .left)).rightEdge,
        Postfix.appliesFirst x op.explicit = true := by
  intro x member
  obtain ⟨free, member⟩ := Phrase.mem_rightEdge_grouped.mp member
  obtain ⟨source, offered, rfl, before | ⟨inner, root, between, low, sameFixity⟩⟩ :=
    h.rightEdge_printed x member
  · have tighter := tight op source offers offered fixity (by rw [before]; rfl)
    rw [Phrase.appliesFirst_eq_true_iff, Operator.precedence_explicit,
      Operator.precedence_explicit]
    exact .inl tighter
  · rw [Phrase.appliesFirst_eq_true_iff, Operator.precedence_explicit,
      Operator.precedence_explicit, Operator.fixity_explicit]
    rw [root] at free
    rcases of_needsParentheses free with tighter | ⟨same, onLeft⟩
    · exact .inl (by omega)
    · rcases Nat.eq_or_lt_of_le low with level | tighter
      · exact .inr ⟨by omega, .inl ((sameFixity level).trans (onLeft between).2)⟩
      · exact .inl (by omega)

theorem Spoken.right_waits {scanner : Scanner σ α} (tight : scanner.vocabulary.Tight)
    {t : Tree (Symbol σ α)} (h : t.Spoken scanner) {op : Operator σ α}
    (offers : scanner.vocabulary.Offers op)
    (fixity : op.fixity.isBetween = true) :
    ∀ x ∈ ((t.printed scanner.vocabulary).grouped
      (needsParentheses op t.symbol .right)).leftEdge,
        Postfix.appliesFirst op.explicit x = false := by
  intro x member
  obtain ⟨free, member⟩ := Phrase.mem_leftEdge_grouped.mp member
  obtain ⟨inner, root, low⟩ := h.leftEdge_printed x member
  have tighter : op.precedence < inner.precedence := by
    rw [root] at free
    rcases of_needsParentheses free with tighter | ⟨_, onLeft⟩
    · exact tighter
    · cases between : inner.fixity.isBetween with
      | true => cases (onLeft between).1
      | false =>
        have offered : scanner.vocabulary.Offers inner :=
          h.offers (by cases t; cases root; exact mem_postorder.mpr (.inr rfl))
        exact tight op inner offers offered fixity between
  rw [← Bool.not_eq_true, Phrase.appliesFirst_eq_true_iff, Operator.precedence_explicit]
  omega

/-- In a written form with tight operators every operator finds its operands. -/
theorem Spoken.ordered {scanner : Scanner σ α} (ready : scanner.Ready)
    (tight : scanner.vocabulary.Tight) {t : Tree (Symbol σ α)} (h : t.Spoken scanner) :
    (t.printed scanner.vocabulary).Ordered := by
  induction h with
  | operand _ => exact .operand _
  | name _ => exact .name _
  | @before op child fixity _ spoken ih =>
    rw [printed_before _ fixity]
    cases wraps : wrapsOperand op child.symbol with
    | true =>
      refine .before ?_ (fun _ => rfl) (.group ih)
      intro x member
      cases member
    | false =>
      obtain ⟨noEdge, noGroup⟩ := spoken.unwrapped wraps
      refine .before ?_ ?_ ih
      · intro x member
        change x ∈ (child.printed scanner.vocabulary).leftEdge at member
        rw [noEdge] at member
        cases member
      · intro opens
        exact Bool.noConfusion (noGroup.symm.trans opens)
  | @after op child fixity offers spoken ih =>
    rw [printed_after _ fixity]
    have noSign := (offers.after_cases ready.regular fixity).2.2.2.2
    refine .after ?_ (ih.grouped _)
    intro x member
    obtain ⟨free, inside⟩ := Phrase.mem_rightEdge_grouped.mp member
    rw [spoken.unwrapped_word noSign free] at inside
    cases inside
  | between fixity offers left right leftIh rightIh =>
    rw [printed_between]
    exact .between (left.left_applied tight offers fixity) (right.right_waits tight offers fixity)
      (leftIh.grouped _) (rightIh.grouped _)
  | call called _ _ ih =>
    rw [printed_call called]
    refine .call ?_
    intro p member
    obtain ⟨c, inside, rfl⟩ := List.mem_map.mp member
    exact ih c inside

end Tree
end InfixCalc
