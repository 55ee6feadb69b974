import Mathlib.Data.List.Chain
import InfixCalc.Proofs.Conversion.Limit

/-!
# Tokens without adjoining operands

Where no operand begins directly behind one that has ended, the conversion to postfix order keeps
its balance. What it gives is then the listing of a tree that has all its operands, and only the
limit may still refuse it.
-/

namespace InfixCalc

variable {σ α : Type}

/-- The second token may stand directly behind the first: no operand begins where one has ended. -/
def Token.Joins (t u : Token σ α) : Prop := t.endsOperand = true → u.startsOperand = false

namespace Postfix

/-- The tokens may come next, and each of them may stand behind the one before. -/
structure State.Admits (state : State σ α) (ts : List (Token σ α)) : Prop where
  first : ∀ t ∈ ts.head?, state.ended = true → t.startsOperand = false
  chain : ts.IsChain Token.Joins

theorem admits_initial {ts : List (Token σ α)} (chain : ts.IsChain Token.Joins) :
    (State.initial : State σ α).Admits ts :=
  ⟨fun _ _ never => Bool.noConfusion never, chain⟩

theorem State.Admits.starts {state : State σ α} {t : Token σ α} {rest : List (Token σ α)}
    (admits : state.Admits (t :: rest)) (starts : t.startsOperand = true) :
    state.ended = false := by
  rw [← Bool.not_eq_true]
  intro ended
  rw [admits.first t rfl ended] at starts
  cases starts

theorem State.Admits.next {state next : State σ α} {t : Token σ α} {rest : List (Token σ α)}
    (admits : state.Admits (t :: rest)) (last : next.last = some t) : next.Admits rest := by
  obtain ⟨joins, chain⟩ := List.isChain_cons.mp admits.chain
  refine ⟨?_, chain⟩
  intro u member ended
  refine joins u member ?_
  simpa [State.ended, last] using ended

/- Which token a step leaves behind. -/

theorem last_operator {state next : State σ α} {op : Operator σ α}
    (h : operator state op = .ok next) : next.last = some (.symbol (.operator op)) := by
  by_cases fixity : op.fixity = .before
  · rw [operator_before fixity] at h
    split at h
    · cases h
    · cases h
      rfl
  · rw [operator_behind fixity] at h
    split at h
    · cases h
      unfold behind
      split
      · rfl
      · rfl
    · cases h

theorem last_comma {state next : State σ α} (h : comma state = .ok next) :
    next.last = some (.separator .comma) := by
  rw [comma_ended (ended_of_comma h)] at h
  split at h
  · cases h
    rfl
  · cases h

theorem last_closeParen {state next : State σ α} (h : closeParen state = .ok next) :
    next.last = some (.separator .closeParen) := by
  unfold closeParen at h
  simp only at h
  split at h
  · cases h
  · obtain ⟨closed, _, given⟩ := bind_eq_ok_iff.mp h
    cases given
    rfl

/-- Tokens without adjoining operands keep the balance. -/
theorem balance_run_eq {state next : State σ α} {ts : List (Token σ α)} (proper : state.Proper)
    (admits : state.Admits ts) (h : run none state ts = .ok next) :
    next.balance = state.balance := by
  fun_induction run none state ts
  case case1 state =>
    cases h
    rfl
  case case2 state rest ih =>
    obtain ⟨middle, opened, later⟩ := bind_eq_ok_iff.mp h
    obtain ⟨middleProper, raised⟩ := balance_openGroup opened
    rw [inHand_not_ended (admits.starts rfl)] at raised
    cases opened
    rw [ih _ middleProper (admits.next rfl) later, raised, Int.add_zero]
  case case3 state rest ih =>
    obtain ⟨middle, closed, later⟩ := bind_eq_ok_iff.mp h
    obtain ⟨middleProper, kept⟩ := balance_closeParen proper closed
    rw [ih middle middleProper (admits.next (last_closeParen closed)) later, kept]
  case case4 state rest ih =>
    obtain ⟨middle, added, later⟩ := bind_eq_ok_iff.mp h
    obtain ⟨middleProper, kept⟩ := balance_comma added
    rw [ih middle middleProper (admits.next (last_comma added)) later, kept]
  case case5 state callable rest ih =>
    obtain ⟨middle, opened, later⟩ := bind_eq_ok_iff.mp h
    obtain ⟨middleProper, raised⟩ := balance_openCall opened
    rw [inHand_not_ended (admits.starts rfl)] at raised
    cases opened
    have inside : (⟨state.output, .call callable 1 :: state.stack, state.depth + 1, true,
        some (.symbol (.call callable))⟩ : State σ α).Admits rest :=
      ⟨fun _ _ never => Bool.noConfusion never,
        (List.isChain_cons.mp (List.isChain_cons.mp admits.chain).2).2⟩
    rw [ih _ middleProper inside later, raised, Int.add_zero]
  case case6 => cases h
  case case7 state op rest ih =>
    obtain ⟨middle, added, later⟩ := bind_eq_ok_iff.mp h
    obtain ⟨middleProper, kept⟩ := balance_operator added
    rw [ih middle middleProper (admits.next (last_operator added)) later, kept]
  case case8 state s rest _ notCall notOperator ih =>
    have isLeaf : s.endsOperand = true ∧ s.arity = some 0 ∧
        (Token.symbol s).startsOperand = true := by
      cases s with
      | operand value => exact ⟨rfl, rfl, rfl⟩
      | «variable» label => exact ⟨rfl, rfl, rfl⟩
      | operator op => exact absurd rfl (notOperator op)
      | call callable => exact absurd rfl (notCall callable)
    obtain ⟨ends, arity, starts⟩ := isLeaf
    obtain ⟨leafProper, raised⟩ := balance_leaf state ends arity
    rw [inHand_not_ended (admits.starts starts)] at raised
    rw [ih leafProper (admits.next rfl) h, raised, Int.add_zero]

theorem weightOf_reorder {ts : List (Token σ α)} {symbols : List (Symbol σ α)}
    (chain : ts.IsChain Token.Joins) (h : reorder none ts = .ok symbols) :
    weightOf symbols = 1 := by
  obtain ⟨state, ran, finished⟩ := bind_eq_ok_iff.mp h
  have proper := (balance_run proper_initial ran).1
  rw [weightOf_finish proper finished, balance_run_eq proper_initial (admits_initial chain) ran,
    balance_initial, Int.zero_add]

end Postfix

namespace Tree

theorem Full.check_error {τ : Type} [Ranked τ] {limit : Option Nat} {depth : Nat} {t : Tree τ}
    {cause : Failure} (full : t.Full) (h : check limit depth t = .error cause) :
    cause.stage = .parsing := by
  induction full generalizing depth with
  | @node s cs arity _ ih =>
    cases limit with
    | none =>
      rw [check, if_pos arity] at h
      obtain ⟨c, member, inner⟩ := checkAll_error h
      exact ih c member inner
    | some most =>
      rw [check, if_pos arity] at h
      split at h
      · cases h
        rfl
      · obtain ⟨c, member, inner⟩ := checkAll_error h
        exact ih c member inner

/-- The listing of a tree that has all its operands is refused for the height of the tree only. -/
theorem Full.stage_of_assemble_error {τ : Type} [Ranked τ] {limit : Option Nat} {t : Tree τ}
    {cause : Failure} (full : t.Full) (h : assemble limit t.postorder = .error cause) :
    cause.stage = .parsing := by
  obtain ⟨s, cs⟩ := t
  have listed : (postorder (.node s cs)).reverse = s :: (postorderAll cs).reverse := by
    simp [postorder]
  simp only [assemble, listed, insertAll_full full] at h
  change (check limit 1 (.node s cs) >>= fun _ => pure (Tree.node s cs)) = .error cause at h
  rcases bind_eq_error_iff.mp h with failed | ⟨_, _, failed⟩
  · exact full.check_error failed
  · cases failed

/-- Tokens without adjoining operands give a tree with all its operands, or they are refused as
they are parsed, if need be without the number of arguments that a call takes. -/
theorem parse_of_joins {ts : List (Token σ α)} (chain : ts.IsChain Token.Joins)
    (limit : Option Nat) :
    (∃ t, parse limit ts = .ok t ∧ t.Full) ∨
      ∃ cause, parse limit ts = .error cause ∧
        (cause.stage = .parsing ∨ cause = .unreadableValue ∧ Token.Unwritable ts) := by
  cases assembled : parse limit ts with
  | ok t =>
    obtain ⟨⟨p, _, sound, same⟩, _⟩ := parse_eq_ok_iff.mp assembled
    exact .inl ⟨t, rfl, same ▸ sound.1.full⟩
  | error cause =>
    refine .inr ⟨cause, rfl, ?_⟩
    rcases bind_eq_error_iff.mp assembled with failed | ⟨symbols, converted, failed⟩
    · exact Postfix.stage_of_reorder_error failed
    · have unlimited := (Postfix.reorder_eq_ok_iff_within.mp converted).1
      obtain ⟨p, readAs, rfl⟩ := Postfix.reorder_eq_ok_iff.mp
        ⟨unlimited, Postfix.weightOf_reorder chain unlimited⟩
      exact .inl ((Phrase.sound_of_ofTokens? readAs).1.full.stage_of_assemble_error failed)

end Tree
end InfixCalc
