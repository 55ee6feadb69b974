import Mathlib.Algebra.BigOperators.Group.List.Basic
import Mathlib.Algebra.Ring.Int.Defs
import InfixCalc.Proofs.Conversion.Step

/-!
# The balance of a conversion

Each symbol changes the number of complete operands by its weight, and a tree has weight one.
Operands that stand side by side without an operator raise the balance of the conversion to postfix
order, and nothing lowers it again: such tokens never give a tree.
-/

namespace InfixCalc

variable {σ α : Type}

/-- The change that a symbol makes in the number of complete operands. -/
def Symbol.weight (s : Symbol σ α) : Int := 1 - (s.arity.getD 0 : Nat)

def weightOf (symbols : List (Symbol σ α)) : Int := (symbols.map Symbol.weight).sum

@[simp] theorem weightOf_nil : weightOf ([] : List (Symbol σ α)) = 0 := rfl

@[simp] theorem weightOf_cons (s : Symbol σ α) (rest : List (Symbol σ α)) :
    weightOf (s :: rest) = s.weight + weightOf rest := by
  simp [weightOf]

@[simp] theorem weightOf_append (xs ys : List (Symbol σ α)) :
    weightOf (xs ++ ys) = weightOf xs + weightOf ys := by
  simp [weightOf]

@[simp] theorem weightOf_reverse (xs : List (Symbol σ α)) :
    weightOf xs.reverse = weightOf xs := by
  induction xs with
  | nil => rfl
  | cons x xs ih =>
    simp only [List.reverse_cons, weightOf_append, ih, weightOf_cons, weightOf_nil]
    omega

theorem Symbol.weight_settledAt {callable : Callable σ α} {count : Nat}
    (takes : callable.Takes count) :
    (Symbol.call (callable.settledAt count) : Symbol σ α).weight = 1 - (count : Int) := by
  simp [Symbol.weight, Symbol.arity, Callable.arity_settledAt takes]

theorem Tree.weightOf_postorderAll {cs : List (Tree (Symbol σ α))}
    (one : ∀ c ∈ cs, weightOf c.postorder = 1) : weightOf (postorderAll cs) = cs.length := by
  induction cs with
  | nil => rfl
  | cons c cs ih =>
    have rest := ih fun d member => one d (List.mem_cons_of_mem _ member)
    simp only [postorderAll, weightOf_append, one c List.mem_cons_self, rest, List.length_cons]
    omega

theorem Tree.Full.weightOf_postorder {t : Tree (Symbol σ α)} (full : t.Full) :
    weightOf t.postorder = 1 := by
  induction full with
  | node arity _ ih =>
    rw [Symbol.ranked_arity] at arity
    simp only [postorder, weightOf_append, weightOf_postorderAll ih, weightOf_cons, weightOf_nil,
      Symbol.weight, arity, Option.getD_some]
    omega

def Waiting.weight : Waiting σ α → Int
  | .operator op => (Symbol.operator op : Symbol σ α).weight
  | .call _ arguments => 1 - (arguments : Nat)
  | .group => 0

namespace Postfix

def stackWeight (stack : List (Waiting σ α)) : Int := (stack.map Waiting.weight).sum

@[simp] theorem stackWeight_nil : stackWeight ([] : List (Waiting σ α)) = 0 := rfl

@[simp] theorem stackWeight_cons (w : Waiting σ α) (rest : List (Waiting σ α)) :
    stackWeight (w :: rest) = w.weight + stackWeight rest := by
  simp [stackWeight]

theorem weight_applyWhile (condition : Operator σ α → Bool) (output : List (Symbol σ α))
    (stack : List (Waiting σ α)) :
    weightOf (applyWhile condition output stack).1 +
      stackWeight (applyWhile condition output stack).2 =
        weightOf output + stackWeight stack := by
  fun_induction applyWhile condition output stack with
  | case1 output op stack holds ih =>
    rw [ih]
    simp only [weightOf_cons, stackWeight_cons, Waiting.weight]
    omega
  | case2 => rfl
  | case3 => rfl

theorem weight_applyAll {output applied : List (Symbol σ α)} {stack rest : List (Waiting σ α)}
    (h : applyAll output stack = (applied, rest)) :
    weightOf applied + stackWeight rest = weightOf output + stackWeight stack := by
  have same := weight_applyWhile (fun _ => true) output stack
  unfold applyAll at h
  rw [h] at same
  exact same

def State.inHand (state : State σ α) : Int := if state.ended then 1 else 0

/-- The complete operands beyond those that the stack and the last token account for. -/
def State.balance (state : State σ α) : Int :=
  weightOf state.output + stackWeight state.stack - state.inHand

theorem balance_initial : (State.initial : State σ α).balance = 0 := rfl

theorem inHand_nonneg (state : State σ α) : 0 ≤ state.inHand := by
  unfold State.inHand
  split
  · exact Int.one_nonneg
  · exact Int.le_refl 0

theorem inHand_ended {state : State σ α} (ended : state.ended = true) : state.inHand = 1 := by
  simp [State.inHand, ended]

theorem inHand_not_ended {state : State σ α} (ended : state.ended = false) : state.inHand = 0 := by
  simp [State.inHand, ended]

/- One token. An operand where one has just ended raises the balance; nothing else changes it. -/

theorem balance_leaf (state : State σ α) {s : Symbol σ α} (ends : s.endsOperand = true)
    (arity : s.arity = some 0) :
    (leaf state s).Proper ∧ (leaf state s).balance = state.balance + state.inHand := by
  constructor
  · refine proper_of_last rfl rfl ?_ (by simp)
    intro callable same
    cases same
    cases ends
  · have now : (leaf state s).inHand = 1 := inHand_ended ends
    have one : s.weight = 1 := by simp [Symbol.weight, arity]
    simp only [State.balance, now]
    simp only [leaf, weightOf_cons, one]
    omega

theorem balance_openGroup {state next : State σ α} (h : openGroup none state = .ok next) :
    next.Proper ∧ next.balance = state.balance + state.inHand := by
  cases h
  constructor
  · exact ⟨by simp, by simp, fun s same other => ⟨.group, state.stack, rfl, by simp⟩, by simp⟩
  · rw [State.balance, inHand_not_ended rfl]
    simp [State.balance, Waiting.weight]

theorem balance_openCall {state next : State σ α} {callable : Callable σ α}
    (h : openCall none state callable = .ok next) :
    next.Proper ∧ next.balance = state.balance + state.inHand := by
  cases h
  constructor
  · exact ⟨fun _ => ⟨callable, state.stack, rfl, rfl⟩, by simp, by simp, by simp⟩
  · rw [State.balance, inHand_not_ended rfl]
    simp [State.balance, Waiting.weight]

theorem proper_of_operator {state : State σ α} {op : Operator σ α}
    (closed : state.callOpened = false) (last : state.last = some (.symbol (.operator op))) :
    state.Proper :=
  proper_of_last closed last (by simp) (by simp)

theorem balance_behind {state : State σ α} {op : Operator σ α} (fixity : op.fixity ≠ .before)
    (ended : state.ended = true) :
    (behind state op).Proper ∧ (behind state op).balance = state.balance := by
  have applied := weight_applyWhile (appliesFirst · op) state.output state.stack
  rw [State.balance, State.balance, inHand_ended ended, ← applied]
  unfold behind
  split
  · rename_i after
    have one : op.fixity.arity = 1 := by simp [after, Fixity.arity, Fixity.isBetween]
    refine ⟨proper_of_operator rfl rfl, ?_⟩
    rw [inHand_ended (by simp [State.ended, Token.endsOperand, Symbol.endsOperand, after])]
    simp only [weightOf_cons, Symbol.weight, Symbol.arity, Option.getD_some, one]
    omega
  · rename_i notAfter
    have two : op.fixity.arity = 2 := by
      simp [Fixity.arity, Fixity.isBetween_iff.mpr ⟨fixity, notAfter⟩]
    refine ⟨proper_of_operator rfl rfl, ?_⟩
    rw [inHand_not_ended (by simp [State.ended, Token.endsOperand, Symbol.endsOperand, notAfter])]
    simp only [stackWeight_cons, Waiting.weight, Symbol.weight, Symbol.arity, Option.getD_some, two]
    omega

theorem balance_operator {state next : State σ α} {op : Operator σ α}
    (h : operator state op = .ok next) : next.Proper ∧ next.balance = state.balance := by
  by_cases fixity : op.fixity = .before
  · rw [operator_before fixity] at h
    split at h
    · cases h
    · rename_i notEnded
      cases h
      have one : op.fixity.arity = 1 := by simp [fixity, Fixity.arity, Fixity.isBetween]
      refine ⟨proper_of_operator rfl rfl, ?_⟩
      rw [State.balance, State.balance, inHand_not_ended (Bool.eq_false_iff.mpr notEnded),
        inHand_not_ended (by simp [State.ended, Token.endsOperand, Symbol.endsOperand, fixity])]
      simp [Waiting.weight, Symbol.weight, Symbol.arity, Option.getD_some, one]
  · rw [operator_behind fixity] at h
    split at h
    · rename_i ended
      cases h
      exact balance_behind fixity ended
    · cases h

theorem balance_comma {state next : State σ α} (h : comma state = .ok next) :
    next.Proper ∧ next.balance = state.balance := by
  have ended := ended_of_comma h
  rw [comma_ended ended] at h
  split at h
  · rename_i output callable count stack top
    cases h
    have applied := weight_applyAll top
    refine ⟨⟨by simp, by simp, ?_, by simp⟩, ?_⟩
    · exact fun s same other => ⟨.call callable (count + 1), stack, rfl, by simp⟩
    · rw [State.balance, State.balance, inHand_ended ended, inHand_not_ended rfl]
      simp only [stackWeight_cons, Waiting.weight] at applied ⊢
      omega
  · cases h

theorem weight_closeGroup (output : List (Symbol σ α)) (stack : List (Waiting σ α)) :
    weightOf (closeGroup output stack).1 + stackWeight (closeGroup output stack).2 =
      weightOf output + stackWeight stack := by
  unfold closeGroup
  split
  · split
    · simp only [weightOf_cons, stackWeight_cons, Waiting.weight]
      omega
    · rfl
  · rfl

theorem weight_close {state : State σ α} {closed : List (Symbol σ α) × List (Waiting σ α)}
    (proper : state.Proper) (closable : state.closable = true)
    (h : close state.output state.stack state.callOpened = .ok closed) :
    weightOf closed.1 + stackWeight closed.2 - 1 = state.balance := by
  cases opened : state.callOpened with
  | true =>
    obtain ⟨callable, rest, last, stack⟩ := proper.opened opened
    have noOperator (op : Operator σ α) : Waiting.call callable 1 ≠ .operator op := by simp
    rw [stack, opened, close_call true (applyAll_of_top noOperator state.output rest)] at h
    simp only [if_true] at h
    split at h
    · rename_i settled fits
      cases h
      obtain ⟨takes, rfl⟩ := settle_eq_ok_iff.mp fits
      rw [State.balance, inHand_not_ended (by simp [State.ended, last, Token.endsOperand,
        Symbol.endsOperand]), stack]
      simp only [weightOf_cons, stackWeight_cons, Waiting.weight, Symbol.weight_settledAt takes]
      omega
    · cases h
  | false =>
    have ended : state.ended = true := by simpa [State.closable, opened] using closable
    rw [State.balance, inHand_ended ended]
    rw [opened] at h
    obtain ⟨applied, top | ⟨rest, top⟩ | ⟨callable, count, rest, top⟩⟩ :=
      applyAll_cases state.output state.stack
    · cases (close_empty false top).symm.trans h
    · cases (close_group false top).symm.trans h
      have same := weight_applyAll top
      have group := weight_closeGroup applied rest
      simp only [stackWeight_cons, Waiting.weight] at same
      omega
    · rw [close_call false top] at h
      simp only [Bool.false_eq_true, if_false] at h
      split at h
      · rename_i settled fits
        cases h
        obtain ⟨takes, rfl⟩ := settle_eq_ok_iff.mp fits
        have same := weight_applyAll top
        simp only [stackWeight_cons, Waiting.weight] at same
        simp only [weightOf_cons, Symbol.weight_settledAt takes]
        omega
      · cases h

theorem balance_closeParen {state next : State σ α} (proper : state.Proper)
    (h : closeParen state = .ok next) : next.Proper ∧ next.balance = state.balance := by
  cases closable : state.closable with
  | false =>
    rcases closeParen_not_closable proper closable with failed | failed <;>
      cases failed.symm.trans h
  | true =>
    rw [closeParen_closable closable] at h
    split at h
    · rename_i closed done
      cases h
      refine ⟨proper_of_last rfl rfl (by simp) (by simp), ?_⟩
      rw [← weight_close proper closable done, State.balance, inHand_ended rfl]
    · cases h

theorem balance_step {state next : State σ α} (proper : state.Proper)
    (step : Step none state next) : next.Proper ∧ state.balance ≤ next.balance := by
  have held := inHand_nonneg state
  cases step with
  | leaf ends arity =>
    obtain ⟨nextProper, raised⟩ := balance_leaf state ends arity
    exact ⟨nextProper, by omega⟩
  | openGroup opened =>
    obtain ⟨nextProper, raised⟩ := balance_openGroup opened
    exact ⟨nextProper, by omega⟩
  | openCall opened =>
    obtain ⟨nextProper, raised⟩ := balance_openCall opened
    exact ⟨nextProper, by omega⟩
  | operator added =>
    obtain ⟨nextProper, kept⟩ := balance_operator added
    exact ⟨nextProper, Int.le_of_eq kept.symm⟩
  | comma added =>
    obtain ⟨nextProper, kept⟩ := balance_comma added
    exact ⟨nextProper, Int.le_of_eq kept.symm⟩
  | closeParen closed =>
    obtain ⟨nextProper, kept⟩ := balance_closeParen proper closed
    exact ⟨nextProper, Int.le_of_eq kept.symm⟩

/-- The balance never falls. -/
theorem balance_run {state next : State σ α} {ts : List (Token σ α)} (proper : state.Proper)
    (h : run none state ts = .ok next) : next.Proper ∧ state.balance ≤ next.balance := by
  refine run_induction (motive := fun s => s.Proper ∧ state.balance ≤ s.balance) ?_
    ⟨proper, Int.le_refl _⟩ h
  intro first second step reached
  obtain ⟨secondProper, risen⟩ := balance_step reached.1 step
  exact ⟨secondProper, Int.le_trans reached.2 risen⟩

theorem weightOf_finish {state : State σ α} {symbols : List (Symbol σ α)} (proper : state.Proper)
    (h : finish state = .ok symbols) : weightOf symbols = state.balance + 1 := by
  have same := weight_applyAll (finish_eq_ok_iff.mp h).2
  rw [State.balance, inHand_ended (ended_of_finish proper h), ← same, weightOf_reverse,
    stackWeight_nil]
  omega

end Postfix
end InfixCalc
