import InfixCalc.Proofs.Phrase

/-!
# Steps of the conversion to postfix order

What each token does to the state, as one equation for each kind of token.
-/

namespace InfixCalc

variable {σ α : Type}

namespace Postfix

def State.ended (state : State σ α) : Bool := (state.last.map Token.endsOperand).getD false

theorem ended_iff (state : State σ α) :
    state.ended = true ↔ atOpening state.last = false ∧ lacksOperand state.last = false := by
  unfold State.ended
  cases state.last with
  | none => simp [atOpening]
  | some t =>
    cases t with
    | separator s => cases s <;> simp [Token.endsOperand, atOpening, lacksOperand]
    | symbol s =>
      cases s <;> simp [Token.endsOperand, Symbol.endsOperand, Symbol.awaitsOperand, atOpening,
        lacksOperand]

/-- What the last token says about the stack. -/
structure State.Proper (state : State σ α) : Prop where
  opened : state.callOpened = true → ∃ callable rest,
    state.last = some (.symbol (.call callable)) ∧ state.stack = .call callable 1 :: rest
  call : ∀ callable, state.last = some (.symbol (.call callable)) → state.callOpened = true
  separator : ∀ s, state.last = some (.separator s) → s ≠ .closeParen →
    ∃ w rest, state.stack = w :: rest ∧ ∀ op, w ≠ .operator op
  start : state.last = none → state.stack = []

theorem proper_initial : (State.initial : State σ α).Proper := by
  refine ⟨?_, ?_, ?_, ?_⟩ <;> simp [State.initial]

theorem proper_of_last {state : State σ α} {t : Token σ α} (closed : state.callOpened = false)
    (last : state.last = some t) (noCall : ∀ callable, t ≠ .symbol (.call callable))
    (noSeparator : ∀ s, t = .separator s → s = .closeParen) : state.Proper := by
  refine ⟨?_, ?_, ?_, ?_⟩
  · simp [closed]
  · intro callable same
    exact absurd (Option.some.inj (last.symm.trans same)) (noCall callable)
  · intro s same notClose
    exact absurd (noSeparator s (Option.some.inj (last.symm.trans same))) notClose
  · intro same
    cases last.symm.trans same

def behind (state : State σ α) (op : Operator σ α) : State σ α :=
  let applied := applyWhile (appliesFirst · op) state.output state.stack
  let last : Option (Token σ α) := some (.symbol (.operator op))
  if op.fixity = .after then ⟨.operator op :: applied.1, applied.2, state.depth, false, last⟩
  else ⟨applied.1, .operator op :: applied.2, state.depth, false, last⟩

theorem operator_before {op : Operator σ α} (fixity : op.fixity = .before) (state : State σ α) :
    operator state op =
      if state.ended then .error (.misplacedPrefix op.display)
      else .ok ⟨state.output, .operator op :: state.stack, state.depth, false,
        some (.symbol (.operator op))⟩ := by
  unfold operator State.ended
  simp only [fixity, if_true]
  split
  · rfl
  · rfl

theorem operator_behind {op : Operator σ α} (fixity : op.fixity ≠ .before) (state : State σ α) :
    operator state op =
      if state.ended then .ok (behind state op) else .error (.missingOperandBefore op.display) := by
  unfold operator behind
  simp only [fixity, if_false]
  by_cases ended : state.ended = true
  · obtain ⟨notOpening, notLacking⟩ := (ended_iff state).mp ended
    simp only [ended, notOpening, notLacking, Bool.or_self, Bool.false_eq_true, if_false, if_true]
    split
    · rfl
    · rfl
  · have missing : (atOpening state.last || lacksOperand state.last) = true := by
      rw [ended_iff] at ended
      grind
    simp only [ended, missing, if_true]
    rfl

theorem comma_ended {state : State σ α} (ended : state.ended = true) :
    comma state = match applyAll state.output state.stack with
      | (output, .call callable count :: stack) =>
        .ok ⟨output, .call callable (count + 1) :: stack, state.depth, false,
          some (.separator .comma)⟩
      | _ => .error .commaOutsideCall := by
  obtain ⟨notOpening, notLacking⟩ := (ended_iff state).mp ended
  unfold comma
  simp only [notOpening, notLacking]
  rfl

theorem comma_not_ended {state : State σ α} (ended : state.ended = false) :
    comma state = .error .misplacedComma ∨ comma state = .error (.missingOperandBefore ",") := by
  unfold comma
  by_cases opening : atOpening state.last = true
  · exact .inl (by simp only [opening, if_true]; rfl)
  · have missing : lacksOperand state.last = true := by
      have := ended_iff state
      grind
    exact .inr (by simp only [opening, missing, if_true]; rfl)

theorem ended_of_comma {state next : State σ α} (h : comma state = .ok next) :
    state.ended = true := by
  cases ended : state.ended with
  | true => rfl
  | false =>
    rcases comma_not_ended ended with failed | failed
    · cases failed.symm.trans h
    · cases failed.symm.trans h

/-- Whether a parenthesis may close here: behind an operand, or behind the opening of a call. -/
def State.closable (state : State σ α) : Bool := state.callOpened || state.ended

theorem closeParen_closable {state : State σ α} (closable : state.closable = true) :
    closeParen state = match close state.output state.stack state.callOpened with
      | .ok closed =>
        .ok ⟨closed.1, closed.2, state.depth - 1, false, some (.separator .closeParen)⟩
      | .error cause => .error cause := by
  have fine : (!state.callOpened && lacksOperand state.last) = false := by
    have := ended_iff state
    simp only [State.closable, Bool.or_eq_true] at closable
    grind
  unfold closeParen
  simp only [fine]
  cases close state.output state.stack state.callOpened <;> rfl

theorem closeParen_not_closable {state : State σ α} (proper : state.Proper)
    (closable : state.closable = false) :
    closeParen state = .error (.missingOperandBefore ")") ∨
      closeParen state = .error .unmatchedParenthesis := by
  obtain ⟨notOpened, notEnded⟩ : state.callOpened = false ∧ state.ended = false := by
    simpa [State.closable] using closable
  cases last : state.last with
  | none =>
    refine .inr ?_
    unfold closeParen
    simp only [notOpened, last, lacksOperand, proper.start last]
    rfl
  | some t =>
    have notCall (callable : Callable σ α) : t ≠ .symbol (.call callable) := by
      rintro rfl
      exact absurd (proper.call callable last) (by simp [notOpened])
    have lacking : lacksOperand state.last = true := by
      have opening : atOpening (some t) = false := by
        unfold atOpening
        split
        · contradiction
        · rename_i callable same
          exact absurd (Option.some.inj same) (notCall callable)
        · rfl
      have := ended_iff state
      grind
    refine .inl ?_
    unfold closeParen
    simp only [notOpened, lacking]
    rfl

theorem close_call {output applied : List (Symbol σ α)} {stack rest : List (Waiting σ α)}
    {callable : Callable σ α} {count : Nat} (noArguments : Bool)
    (top : applyAll output stack = (applied, .call callable count :: rest)) :
    close output stack noArguments =
      match settle callable (if noArguments then 0 else count) with
      | .ok settled => .ok (.call settled :: applied, rest)
      | .error cause => .error cause := by
  unfold close
  simp only [top]
  cases settle callable (if noArguments then 0 else count) <;> rfl

/-- What an operator before a group does when the group ends. -/
def closeGroup (output : List (Symbol σ α)) :
    List (Waiting σ α) → List (Symbol σ α) × List (Waiting σ α)
  | .operator op :: below =>
    if op.fixity = .before then (.operator op :: output, below)
    else (output, .operator op :: below)
  | stack => (output, stack)

theorem close_group {output applied : List (Symbol σ α)} {stack rest : List (Waiting σ α)}
    (noArguments : Bool) (top : applyAll output stack = (applied, .group :: rest)) :
    close output stack noArguments = .ok (closeGroup applied rest) := by
  unfold close
  simp only [top]
  rcases rest with _ | ⟨w, below⟩
  · rfl
  · cases w with
    | operator op =>
      simp only [closeGroup]
      split
      · rfl
      · rfl
    | call callable count => rfl
    | group => rfl

theorem close_empty {output applied : List (Symbol σ α)} {stack : List (Waiting σ α)}
    (noArguments : Bool) (top : applyAll output stack = (applied, [])) :
    close output stack noArguments = .error .unmatchedParenthesis := by
  unfold close
  simp only [top]

theorem applyAll_cases (output : List (Symbol σ α)) (stack : List (Waiting σ α)) :
    ∃ applied, applyAll output stack = (applied, []) ∨
      (∃ rest, applyAll output stack = (applied, .group :: rest)) ∨
      ∃ callable count rest, applyAll output stack = (applied, .call callable count :: rest) := by
  unfold applyAll
  fun_induction applyWhile (fun _ => true) output stack with
  | case1 output op stack _ ih => exact ih
  | case2 output op stack never => exact absurd rfl never
  | case3 output stack notOperator =>
    refine ⟨output, ?_⟩
    rcases stack with _ | ⟨w, rest⟩
    · exact .inl rfl
    · cases w with
      | operator op => exact absurd rfl (notOperator op rest)
      | call callable count => exact .inr (.inr ⟨callable, count, rest, rfl⟩)
      | group => exact .inr (.inl ⟨rest, rfl⟩)

theorem applyAll_of_top {w : Waiting σ α} (noOperator : ∀ op, w ≠ .operator op)
    (output : List (Symbol σ α)) (rest : List (Waiting σ α)) :
    applyAll output (w :: rest) = (output, w :: rest) := by
  unfold applyAll applyWhile
  split
  · rename_i op stack same
    exact absurd (List.cons.inj same).1 (noOperator op)
  · rfl

def State.unfinished (state : State σ α) : Bool :=
  match state.last with
  | none => true
  | some (.symbol s) => s.awaitsOperand
  | some _ => false

theorem finish_eq (state : State σ α) :
    finish state =
      if state.unfinished then .error .missingOperandAtEnd
      else match applyAll state.output state.stack with
        | (output, []) => .ok output.reverse
        | _ => .error .unmatchedParenthesis := rfl

theorem finish_eq_ok_iff {state : State σ α} {symbols : List (Symbol σ α)} :
    finish state = .ok symbols ↔
      state.unfinished = false ∧ applyAll state.output state.stack = (symbols.reverse, []) := by
  rw [finish_eq]
  split
  · simp_all
  · rename_i finished
    obtain ⟨applied, rest⟩ := applyAll state.output state.stack
    cases rest with
    | nil => simp [finished, List.reverse_eq_iff]
    | cons w rest => simp

theorem unfinished_of_ended {state : State σ α} (ended : state.ended = true) :
    state.unfinished = false := by
  cases last : state.last with
  | none => simp [State.ended, last] at ended
  | some t =>
    cases t with
    | separator s => simp [State.unfinished, last]
    | symbol s =>
      cases s <;> simp_all [State.ended, State.unfinished, Token.endsOperand, Symbol.endsOperand,
        Symbol.awaitsOperand]

theorem ended_of_finish {state : State σ α} {symbols : List (Symbol σ α)} (proper : state.Proper)
    (h : finish state = .ok symbols) : state.ended = true := by
  obtain ⟨finished, top⟩ := finish_eq_ok_iff.mp h
  have stuck {w : Waiting σ α} {rest : List (Waiting σ α)} (stack : state.stack = w :: rest)
      (noOperator : ∀ op, w ≠ .operator op) : False := by
    rw [stack, applyAll_of_top noOperator] at top
    exact List.cons_ne_nil w rest (congrArg Prod.snd top)
  unfold State.unfinished at finished
  cases last : state.last with
  | none => simp [last] at finished
  | some t =>
    cases t with
    | separator s =>
      by_cases closed : s = .closeParen
      · simp [State.ended, last, Token.endsOperand, closed]
      · obtain ⟨w, rest, stack, noOperator⟩ := proper.separator s last closed
        exact (stuck stack noOperator).elim
    | symbol s =>
      simp only [last] at finished
      cases s with
      | operand value => simp [State.ended, last, Token.endsOperand, Symbol.endsOperand]
      | «variable» label => simp [State.ended, last, Token.endsOperand, Symbol.endsOperand]
      | operator op =>
        simpa [State.ended, last, Token.endsOperand, Symbol.endsOperand, Symbol.awaitsOperand]
          using finished
      | call callable =>
        obtain ⟨other, rest, same, stack⟩ := proper.opened (proper.call callable last)
        exact (stuck stack (by simp)).elim

theorem run_call_alone {callable : Callable σ α} {rest : List (Token σ α)}
    (alone : ∀ others, rest ≠ .separator .openParen :: others) (limit : Option Nat)
    (state : State σ α) :
    run limit state (.symbol (.call callable) :: rest) =
      .error (.missingParenthesisAfter callable.label) := by
  rcases rest with _ | ⟨t, others⟩
  · rfl
  · cases t with
    | symbol s => rfl
    | separator s =>
      cases s with
      | openParen => exact absurd rfl (alone others)
      | closeParen => rfl
      | comma => rfl

/-- What one token, or the two that open a call, can do. -/
inductive Step (limit : Option Nat) : State σ α → State σ α → Prop where
  | leaf (state : State σ α) {s : Symbol σ α} :
      s.endsOperand = true → s.arity = some 0 → Step limit state (leaf state s)
  | openGroup {state next : State σ α} : openGroup limit state = .ok next → Step limit state next
  | openCall {state next : State σ α} {callable : Callable σ α} :
      openCall limit state callable = .ok next → Step limit state next
  | operator {state next : State σ α} {op : Operator σ α} :
      operator state op = .ok next → Step limit state next
  | comma {state next : State σ α} : comma state = .ok next → Step limit state next
  | closeParen {state next : State σ α} : closeParen state = .ok next → Step limit state next

/-- What every step preserves holds at the end. -/
theorem run_induction {limit : Option Nat} {motive : State σ α → Prop} {state next : State σ α}
    {ts : List (Token σ α)}
    (step : ∀ {state next : State σ α}, Step limit state next → motive state → motive next)
    (start : motive state) (h : run limit state ts = .ok next) : motive next := by
  fun_induction run limit state ts
  case case1 =>
    cases h
    exact start
  case case2 state rest ih =>
    obtain ⟨middle, opened, later⟩ := bind_eq_ok_iff.mp h
    exact ih middle (step (.openGroup opened) start) later
  case case3 state rest ih =>
    obtain ⟨middle, closed, later⟩ := bind_eq_ok_iff.mp h
    exact ih middle (step (.closeParen closed) start) later
  case case4 state rest ih =>
    obtain ⟨middle, added, later⟩ := bind_eq_ok_iff.mp h
    exact ih middle (step (.comma added) start) later
  case case5 state callable rest ih =>
    obtain ⟨middle, opened, later⟩ := bind_eq_ok_iff.mp h
    exact ih middle (step (.openCall opened) start) later
  case case6 => cases h
  case case7 state op rest ih =>
    obtain ⟨middle, added, later⟩ := bind_eq_ok_iff.mp h
    exact ih middle (step (.operator added) start) later
  case case8 state s rest _ notCall notOperator ih =>
    cases s with
    | operand value => exact ih (step (.leaf state rfl rfl) start) h
    | «variable» label => exact ih (step (.leaf state rfl rfl) start) h
    | operator op => exact absurd rfl (notOperator op)
    | call callable => exact absurd rfl (notCall callable)

end Postfix
end InfixCalc
