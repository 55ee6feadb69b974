import InfixCalc.Proofs.Conversion.Balance
import InfixCalc.Proofs.Reading.Ordered

/-!
# Conversion and reading

The conversion to postfix order goes along with the reading of a phrase: the output lists the
phrases read so far and the stack holds the operators and parentheses that are open. Only where an
operand stands behind another one the conversion goes on alone, and then no tree comes out of it.
-/

namespace InfixCalc

variable {σ α : Type}

def Ahead.output : Ahead σ α → List (Symbol σ α)
  | .before _ => []
  | .between left _ => left.tree.postorder.reverse

def Opening.output : Opening σ α → List (Symbol σ α)
  | .group => []
  | .call _ completed => completed.flatMap fun p => p.tree.postorder.reverse

def Opening.entry : Opening σ α → Waiting σ α
  | .group => .group
  | .call callable completed => .call callable (completed.length + 1)

theorem Opening.entry_ne_operator (o : Opening σ α) (op : Operator σ α) :
    o.entry ≠ .operator op := by
  cases o <;> simp [entry]

namespace Reading

def waitingOutput (waiting : List (Ahead σ α)) : List (Symbol σ α) :=
  waiting.flatMap Ahead.output

def waitingEntries (waiting : List (Ahead σ α)) : List (Waiting σ α) :=
  waiting.map fun a => .operator a.op

def outerOutput (outer : List (Opening σ α × List (Ahead σ α))) : List (Symbol σ α) :=
  outer.flatMap fun level => level.1.output ++ waitingOutput level.2

def outerEntries (outer : List (Opening σ α × List (Ahead σ α))) : List (Waiting σ α) :=
  outer.flatMap fun level => level.1.entry :: waitingEntries level.2

def atCallStart : Reading σ α → Bool
  | ⟨[], (.call _ [], _) :: _, none⟩ => true
  | _ => false

theorem atCallStart_some (waiting : List (Ahead σ α))
    (outer : List (Opening σ α × List (Ahead σ α))) (p : Phrase σ α) :
    (⟨waiting, outer, some p⟩ : Reading σ α).atCallStart = false := by
  simp [atCallStart]

/-- The state of the conversion says the same as the reading. -/
structure Agrees (state : Postfix.State σ α) (r : Reading σ α) : Prop where
  output : state.output = (r.current.map fun p => p.tree.postorder.reverse).getD [] ++
    (waitingOutput r.waiting ++ outerOutput r.outer)
  stack : state.stack = waitingEntries r.waiting ++ outerEntries r.outer
  callOpened : state.callOpened = r.atCallStart
  ended : state.ended = r.current.isSome

theorem agrees_start : Agrees (.initial : Postfix.State σ α) start := ⟨rfl, rfl, rfl, rfl⟩

/-- What becomes of the state, if it is a state, agrees with what becomes of the reading, or else
has more operands than can be taken up. -/
def Mirrors (state : Postfix.State σ α) (result : Except Failure (Postfix.State σ α))
    (outcome : Option (Reading σ α)) : Prop :=
  match outcome with
  | some r => ∃ next, result = .ok next ∧ next.Proper ∧ state.balance ≤ next.balance ∧
      Agrees next r
  | none => ∀ next, result = .ok next → next.Proper ∧ state.balance < next.balance

theorem Mirrors.bind {state : Postfix.State σ α} {result : Except Failure (Postfix.State σ α)}
    {outcome : Option (Reading σ α)} {rest : List (Token σ α)}
    (first : Mirrors state result outcome)
    (later : ∀ next r, outcome = some r → next.Proper → Agrees next r →
      Mirrors next (Postfix.run none next rest) (r.run rest)) :
    Mirrors state (result >>= fun next => Postfix.run none next rest)
      (outcome.bind fun r => r.run rest) := by
  cases outcome with
  | none =>
    intro last ran
    obtain ⟨next, given, remaining⟩ := bind_eq_ok_iff.mp ran
    obtain ⟨proper, raised⟩ := first next given
    obtain ⟨lastProper, risen⟩ := Postfix.balance_run proper remaining
    exact ⟨lastProper, Int.lt_of_lt_of_le raised risen⟩
  | some r =>
    obtain ⟨next, rfl, proper, risen, agrees⟩ := first
    have others := later next r rfl proper agrees
    change Mirrors state (Postfix.run none next rest) (r.run rest)
    cases ran : r.run rest with
    | none =>
      rw [ran] at others
      intro last done
      obtain ⟨lastProper, raised⟩ := others last done
      exact ⟨lastProper, Int.lt_of_le_of_lt risen raised⟩
    | some end_ =>
      rw [ran] at others
      obtain ⟨last, done, lastProper, risenMore, lastAgrees⟩ := others
      exact ⟨last, done, lastProper, Int.le_trans risen risenMore, lastAgrees⟩

@[simp] theorem waitingEntries_cons (a : Ahead σ α) (rest : List (Ahead σ α)) :
    waitingEntries (a :: rest) = .operator a.op :: waitingEntries rest := rfl

@[simp] theorem waitingOutput_cons (a : Ahead σ α) (rest : List (Ahead σ α)) :
    waitingOutput (a :: rest) = a.output ++ waitingOutput rest := rfl

@[simp] theorem outerEntries_cons (o : Opening σ α) (waiting : List (Ahead σ α))
    (outer : List (Opening σ α × List (Ahead σ α))) :
    outerEntries ((o, waiting) :: outer) =
      o.entry :: (waitingEntries waiting ++ outerEntries outer) := rfl

@[simp] theorem outerOutput_cons (o : Opening σ α) (waiting : List (Ahead σ α))
    (outer : List (Opening σ α × List (Ahead σ α))) :
    outerOutput ((o, waiting) :: outer) =
      o.output ++ (waitingOutput waiting ++ outerOutput outer) := by
  simp [outerOutput]

theorem outerEntries_top (outer : List (Opening σ α × List (Ahead σ α))) (op : Operator σ α)
    (rest : List (Waiting σ α)) : outerEntries outer ≠ .operator op :: rest := by
  cases outer with
  | nil => simp [outerEntries]
  | cons level outer =>
    obtain ⟨o, waiting⟩ := level
    rw [outerEntries_cons]
    intro same
    exact o.entry_ne_operator op (List.cons.inj same).1

theorem postfix_applyWhile (condition : Operator σ α → Bool) (p : Phrase σ α)
    (waiting : List (Ahead σ α)) (outer : List (Opening σ α × List (Ahead σ α))) :
    Postfix.applyWhile condition (p.tree.postorder.reverse ++
        (waitingOutput waiting ++ outerOutput outer))
        (waitingEntries waiting ++ outerEntries outer) =
      ((applyWhile condition p waiting).1.tree.postorder.reverse ++
          (waitingOutput (applyWhile condition p waiting).2 ++ outerOutput outer),
        waitingEntries (applyWhile condition p waiting).2 ++ outerEntries outer) := by
  induction waiting generalizing p with
  | nil =>
    simp only [waitingEntries, List.map_nil, List.nil_append, applyWhile]
    unfold Postfix.applyWhile
    split
    · rename_i op stack same
      exact absurd same (outerEntries_top outer op stack)
    · rfl
  | cons a rest ih =>
    have applied : .operator a.op :: (p.tree.postorder.reverse ++ a.output) =
        (a.apply p).tree.postorder.reverse := by
      cases a <;> simp [Ahead.output, Ahead.apply, Ahead.op, Phrase.tree, Tree.postorder,
        Tree.postorderAll]
    simp only [waitingEntries_cons, waitingOutput_cons, List.cons_append, applyWhile,
      Postfix.applyWhile]
    split
    · rw [← ih (a.apply p), ← applied]
      simp
    · simp

theorem postfix_applyAll (p : Phrase σ α) (waiting : List (Ahead σ α))
    (outer : List (Opening σ α × List (Ahead σ α))) :
    Postfix.applyAll (p.tree.postorder.reverse ++ (waitingOutput waiting ++ outerOutput outer))
        (waitingEntries waiting ++ outerEntries outer) =
      ((applyAll p waiting).tree.postorder.reverse ++ outerOutput outer, outerEntries outer) := by
  have all := postfix_applyWhile (fun _ => true) p waiting outer
  rw [applyWhile_true] at all
  exact all

/- One token. -/

theorem mirrors_of_step {state next : Postfix.State σ α} {r : Reading σ α}
    (step : Postfix.Step none state next) (proper : state.Proper) (agrees : Agrees next r) :
    Mirrors state (.ok next) (some r) := by
  obtain ⟨nextProper, risen⟩ := Postfix.balance_step proper step
  exact ⟨next, rfl, nextProper, risen, agrees⟩

theorem mirrors_error (state : Postfix.State σ α) (cause : Failure) :
    Mirrors state (.error cause) none := by
  intro next given
  cases given

theorem mirrors_leaf {state : Postfix.State σ α} {r : Reading σ α} {s : Symbol σ α}
    {p : Phrase σ α} (proper : state.Proper) (agrees : Agrees state r)
    (ends : s.endsOperand = true) (arity : s.arity = some 0) (tree : p.tree = .node s []) :
    Mirrors state (.ok (Postfix.leaf state s)) (r.leaf p) := by
  obtain ⟨waiting, outer, current⟩ := r
  cases current with
  | some q =>
    intro next given
    cases given
    obtain ⟨nextProper, raised⟩ := Postfix.balance_leaf state ends arity
    rw [Postfix.inHand_ended agrees.ended] at raised
    exact ⟨nextProper, by omega⟩
  | none =>
    refine mirrors_of_step (.leaf state ends arity) proper ⟨?_, agrees.stack, ?_, ends⟩
    · simp [Postfix.leaf, agrees.output, tree, Tree.postorder, Tree.postorderAll]
    · simp [Postfix.leaf, atCallStart]

theorem mirrors_openGroup {state : Postfix.State σ α} {r : Reading σ α} (proper : state.Proper)
    (agrees : Agrees state r) :
    Mirrors state (Postfix.openGroup none state) (r.enclose .group) := by
  obtain ⟨waiting, outer, current⟩ := r
  cases current with
  | some q =>
    intro next given
    obtain ⟨nextProper, raised⟩ := Postfix.balance_openGroup given
    rw [Postfix.inHand_ended agrees.ended] at raised
    exact ⟨nextProper, by omega⟩
  | none =>
    refine mirrors_of_step (.openGroup rfl) proper ⟨?_, ?_, rfl, rfl⟩
    · simp [agrees.output, waitingOutput, outerOutput, Opening.output]
    · simp [agrees.stack, waitingEntries, outerEntries, Opening.entry]

theorem mirrors_openCall {state : Postfix.State σ α} {r : Reading σ α} (proper : state.Proper)
    (agrees : Agrees state r) (callable : Callable σ α) :
    Mirrors state (Postfix.openCall none state callable) (r.enclose (.call callable [])) := by
  obtain ⟨waiting, outer, current⟩ := r
  cases current with
  | some q =>
    intro next given
    obtain ⟨nextProper, raised⟩ := Postfix.balance_openCall given
    rw [Postfix.inHand_ended agrees.ended] at raised
    exact ⟨nextProper, by omega⟩
  | none =>
    have opened : Postfix.openCall none state callable = .ok _ := rfl
    refine mirrors_of_step (.openCall opened) proper ⟨?_, ?_, rfl, rfl⟩
    · simp [agrees.output, waitingOutput, outerOutput, Opening.output]
    · simp [agrees.stack, waitingEntries, outerEntries, Opening.entry]

theorem mirrors_operator {state : Postfix.State σ α} {r : Reading σ α} (proper : state.Proper)
    (agrees : Agrees state r) (op : Operator σ α) :
    Mirrors state (Postfix.operator state op) (r.operator op) := by
  obtain ⟨waiting, outer, current⟩ := r
  obtain ⟨output, stack, _, ended⟩ := agrees
  by_cases fixity : op.fixity = .before
  · have outcome := Postfix.operator_before fixity state
    cases current with
    | some p =>
      rw [outcome, ended]
      simp only [operator, fixity, if_true, Option.isSome_some]
      exact mirrors_error state _
    | none =>
      simp only [ended, Option.isSome_none, Bool.false_eq_true, if_false] at outcome
      have step : Postfix.Step none state _ := .operator outcome
      rw [outcome]
      simp only [operator, fixity, if_true]
      refine mirrors_of_step step proper ⟨?_, ?_, rfl, ?_⟩
      · simpa [Ahead.output] using output
      · simpa [Ahead.op] using stack
      · simp [Postfix.State.ended, Token.endsOperand, Symbol.endsOperand, fixity]
  · have outcome := Postfix.operator_behind fixity state
    cases current with
    | none =>
      rw [outcome, ended]
      simp only [operator, fixity, if_false, Option.isSome_none, Bool.false_eq_true]
      exact mirrors_error state _
    | some p =>
      simp only [ended, Option.isSome_some, if_true] at outcome
      have step : Postfix.Step none state _ := .operator outcome
      have applied := postfix_applyWhile (Postfix.appliesFirst · op) p waiting outer
      simp only [Option.map_some, Option.getD_some] at output stack
      rw [← output, ← stack] at applied
      rw [outcome]
      simp only [operator, fixity, if_false]
      split
      · rename_i after
        refine mirrors_of_step step proper ?_
        simp only [Postfix.behind, after, if_true, applied]
        refine ⟨?_, rfl, (atCallStart_some _ _ _).symm, ?_⟩
        · simp [Phrase.tree, Tree.postorder, Tree.postorderAll]
        · simp [Postfix.State.ended, Token.endsOperand, Symbol.endsOperand, after]
      · rename_i notAfter
        refine mirrors_of_step step proper ?_
        simp only [Postfix.behind, notAfter, if_false, applied]
        refine ⟨?_, rfl, rfl, ?_⟩
        · simp [Ahead.output]
        · simp [Postfix.State.ended, Token.endsOperand, Symbol.endsOperand, notAfter]

theorem mirrors_comma {state : Postfix.State σ α} {r : Reading σ α} (proper : state.Proper)
    (agrees : Agrees state r) : Mirrors state (Postfix.comma state) r.comma := by
  obtain ⟨waiting, outer, current⟩ := r
  obtain ⟨output, stack, _, ended⟩ := agrees
  cases current with
  | none =>
    rcases Postfix.comma_not_ended ended with failed | failed
    · rw [failed]
      exact mirrors_error state _
    · rw [failed]
      exact mirrors_error state _
  | some p =>
    have outcome := Postfix.comma_ended ended
    have applied := postfix_applyAll p waiting outer
    simp only [Option.map_some, Option.getD_some] at output stack
    rw [← output, ← stack] at applied
    rw [applied] at outcome
    rcases outer with _ | ⟨⟨opening, outside⟩, outer⟩
    · rw [outcome]
      exact mirrors_error state _
    · cases opening with
      | group =>
        rw [outcome]
        exact mirrors_error state _
      | call callable completed =>
        have step : Postfix.Step none state _ := .comma outcome
        rw [outcome]
        refine mirrors_of_step step proper ⟨?_, rfl, rfl, rfl⟩
        simp [outerOutput, Opening.output, waitingOutput]

theorem mirrors_closeCall {state : Postfix.State σ α} {callable : Callable σ α}
    {arguments : List (Phrase σ α)} {waiting : List (Ahead σ α)}
    {outer : List (Opening σ α × List (Ahead σ α))} {output : List (Symbol σ α)}
    {stack : List (Waiting σ α)} {noArguments : Bool} {count : Nat} (proper : state.Proper)
    (closable : state.closable = true) (opened : state.callOpened = noArguments)
    (counted : (if noArguments then 0 else count) = arguments.length)
    (top : Postfix.applyAll state.output state.stack = (output, .call callable count :: stack))
    (listed : output =
      (Tree.postorderAll (Phrase.trees arguments)).reverse ++
        (waitingOutput waiting ++ outerOutput outer))
    (rest : stack = waitingEntries waiting ++ outerEntries outer) :
    Mirrors state (Postfix.closeParen state) (closeCall callable arguments waiting outer) := by
  have outcome := Postfix.closeParen_closable closable
  rw [Postfix.close_call state.callOpened top, opened, counted] at outcome
  unfold closeCall
  cases settled : Postfix.settle callable arguments.length with
  | error cause =>
    rw [settled] at outcome
    rw [outcome]
    exact mirrors_error state _
  | ok called =>
    rw [settled] at outcome
    have step : Postfix.Step none state _ := .closeParen outcome
    rw [outcome]
    refine mirrors_of_step step proper ⟨?_, rest, (atCallStart_some _ _ _).symm, rfl⟩
    simp [listed, Phrase.tree, Tree.postorder, (Postfix.settle_eq_ok_iff.mp settled).2]

theorem closeGroup_outer (output : List (Symbol σ α))
    (outer : List (Opening σ α × List (Ahead σ α))) :
    Postfix.closeGroup output (outerEntries outer) = (output, outerEntries outer) := by
  unfold Postfix.closeGroup
  split
  · rename_i op below same
    exact absurd same (outerEntries_top outer op below)
  · rfl

/-- The end of a group applies the operator before it, and only this one. -/
theorem mirrors_closeGroup {state : Postfix.State σ α} {inside waiting : List (Ahead σ α)}
    {outer : List (Opening σ α × List (Ahead σ α))} {p : Phrase σ α} (proper : state.Proper)
    (agrees : Agrees state ⟨inside, (.group, waiting) :: outer, some p⟩)
    (stacked : Stacked waiting) :
    Mirrors state (Postfix.closeParen state)
      (closeParen ⟨inside, (.group, waiting) :: outer, some p⟩) := by
  obtain ⟨output, stack, opened, ended⟩ := agrees
  have closable : state.closable = true := by simp [Postfix.State.closable, ended]
  have applied := postfix_applyAll p inside ((.group, waiting) :: outer)
  simp only [Option.map_some, Option.getD_some] at output stack
  rw [← output, ← stack, outerEntries_cons, Opening.entry, outerOutput_cons, Opening.output,
    List.nil_append] at applied
  have outcome := Postfix.closeParen_closable closable
  rw [Postfix.close_group state.callOpened applied] at outcome
  have step : Postfix.Step none state _ := .closeParen outcome
  rw [outcome]
  rcases waiting with _ | ⟨a, waiting⟩
  · refine mirrors_of_step step proper ?_
    simp only [waitingEntries, waitingOutput, List.map_nil, List.flatMap_nil, List.nil_append,
      closeGroup_outer]
    exact ⟨rfl, rfl, (atCallStart_some _ _ _).symm, rfl⟩
  · cases a with
    | before op =>
      refine mirrors_of_step step proper ?_
      simp only [waitingEntries_cons, List.cons_append, Ahead.op, Postfix.closeGroup, stacked.1,
        if_true]
      refine ⟨?_, rfl, (atCallStart_some _ _ _).symm, rfl⟩
      simp [Phrase.tree, Tree.postorder, Tree.postorderAll, Ahead.output]
    | between left op =>
      refine mirrors_of_step step proper ?_
      have notBefore := (Fixity.isBetween_iff.mp stacked.1.1).1
      simp only [waitingEntries_cons, List.cons_append, Ahead.op, Postfix.closeGroup, notBefore,
        if_false]
      exact ⟨rfl, rfl, (atCallStart_some _ _ _).symm, rfl⟩

theorem closeParen_none {inside : List (Ahead σ α)}
    {outer : List (Opening σ α × List (Ahead σ α))}
    (notStart : (⟨inside, outer, none⟩ : Reading σ α).atCallStart = false) :
    closeParen ⟨inside, outer, none⟩ = none := by
  unfold closeParen
  split
  all_goals simp_all [atCallStart]

theorem exists_of_atCallStart {inside : List (Ahead σ α)}
    {outer : List (Opening σ α × List (Ahead σ α))}
    (start : (⟨inside, outer, none⟩ : Reading σ α).atCallStart = true) :
    inside = [] ∧ ∃ callable waiting below, outer = (.call callable [], waiting) :: below := by
  unfold atCallStart at start
  split at start
  · rename_i callable waiting below same
    cases same
    exact ⟨rfl, callable, waiting, below, rfl⟩
  · cases start

theorem postorder_arguments (completed : List (Phrase σ α)) (last : Phrase σ α) :
    (Tree.postorderAll (Phrase.trees (completed.reverse ++ [last]))).reverse =
      last.tree.postorder.reverse ++ completed.flatMap fun p => p.tree.postorder.reverse := by
  induction completed generalizing last with
  | nil => simp [Phrase.trees, Tree.postorderAll]
  | cons p earlier ih =>
    have shorter := ih p
    simp only [Phrase.trees_eq_map, List.reverse_cons, List.map_append, List.flatMap_cons,
      Tree.postorderAll_append, List.reverse_append] at shorter ⊢
    rw [shorter]
    simp [Tree.postorderAll]

theorem mirrors_closeParen {state : Postfix.State σ α} {r : Reading σ α} (proper : state.Proper)
    (sound : r.Sound) (agrees : Agrees state r) :
    Mirrors state (Postfix.closeParen state) r.closeParen := by
  obtain ⟨inside, outer, current⟩ := r
  have ended := agrees.ended
  have opened := agrees.callOpened
  cases current with
  | none =>
    cases start : (⟨inside, outer, none⟩ : Reading σ α).atCallStart with
    | false =>
      have notClosable : state.closable = false := by
        simp [Postfix.State.closable, opened, start, ended]
      rw [closeParen_none start]
      rcases Postfix.closeParen_not_closable proper notClosable with failed | failed
      · rw [failed]
        exact mirrors_error state _
      · rw [failed]
        exact mirrors_error state _
    | true =>
      obtain ⟨rfl, callable, waiting, outer, rfl⟩ := exists_of_atCallStart start
      rw [start] at opened
      have closable : state.closable = true := by simp [Postfix.State.closable, opened]
      have stack :
          state.stack = .call callable 1 :: (waitingEntries waiting ++ outerEntries outer) :=
        agrees.stack
      have top := Postfix.applyAll_of_top (w := .call callable 1) (by simp) state.output
        (waitingEntries waiting ++ outerEntries outer)
      rw [← stack] at top
      refine mirrors_closeCall proper closable opened rfl (top.trans (by rw [stack])) ?_ rfl
      simp [agrees.output, Phrase.trees, Tree.postorderAll, Opening.output, waitingOutput]
  | some p =>
    have closable : state.closable = true := by simp [Postfix.State.closable, ended]
    have applied := postfix_applyAll p inside outer
    have output := agrees.output
    have stack := agrees.stack
    simp only [Option.map_some, Option.getD_some] at output stack
    rw [← output, ← stack] at applied
    rcases outer with _ | ⟨⟨opening, outside⟩, outer⟩
    · have outcome := Postfix.closeParen_closable closable
      rw [Postfix.close_empty state.callOpened applied] at outcome
      rw [outcome]
      exact mirrors_error state _
    · cases opening with
      | group => exact mirrors_closeGroup proper agrees (sound.outside _ List.mem_cons_self)
      | call callable completed =>
        refine mirrors_closeCall proper closable opened ?_ applied ?_ rfl
        · simp [atCallStart_some]
        · simp [postorder_arguments, Opening.output]

theorem mirrors_run {state : Postfix.State σ α} {r : Reading σ α} (ts : List (Token σ α))
    (proper : state.Proper) (sound : r.Sound) (agrees : Agrees state r) :
    Mirrors state (Postfix.run none state ts) (r.run ts) := by
  fun_induction Reading.run r ts generalizing state
  case case1 r => exact ⟨state, rfl, proper, Int.le_refl _, agrees⟩
  case case2 r rest ih =>
    refine (mirrors_openGroup proper agrees).bind ?_
    intro next middle opened nextProper nextAgrees
    exact ih middle nextProper (sound.enclose (by simp) opened) nextAgrees
  case case3 r rest ih =>
    refine (mirrors_closeParen proper sound agrees).bind ?_
    intro next middle closed nextProper nextAgrees
    exact ih middle nextProper (sound.closeParen closed) nextAgrees
  case case4 r rest ih =>
    refine (mirrors_comma proper agrees).bind ?_
    intro next middle added nextProper nextAgrees
    exact ih middle nextProper (sound.comma added) nextAgrees
  case case5 r callable rest ih =>
    refine (mirrors_openCall proper agrees callable).bind ?_
    intro next middle opened nextProper nextAgrees
    exact ih middle nextProper (sound.enclose (by simp) opened) nextAgrees
  case case6 r callable rest notOpened =>
    rw [Postfix.run_call_alone notOpened]
    exact mirrors_error state _
  case case7 r op rest ih =>
    refine (mirrors_operator proper agrees op).bind ?_
    intro next middle added nextProper nextAgrees
    exact ih middle nextProper (sound.operator added) nextAgrees
  case case8 r value rest ih =>
    have leaf := mirrors_leaf (s := .operand value) (p := .operand value) proper agrees rfl rfl rfl
    refine leaf.bind ?_
    intro next middle added nextProper nextAgrees
    exact ih middle nextProper
      (sound.leaf ⟨.operand value, .operand value⟩ rfl rfl rfl added) nextAgrees
  case case9 r label rest ih =>
    have leaf := mirrors_leaf (s := .variable label) (p := .name label) proper agrees rfl rfl rfl
    refine leaf.bind ?_
    intro next middle added nextProper nextAgrees
    exact ih middle nextProper (sound.leaf ⟨.name label, .name label⟩ rfl rfl rfl added) nextAgrees

theorem finish_eq_ok_iff {state : Postfix.State σ α} {r : Reading σ α}
    {symbols : List (Symbol σ α)} (proper : state.Proper) (agrees : Agrees state r) :
    Postfix.finish state = .ok symbols ↔
      ∃ p, r.finish = some p ∧ symbols = p.tree.postorder := by
  obtain ⟨waiting, outer, current⟩ := r
  obtain ⟨output, stack, _, ended⟩ := agrees
  have applied (p : Phrase σ α) (same : current = some p) :
      Postfix.applyAll state.output state.stack =
        ((applyAll p waiting).tree.postorder.reverse ++ outerOutput outer, outerEntries outer) := by
    subst same
    rw [output, stack]
    exact postfix_applyAll p waiting outer
  constructor
  · intro done
    obtain ⟨p, rfl⟩ : ∃ p, current = some p :=
      Option.isSome_iff_exists.mp (ended.symm.trans (Postfix.ended_of_finish proper done))
    have top := (Postfix.finish_eq_ok_iff.mp done).2
    rw [applied p rfl] at top
    cases outer with
    | cons level outer => exact absurd (congrArg Prod.snd top) (List.cons_ne_nil _ _)
    | nil =>
      refine ⟨applyAll p waiting, rfl, ?_⟩
      have listed := congrArg Prod.fst top
      simpa [outerOutput] using listed.symm
  · rintro ⟨p, done, rfl⟩
    unfold finish at done
    split at done
    · rename_i waiting p same
      cases same
      cases done
      have finished := Postfix.unfinished_of_ended ended
      refine Postfix.finish_eq_ok_iff.mpr ⟨finished, ?_⟩
      rw [applied p rfl]
      simp [outerOutput, outerEntries]
    · cases done

end Reading

/-- The tokens that are converted to the postfix order of a tree are those that are read as a
phrase, and the tree is the phrase's. -/
theorem Postfix.reorder_eq_ok_iff {ts : List (Token σ α)} {symbols : List (Symbol σ α)} :
    Postfix.reorder none ts = .ok symbols ∧ weightOf symbols = 1 ↔
      ∃ p, Phrase.ofTokens? ts = some p ∧ symbols = p.tree.postorder := by
  have mirrors := Reading.mirrors_run ts Postfix.proper_initial Reading.sound_start
    (Reading.agrees_start (σ := σ) (α := α))
  constructor
  · rintro ⟨converted, one⟩
    obtain ⟨state, ran, ended⟩ := bind_eq_ok_iff.mp converted
    cases read : Reading.start.run ts with
    | none =>
      rw [read] at mirrors
      obtain ⟨proper, raised⟩ := mirrors state ran
      have weight := Postfix.weightOf_finish proper ended
      rw [Postfix.balance_initial] at raised
      omega
    | some r =>
      rw [read] at mirrors
      obtain ⟨next, same, proper, _, agrees⟩ := mirrors
      cases ran.symm.trans same
      obtain ⟨p, whole, listed⟩ := (Reading.finish_eq_ok_iff proper agrees).mp ended
      exact ⟨p, Option.bind_eq_some_iff.mpr ⟨r, read, whole⟩, listed⟩
  · rintro ⟨p, readAs, rfl⟩
    have one := (Phrase.sound_of_ofTokens? readAs).1.full.weightOf_postorder
    obtain ⟨r, read, whole⟩ := Option.bind_eq_some_iff.mp readAs
    rw [read] at mirrors
    obtain ⟨state, ran, proper, _, agrees⟩ := mirrors
    have ended := (Reading.finish_eq_ok_iff proper agrees).mpr ⟨p, whole, rfl⟩
    exact ⟨bind_eq_ok_iff.mpr ⟨state, ran, ended⟩, one⟩

end InfixCalc
