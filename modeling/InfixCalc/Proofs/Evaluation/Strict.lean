import InfixCalc.Proofs.Evaluation.Recorded
import InfixCalc.Proofs.Vocabulary.Words

/-!
# Strict symbols

A strict symbol evaluates all its operands, from the first to the last, and what it gives depends on
their values alone. The words of wordbooks are strict but for the branches.
-/

namespace InfixCalc

variable {σ α β γ : Type}

namespace Action

theorem bind_bind {δ : Type} (action : Action σ α β) (f : β → Action σ α γ)
    (g : γ → Action σ α δ) :
    (action.bind f).bind g = action.bind fun value => (f value).bind g := by
  induction action with
  | done value => rfl
  | fail cause => rfl
  | read index next ih => exact congrArg (Action.read index) (funext ih)
  | peek index next ih => exact congrArg (Action.peek index) (funext ih)
  | get next ih => exact congrArg Action.get (funext ih)
  | set state next ih => exact congrArg (Action.set state) ih

theorem bind_done (action : Action σ α β) : action.bind .done = action := by
  induction action with
  | done value => rfl
  | fail cause => rfl
  | read index next ih => exact congrArg (Action.read index) (funext ih)
  | peek index next ih => exact congrArg (Action.peek index) (funext ih)
  | get next ih => exact congrArg Action.get (funext ih)
  | set state next ih => exact congrArg (Action.set state) ih

/-- The value of an unread parameter is kept, and its failure passed on. -/
theorem run_parameter_bind {index : Nat} {parameters : List (Effect σ α)} {parameter : Effect σ α}
    {known : List (Option α)} {next : α → Action σ α β}
    (there : parameters[index]? = some parameter)
    (unread : known[index]? = some none) :
    ((Action.parameter index).bind next).run parameters known =
      parameter >>= fun value => (next value).run parameters (known.set index (some value)) := by
  funext state
  rw [Action.parameter, Action.bind, Action.run, unread]
  simp only [there]
  refine (Effect.run_observing_bind parameter _ state).trans ?_
  refine Eq.trans ?_ (Effect.run_bind parameter _ state).symm
  cases parameter.run state with
  | mk outcome reached => cases outcome <;> rfl

/-- The action neither reads parameters nor asks for any. -/
inductive IsClosed : Action σ α β → Prop where
  | done (value : β) : IsClosed (.done value)
  | fail (cause : Failure) : IsClosed (.fail cause)
  | get {next : σ → Action σ α β} : (∀ state, IsClosed (next state)) → IsClosed (.get next)
  | set (state : σ) {next : Action σ α β} : IsClosed next → IsClosed (.set state next)

theorem IsClosed.run_eq {action : Action σ α β} (closed : action.IsClosed)
    (parameters : List (Effect σ α)) (known : List (Option α)) :
    action.run parameters known = action.start [] := by
  funext state
  induction closed generalizing state with
  | done value => rfl
  | fail cause => rfl
  | get _ ih => exact ih state state
  | set new _ ih => exact ih new

/-- Parameters that are read from first to last come to the list of their values. The ones before
them have been read already. -/
theorem run_parametersFrom {next : List α → Action σ α β}
    (closed : ∀ values, (next values).IsClosed) (rest before : List (Effect σ α))
    (known : List (Option α)) (full : known.length = before.length) :
    ((parametersFrom before.length rest.length).bind next).run (before ++ rest)
        (known ++ rest.map fun _ => none) =
      rest.mapM id >>= fun values => (next values).start [] := by
  induction rest generalizing before known next with
  | nil =>
    rw [List.mapM_nil, pure_bind]
    exact (closed []).run_eq _ _
  | cons parameter rest ih =>
    have unread : (known ++ (parameter :: rest).map fun _ => (none : Option α))[before.length]? =
        some none := by
      rw [List.getElem?_append_right (by omega), ← full]
      simp
    have there : (before ++ parameter :: rest)[before.length]? = some parameter := by simp
    have closedToo (value : α) (values : List α) : (next (value :: values)).IsClosed := closed _
    have step (value : α) :=
      ih (closedToo value) (before ++ [parameter]) (known ++ [some value]) (by simp [full])
    have later (value : α) :
        (known ++ (parameter :: rest).map fun _ => none).set before.length (some value) =
          known ++ [some value] ++ rest.map fun _ => none := by
      rw [List.set_append_right _ _ full.le, ← full]
      simp
    rw [List.length_cons, parametersFrom, bind_bind, run_parameter_bind there unread,
      List.mapM_cons, bind_assoc]
    refine congrArg (parameter >>= ·) (funext fun value => ?_)
    simp only [bind_assoc, pure_bind]
    rw [← step value, bind_bind, later, List.length_append, List.append_assoc before]
    rfl

/-- All parameters are read, from first to last, before an action on their values alone. -/
theorem start_parameters {next : List α → Action σ α β}
    (closed : ∀ values, (next values).IsClosed) (parameters : List (Effect σ α)) :
    ((Action.parameters parameters.length).bind next).start parameters =
      parameters.mapM id >>= fun values => (next values).start [] :=
  run_parametersFrom closed parameters [] [] rfl

end Action

/- Meanings. -/

namespace Meaning

/-- What the meaning of a word makes of the values of its operands. -/
def give [Shown α] (label : String) : Meaning σ α → List α → Action σ α α
  | .same, [x] => .done x
  | .unary f, [x] => conclude label (Shown.text x) (f x)
  | .binary f, [x, y] => conclude label (Shown.text x ++ ", " ++ Shown.text y) (f x y)
  | .ternary f, [x, y, z] => .ofExcept (f x y z)
  | .aggregate f, xs => conclude label (listText xs) (f xs)
  | .drawn draw, _ => .get fun state => .set (draw state).2 (.done (draw state).1)
  | _, _ => .fail .missingParameter

theorem isClosed_conclude (label shown : String) (outcome : Outcome α) :
    (conclude label shown outcome : Action σ α α).IsClosed := by
  cases outcome with
  | ok value => exact .done value
  | error refusal => exact .fail _

theorem isClosed_ofExcept (outcome : Except Failure α) :
    (Action.ofExcept outcome : Action σ α α).IsClosed := by
  cases outcome with
  | ok value => exact .done value
  | error cause => exact .fail cause

theorem isClosed_give [Shown α] (label : String) (meaning : Meaning σ α) (operands : List α) :
    (meaning.give label operands).IsClosed := by
  unfold give
  split
  · exact .done _
  · exact isClosed_conclude _ _ _
  · exact isClosed_conclude _ _ _
  · exact isClosed_ofExcept _
  · exact isClosed_conclude _ _ _
  · exact .get fun state => .set _ (.done _)
  · exact .fail _

theorem callback_eq [Shown α] (label : String) {meaning : Meaning σ α} {count : Nat}
    (reads : meaning.Reads count) :
    meaning.callback label count = (Action.parameters count).bind (meaning.give label) := by
  have read (next : List α → Action σ α α) (first number : Nat) :
      (Action.parametersFrom first (number + 1)).bind next =
        (Action.parameter first).bind fun value =>
          (Action.parametersFrom (first + 1) number).bind fun others => next (value :: others) := by
    simp only [Action.parametersFrom, Action.bind_bind, Action.bind]
  cases meaning with
  | same =>
    obtain rfl : count = 1 := reads
    simp only [Action.parameters, read]
    exact (Action.bind_done (.parameter 0)).symm
  | unary f =>
    obtain rfl : count = 1 := reads
    simp only [Action.parameters, read]
    rfl
  | binary f =>
    obtain rfl : count = 2 := reads
    simp only [Action.parameters, read]
    rfl
  | ternary f =>
    obtain rfl : count = 3 := reads
    simp only [Action.parameters, read]
    rfl
  | aggregate f => rfl
  | drawn draw => obtain rfl : count = 0 := reads; rfl

end Meaning

/- Operands. -/

namespace Effect

theorem mapM_id_pure (operands : List α) :
    ((operands.map pure).mapM id : Effect σ (List α)) = pure operands := by
  rw [List.mapM_map]
  exact List.mapM_pure.trans (congrArg pure (List.map_id operands))

theorem mapM_bind_congr {next other : List α → Effect σ β} (parameters : List (Effect σ α))
    (same : ∀ operands, operands.length = parameters.length → next operands = other operands) :
    parameters.mapM id >>= next = parameters.mapM id >>= other := by
  induction parameters generalizing next other with
  | nil =>
    rw [List.mapM_nil, pure_bind, pure_bind]
    exact same [] rfl
  | cons parameter parameters ih =>
    rw [List.mapM_cons, bind_assoc, bind_assoc]
    refine congrArg (parameter >>= ·) (funext fun value => ?_)
    simp only [bind_assoc, pure_bind]
    exact ih fun operands full => same (value :: operands) (by simp [full])

end Effect

/- Symbols. -/

namespace Symbol

/-- The symbol is no branch. It evaluates so many operands, from first to last, and then only uses
their values. -/
structure IsStrict (count : Nat) (s : Symbol σ α) : Prop where
  noBranch : ∀ b, s ≠ .call (.branch b)
  apply_eq : ∀ values (parameters : List (Effect σ α)), parameters.length = count →
    Tree.apply values s parameters =
      parameters.mapM id >>= fun operands => Tree.apply values s (operands.map pure)

theorem isStrict_operand (value : α) : (Symbol.operand value : Symbol σ α).IsStrict 0 := by
  refine ⟨fun b never => (nomatch never), fun values parameters none => ?_⟩
  rw [List.length_eq_zero_iff.mp none]
  rfl

theorem isStrict_variable (label : String) : (Symbol.variable label : Symbol σ α).IsStrict 0 := by
  refine ⟨fun b never => (nomatch never), fun values parameters none => ?_⟩
  rw [List.length_eq_zero_iff.mp none]
  rfl

variable [Shown α] {s : Symbol σ α} {label : String} {meaning : Meaning σ α}

theorem Acts.apply_eq (acts : s.Acts label meaning) (values : String → Option α)
    {parameters : List (Effect σ α)} (reads : meaning.Reads parameters.length) :
    Tree.apply values s parameters =
      parameters.mapM id >>= fun operands => (meaning.give label operands).start [] := by
  have started : (meaning.callback label parameters.length).start parameters =
      parameters.mapM id >>= fun operands => (meaning.give label operands).start [] := by
    rw [Meaning.callback_eq label reads]
    exact Action.start_parameters (Meaning.isClosed_give label meaning) parameters
  cases acts with
  | operator body => rw [Tree.apply, body, started]
  | function body => rw [Tree.apply, body, started]

theorem Acts.apply_pure (acts : s.Acts label meaning) (values : String → Option α)
    {operands : List α} (reads : meaning.Reads operands.length) :
    Tree.apply values s (operands.map pure) = (meaning.give label operands).start [] := by
  have enough : meaning.Reads (operands.map (pure : α → Effect σ α)).length := by
    rwa [List.length_map]
  rw [acts.apply_eq values enough, Effect.mapM_id_pure, pure_bind]

theorem Acts.isStrict (acts : s.Acts label meaning) {count : Nat} (reads : meaning.Reads count) :
    s.IsStrict count := by
  refine ⟨fun b same => ?_, ?_⟩
  · subst same
    cases acts
  · rintro values parameters rfl
    rw [acts.apply_eq values reads]
    exact Effect.mapM_bind_congr parameters fun operands full =>
      (acts.apply_pure values (full ▸ reads)).symm

end Symbol

theorem Tree.evaluate_strict {values : String → Option α} {s : Symbol σ α}
    {cs : List (Tree (Symbol σ α))}
    (strict : s.IsStrict cs.length) : evaluate values (.node s cs) =
      cs.mapM (evaluate values) >>= fun operands => apply values s (operands.map pure) := by
  rw [evaluate, evaluateAll_eq_map, strict.apply_eq values _ (List.length_map _), List.mapM_map]
  rfl

end InfixCalc
