import InfixCalc.Proofs.Evaluation.Recorded

/-!
# Evaluations without the shared state

An evaluation over callbacks that use no shared state has one outcome, whatever the state is, and
leaves the state as it is. Such callbacks may still ask which parameters have been evaluated.
-/

namespace InfixCalc

variable {σ α β γ : Type}

/-- The effect has one outcome in all states and changes none. -/
def Effect.IsStateless (effect : Effect σ β) : Prop := ∃ outcome, effect = require outcome

namespace Effect.IsStateless

theorem pure (value : β) : Effect.IsStateless (pure value : Effect σ β) := ⟨.ok value, rfl⟩

theorem throw (cause : Failure) : Effect.IsStateless (throw cause : Effect σ β) :=
  ⟨.error cause, rfl⟩

theorem bind {first : Effect σ β} {next : β → Effect σ γ} (stateless : first.IsStateless)
    (each : ∀ value, (next value).IsStateless) : Effect.IsStateless (first >>= next) := by
  obtain ⟨outcome, rfl⟩ := stateless
  cases outcome with
  | ok value => exact each value
  | error cause => exact throw cause

theorem observing {effect : Effect σ β} (stateless : effect.IsStateless) :
    Effect.IsStateless (observing effect) := by
  obtain ⟨outcome, rfl⟩ := stateless
  exact ⟨.ok outcome, funext (Effect.run_observing _)⟩

theorem run_eq {effect : Effect σ β} (stateless : effect.IsStateless) (first second : σ) :
    effect.run first = ((effect.run second).1, first) := by
  obtain ⟨outcome, rfl⟩ := stateless
  rfl

theorem last_eq {effect : Effect σ β} (stateless : effect.IsStateless) {state last : σ}
    {outcome : Except Failure β} (ran : effect.run state = (outcome, last)) : last = state := by
  rw [stateless.run_eq state state] at ran
  exact (Prod.mk.inj ran).2.symm

end Effect.IsStateless

/-- The action uses no shared state. -/
inductive Action.IsStateless : Action σ α β → Prop where
  | done (value : β) : IsStateless (.done value)
  | fail (cause : Failure) : IsStateless (.fail cause)
  | read (index : Nat) {next : Except Failure α → Action σ α β} :
      (∀ outcome, IsStateless (next outcome)) → IsStateless (.read index next)
  | peek (index : Nat) {next : Option α → Action σ α β} :
      (∀ value, IsStateless (next value)) → IsStateless (.peek index next)

namespace Action.IsStateless

theorem bind {action : Action σ α β} {next : β → Action σ α γ} (stateless : action.IsStateless)
    (each : ∀ value, (next value).IsStateless) : (action.bind next).IsStateless := by
  induction stateless with
  | done value => exact each value
  | fail cause => exact .fail cause
  | read index _ ih => exact .read index ih
  | peek index _ ih => exact .peek index ih

theorem ofExcept (outcome : Except Failure β) :
    (Action.ofExcept outcome : Action σ α β).IsStateless := by
  cases outcome with
  | ok value => exact .done value
  | error cause => exact .fail cause

theorem parameter (index : Nat) : (Action.parameter index : Action σ α α).IsStateless :=
  .read index .ofExcept

theorem run {action : Action σ α β} {parameters : List (Effect σ α)}
    (stateless : action.IsStateless) (each : ∀ parameter ∈ parameters, parameter.IsStateless)
    (known : List (Option α)) : (action.run parameters known).IsStateless := by
  induction stateless generalizing known with
  | done value => exact .pure value
  | fail cause => exact .throw cause
  | read index _ ih =>
    rw [Action.run]
    split
    · exact ih _ known
    · split
      · exact ih _ known
      · rename_i parameter found
        exact (each parameter (List.mem_of_getElem? found)).observing.bind
          fun outcome => ih outcome _
  | peek index _ ih =>
    rw [Action.run]
    split
    · exact .throw _
    · exact ih _ known

theorem start {action : Action σ α β} {parameters : List (Effect σ α)}
    (stateless : action.IsStateless) (each : ∀ parameter ∈ parameters, parameter.IsStateless) :
    (action.start parameters).IsStateless :=
  stateless.run each _

end Action.IsStateless

/-- What the symbol does uses no shared state. -/
def Symbol.IsStateless : Symbol σ α → Prop
  | .operand _ | .variable _ => True
  | .operator op => ∀ count, (op.body count).IsStateless
  | .call (.function f) => ∀ count, (f.body count).IsStateless
  | .call (.branch b) => ∀ value, (b.choice value).IsStateless

namespace Tree

theorem stateless_taken {parameters : List (Effect σ α)}
    (each : ∀ parameter ∈ parameters, parameter.IsStateless) (label : String)
    (selection : Selection) : (taken label parameters selection).IsStateless := by
  unfold taken
  split
  · exact .throw _
  · split
    · rename_i parameter found
      exact each parameter (List.mem_of_getElem? found)
    · exact .throw _

theorem stateless_apply (values : String → Option α) {s : Symbol σ α} (stateless : s.IsStateless)
    {parameters : List (Effect σ α)} (each : ∀ parameter ∈ parameters, parameter.IsStateless) :
    (apply values s parameters).IsStateless := by
  cases s with
  | operand value => exact .pure value
  | «variable» label =>
    rw [apply]
    split
    · exact .pure _
    · exact .throw _
  | operator op => exact (stateless _).start each
  | call callable =>
    cases callable with
    | function f => exact (stateless _).start each
    | branch b =>
      cases parameters with
      | nil => exact .throw _
      | cons selector others =>
        rw [apply_branch]
        refine (each selector List.mem_cons_self).bind fun value => ?_
        have chosen : ((b.choice value).start []).IsStateless :=
          (stateless value).start (List.forall_mem_nil _)
        exact chosen.bind fun selection => stateless_taken each b.label selection

theorem stateless_evaluate (values : String → Option α) {t : Tree (Symbol σ α)}
    (stateless : ∀ s ∈ t.postorder, s.IsStateless) : (t.evaluate values).IsStateless := by
  induction t with
  | node s cs ih =>
    rw [evaluate, evaluateAll_eq_map]
    refine stateless_apply values (stateless s (mem_postorder.mpr (.inr rfl))) ?_
    refine List.forall_mem_map.mpr fun c member => ih c member fun other inside => ?_
    exact stateless other (mem_postorder.mpr (.inl ⟨c, member, inside⟩))

end Tree
end InfixCalc
