import InfixCalc.Proofs.Evaluation.Recorded

/-!
# Orderly evaluations

An orderly effect gives a value or fails as evaluations do, and never from the outside. Actions are
orderly if they read parameters that they have and fail in this way only. An evaluation over orderly
actions is orderly, whatever the values are.
-/

namespace InfixCalc

variable {σ α β γ : Type}

/-- A value with the property, or a failure of an evaluation. -/
def IsOrderly (P : β → Prop) : Except Failure β → Prop
  | .ok value => P value
  | .error cause => cause.stage = .evaluation

def Effect.Orderly (P : β → Prop) (effect : Effect σ β) : Prop :=
  ∀ state, IsOrderly P (effect.run state).1

namespace Effect.Orderly

variable {P : β → Prop} {Q : γ → Prop}

theorem pure {value : β} (holds : P value) : Effect.Orderly P (pure value : Effect σ β) :=
  fun _ => holds

theorem throw {cause : Failure} (orderly : cause.stage = .evaluation) :
    Effect.Orderly P (throw cause : Effect σ β) :=
  fun _ => orderly

theorem bind {first : Effect σ β} {next : β → Effect σ γ} (orderly : first.Orderly P)
    (each : ∀ value, P value → (next value).Orderly Q) : (first >>= next).Orderly Q := by
  intro state
  have holds := orderly state
  rw [Effect.run_bind]
  cases ran : first.run state with
  | mk outcome reached =>
    rw [ran] at holds
    cases outcome with
    | ok value => exact each value holds reached
    | error cause => exact holds

theorem observing {effect : Effect σ β} (orderly : effect.Orderly P) :
    (observing effect).Orderly (IsOrderly P) := by
  intro state
  rw [Effect.run_observing]
  exact orderly state

end Effect.Orderly

namespace Action

/-- The action has the parameters that it reads and asks for, fails as evaluations do where these
fail so, and gives values with the property. -/
inductive Orderly (count : Nat) (P : β → Prop) : Action σ α β → Prop where
  | done {value : β} : P value → Orderly count P (.done value)
  | fail {cause : Failure} : cause.stage = .evaluation → Orderly count P (.fail cause)
  | read {index : Nat} {next : Except Failure α → Action σ α β} : index < count →
      (∀ outcome, IsOrderly (fun _ => True) outcome → Orderly count P (next outcome)) →
        Orderly count P (.read index next)
  | peek {index : Nat} {next : Option α → Action σ α β} :
      index < count → (∀ value, Orderly count P (next value)) → Orderly count P (.peek index next)
  | get {next : σ → Action σ α β} :
      (∀ state, Orderly count P (next state)) → Orderly count P (.get next)
  | set {state : σ} {next : Action σ α β} :
      Orderly count P next → Orderly count P (.set state next)

namespace Orderly

variable {count : Nat} {P : β → Prop} {Q : γ → Prop}

theorem bind {action : Action σ α β} {next : β → Action σ α γ} (orderly : action.Orderly count P)
    (each : ∀ value, P value → (next value).Orderly count Q) :
    (action.bind next).Orderly count Q := by
  induction orderly with
  | done holds => exact each _ holds
  | fail stage => exact .fail stage
  | read less _ ih => exact .read less ih
  | peek less _ ih => exact .peek less ih
  | get _ ih => exact .get ih
  | set _ ih => exact .set ih

theorem ofExcept {outcome : Except Failure β} (orderly : IsOrderly P outcome) :
    (Action.ofExcept outcome : Action σ α β).Orderly count P := by
  cases outcome with
  | ok value => exact .done orderly
  | error cause => exact .fail orderly

theorem parameter {index : Nat} (less : index < count) :
    (Action.parameter index : Action σ α α).Orderly count fun _ => True :=
  .read less fun _ orderly => .ofExcept orderly

theorem run {action : Action σ α β} {parameters : List (Effect σ α)}
    (orderly : action.Orderly parameters.length P)
    (each : ∀ parameter ∈ parameters, parameter.Orderly fun _ => True)
    (known : List (Option α)) (full : known.length = parameters.length) :
    (action.run parameters known).Orderly P := by
  induction orderly generalizing known with
  | done holds => exact .pure holds
  | fail stage => exact .throw stage
  | @read index next less _ ih =>
    have there : parameters[index]? = some parameters[index] := List.getElem?_eq_getElem less
    have fresh : ((observing parameters[index] >>= fun outcome =>
        (next outcome).run parameters (keep known index outcome))).Orderly P :=
      (each _ (List.getElem_mem less)).observing.bind fun outcome orderly =>
        ih outcome orderly _ ((length_keep known index outcome).trans full)
    rw [Action.run]
    split
    · exact ih (.ok _) trivial known full
    · simp only [there]
      exact fresh
  | @peek index next less _ ih =>
    have there : known[index]? = some known[index] := List.getElem?_eq_getElem (full ▸ less)
    rw [Action.run, there]
    exact ih _ known full
  | get _ ih => exact fun state => ih state known full state
  | set _ ih => exact fun _ => ih known full _

theorem start {action : Action σ α β} {parameters : List (Effect σ α)}
    (orderly : action.Orderly parameters.length P)
    (each : ∀ parameter ∈ parameters, parameter.Orderly fun _ => True) :
    (action.start parameters).Orderly P :=
  orderly.run each _ (List.length_map _)

end Orderly
end Action

/-- An index small enough to be written in a message. -/
def Selection.IsSmall : Selection → Prop
  | .index n => n.natAbs < Nat.pow 10 Number.maxIntegerDigits
  | .other _ => True

/-- The symbol does what is orderly with so many parameters. -/
def Symbol.Orderly (count : Nat) : Symbol σ α → Prop
  | .operand _ | .variable _ => True
  | .operator op => (op.body count).Orderly count fun _ => True
  | .call (.function f) => (f.body count).Orderly count fun _ => True
  | .call (.branch b) => 0 < count ∧ ∀ value, (b.choice value).Orderly 0 Selection.IsSmall

theorem Tree.isOrderly_chosen (label : String) (count : Nat) {selection : Selection}
    (small : selection.IsSmall) : IsOrderly (· < count) (chosen label count selection) := by
  cases chose : chosen label count selection with
  | ok index => exact chosen_lt chose
  | error cause =>
    unfold chosen at chose
    split at chose
    · cases chose
      rfl
    · split at chose
      · cases chose
      · split at chose
        · rename_i large
          exact absurd small (Nat.not_lt.mpr large)
        · cases chose
          rfl

theorem Tree.orderly_taken {label : String} {parameters : List (Effect σ α)}
    (each : ∀ parameter ∈ parameters, parameter.Orderly fun _ => True) {selection : Selection}
    (small : selection.IsSmall) : (taken label parameters selection).Orderly fun _ => True := by
  have orderly := isOrderly_chosen label parameters.length small
  unfold taken
  cases chose : chosen label parameters.length selection with
  | error cause =>
    rw [chose] at orderly
    exact .throw orderly
  | ok index =>
    rw [chose] at orderly
    have there : parameters[index]? = some parameters[index] := List.getElem?_eq_getElem orderly
    simp only [there]
    exact each _ (List.getElem_mem orderly)

theorem Symbol.Orderly.apply {s : Symbol σ α} {parameters : List (Effect σ α)}
    (orderly : s.Orderly parameters.length) (values : String → Option α)
    (each : ∀ parameter ∈ parameters, parameter.Orderly fun _ => True) :
    (Tree.apply values s parameters).Orderly fun _ => True := by
  cases s with
  | operand value => exact .pure trivial
  | «variable» label =>
    rw [Tree.apply]
    split
    · exact .pure trivial
    · exact .throw rfl
  | operator op => exact Action.Orderly.start orderly each
  | call callable =>
    cases callable with
    | function f => exact Action.Orderly.start orderly each
    | branch b =>
      obtain ⟨positive, choice⟩ := orderly
      cases parameters with
      | nil => cases positive
      | cons selector others =>
        rw [Tree.apply_branch]
        refine (each selector List.mem_cons_self).bind fun value _ => ?_
        have asked : ((b.choice value).start []).Orderly Selection.IsSmall :=
          Action.Orderly.start (choice value) (List.forall_mem_nil _)
        exact asked.bind fun selection small => Tree.orderly_taken each small

namespace Tree

/-- All symbols of the tree do what is orderly with the operands that they have. -/
inductive Orderly : Tree (Symbol σ α) → Prop where
  | node {s : Symbol σ α} {cs : List (Tree (Symbol σ α))} :
      s.Orderly cs.length → (∀ c ∈ cs, Orderly c) → Orderly (.node s cs)

theorem Orderly.evaluate {t : Tree (Symbol σ α)} (orderly : t.Orderly)
    (values : String → Option α) :
    (t.evaluate values).Orderly fun _ => True := by
  induction orderly with
  | @node s cs here _ ih =>
    rw [Tree.evaluate, evaluateAll_eq_map]
    rw [← List.length_map (Tree.evaluate values)] at here
    exact here.apply values (List.forall_mem_map.mpr ih)

end Tree
end InfixCalc
