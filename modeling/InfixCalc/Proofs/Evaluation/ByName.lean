import InfixCalc.Proofs.Evaluation.Recorded

/-!
# Evaluation by name

An evaluation by name runs a parameter again at every read. Where no callback changes the state or
asks which parameters have been evaluated, it gives what the lazy evaluation gives, which keeps
every value that it has read.
-/

namespace InfixCalc

variable {σ α β γ : Type}

/-- The action does not change the state, and of its parameters it asks only the outcomes. -/
inductive Action.IsQuiet : Action σ α β → Prop where
  | done (value : β) : IsQuiet (.done value)
  | fail (cause : Failure) : IsQuiet (.fail cause)
  | read (index : Nat) {next : Except Failure α → Action σ α β} :
      (∀ outcome, IsQuiet (next outcome)) → IsQuiet (.read index next)
  | get {next : σ → Action σ α β} : (∀ state, IsQuiet (next state)) → IsQuiet (.get next)

theorem Action.IsQuiet.parameter_bind (index : Nat) {next : α → Action σ α β}
    (quiet : ∀ value, (next value).IsQuiet) : ((parameter index).bind next).IsQuiet :=
  .read index fun
    | .ok value => quiet value
    | .error cause => .fail cause

def Symbol.IsQuiet : Symbol σ α → Prop
  | .operand _ | .variable _ => True
  | .operator op => ∀ count, (op.body count).IsQuiet
  | .call (.function f) => ∀ count, (f.body count).IsQuiet
  | .call (.branch b) => ∀ value, (b.choice value).IsQuiet

namespace Tree

def applyByName (values : String → Option α) (s : Symbol σ α) (parameters : List (Effect σ α)) :
    Effect σ α :=
  match s with
  | .operand value => pure value
  | .variable label =>
    match values label with
    | some value => pure value
    | none => throw (.unknownVariable label)
  | .operator op => (op.body parameters.length).runByName parameters
  | .call (.function f) => (f.body parameters.length).runByName parameters
  | .call (.branch b) =>
    match parameters with
    | [] => throw .missingParameter
    | selector :: others => do
      let value ← selector
      let selection ← (b.choice value).runByName []
      taken b.label (selector :: others) selection

mutual

def evaluateByName (values : String → Option α) : Tree (Symbol σ α) → Effect σ α
  | .node s cs => applyByName values s (evaluateAllByName values cs)

def evaluateAllByName (values : String → Option α) : List (Tree (Symbol σ α)) → List (Effect σ α)
  | [] => []
  | c :: cs => evaluateByName values c :: evaluateAllByName values cs

end

end Tree

/-- The effect leaves the state as it is. -/
def Steady (effect : Effect σ β) : Prop := ∀ state, (effect.run state).2 = state

namespace Steady

theorem run_eq {effect : Effect σ β} (steady : Steady effect) (state : σ) :
    effect.run state = ((effect.run state).1, state) :=
  Prod.ext rfl (steady state)

theorem bind {first : Effect σ β} {next : β → Effect σ γ} (steady : Steady first)
    (steadyNext : ∀ value, Steady (next value)) : Steady (first >>= next) := by
  intro state
  rw [Effect.run_bind, steady.run_eq]
  cases (first.run state).1 with
  | error cause => rfl
  | ok value => exact steadyNext value state

end Steady

/-- The known values are those that the parameters give in the state. -/
def Knows (parameters : List (Effect σ α)) (state : σ) (known : List (Option α)) : Prop :=
  ∀ (index : Nat) (value : α), known[index]? = some (some value) →
    ∃ parameter : Effect σ α, parameters[index]? = some parameter ∧
      parameter.run state = (.ok value, state)

theorem knows_nothing (parameters : List (Effect σ α)) (state : σ) :
    Knows parameters state (parameters.map fun _ => none) := by
  intro index value known
  rw [List.getElem?_map, Option.map_eq_some_iff] at known
  obtain ⟨_, _, never⟩ := known
  cases never

theorem Knows.set {parameters : List (Effect σ α)} {state : σ} {known : List (Option α)}
    (knows : Knows parameters state known) {index : Nat} {parameter : Effect σ α} {value : α}
    (found : parameters[index]? = some parameter)
    (gives : parameter.run state = (.ok value, state)) :
    Knows parameters state (known.set index (some value)) := by
  intro other given stored
  by_cases same : index = other
  · subst same
    rw [List.getElem?_set_self'] at stored
    obtain ⟨_, _, stored⟩ := Option.map_eq_some_iff.mp stored
    cases stored
    exact ⟨parameter, found, gives⟩
  · rw [List.getElem?_set_ne same] at stored
    exact knows other given stored

/-- In a state that stays as it is, a value that is kept is the value that a parameter gives when
it runs again. -/
theorem Action.IsQuiet.run_eq {parameters : List (Effect σ α)}
    (steady : ∀ parameter ∈ parameters, Steady parameter) {action : Action σ α β}
    (quiet : action.IsQuiet) {known : List (Option α)} {state : σ}
    (knows : Knows parameters state known) :
    (action.run parameters known).run state = (action.runByName parameters).run state ∧
      ((action.runByName parameters).run state).2 = state := by
  induction quiet generalizing known with
  | done value => exact ⟨rfl, rfl⟩
  | fail cause => exact ⟨rfl, rfl⟩
  | @read index next _ ih =>
    rw [Action.run, Action.runByName]
    split
    · rename_i value stored
      obtain ⟨parameter, there, gives⟩ := knows index value stored
      simp only [there]
      rw [Effect.run_observing_bind, gives]
      exact ih (.ok value) knows
    · cases found : parameters[index]? with
      | none => exact ih (.error .missingParameter) knows
      | some parameter =>
        have still := (steady parameter (List.mem_of_getElem? found)).run_eq state
        simp only
        rw [Effect.run_observing_bind, Effect.run_observing_bind, still]
        cases outcome : (parameter.run state).1 with
        | error cause => exact ih (.error cause) knows
        | ok value =>
          rw [outcome] at still
          exact ih (.ok value) (knows.set found still)
  | get _ ih => exact ih state knows

theorem Action.IsQuiet.start_eq {parameters : List (Effect σ α)}
    (steady : ∀ parameter ∈ parameters, Steady parameter) {action : Action σ α β}
    (quiet : action.IsQuiet) :
    action.start parameters = action.runByName parameters ∧
      Steady (action.runByName parameters) := by
  have both (state : σ) := quiet.run_eq steady (knows_nothing parameters state)
  exact ⟨funext fun state => (both state).1, fun state => (both state).2⟩

namespace Tree

theorem steady_taken {parameters : List (Effect σ α)}
    (steady : ∀ parameter ∈ parameters, Steady parameter) (label : String)
    (selection : Selection) : Steady (taken label parameters selection) := by
  unfold taken
  split
  · exact fun state => rfl
  · split
    · rename_i parameter found
      exact steady parameter (List.mem_of_getElem? found)
    · exact fun state => rfl

theorem apply_eq_byName (values : String → Option α) {s : Symbol σ α} (quiet : s.IsQuiet)
    {parameters : List (Effect σ α)} (steady : ∀ parameter ∈ parameters, Steady parameter) :
    apply values s parameters = applyByName values s parameters ∧
      Steady (applyByName values s parameters) := by
  cases s with
  | operand value => exact ⟨rfl, fun state => rfl⟩
  | «variable» label =>
    rw [apply, applyByName]
    cases values label with
    | some value => exact ⟨rfl, fun state => rfl⟩
    | none => exact ⟨rfl, fun state => rfl⟩
  | operator op => exact (quiet parameters.length).start_eq steady
  | call callable =>
    cases callable with
    | function f => exact (quiet parameters.length).start_eq steady
    | branch b =>
      rcases parameters with _ | ⟨selector, others⟩
      · exact ⟨rfl, fun state => rfl⟩
      · have choice (value : α) : (b.choice value).start [] = (b.choice value).runByName [] ∧
            Steady ((b.choice value).runByName []) :=
          (quiet value).start_eq fun _ member => absurd member List.not_mem_nil
        rw [apply_branch, applyByName]
        refine ⟨?_, ?_⟩
        · simp only [(choice _).1]
        · refine Steady.bind (steady selector List.mem_cons_self) fun value => ?_
          exact Steady.bind (choice value).2 fun selection => steady_taken steady b.label selection

theorem evaluate_eq_byName (values : String → Option α) {t : Tree (Symbol σ α)}
    (quiet : ∀ s ∈ t.postorder, s.IsQuiet) :
    t.evaluate values = t.evaluateByName values ∧ Steady (t.evaluateByName values) := by
  induction t with
  | node s cs ih =>
    have children (ds : List (Tree (Symbol σ α))) (inside : ∀ d ∈ ds, d ∈ cs)
        (quietAll : ∀ s ∈ postorderAll ds, s.IsQuiet) :
        evaluateAll values ds = evaluateAllByName values ds ∧
          ∀ parameter ∈ evaluateAllByName values ds, Steady parameter := by
      induction ds with
      | nil => exact ⟨rfl, fun _ never => nomatch never⟩
      | cons d ds others =>
        rw [postorderAll] at quietAll
        obtain ⟨same, steady⟩ := ih d (inside d List.mem_cons_self) fun s member =>
          quietAll s (List.mem_append_left _ member)
        obtain ⟨sameAll, steadyAll⟩ := others
          (fun e member => inside e (List.mem_cons_of_mem _ member))
          fun s member => quietAll s (List.mem_append_right _ member)
        rw [evaluateAll, evaluateAllByName, same, sameAll]
        exact ⟨rfl, List.forall_mem_cons.mpr ⟨steady, steadyAll⟩⟩
    rw [postorder] at quiet
    obtain ⟨same, steady⟩ := children cs (fun _ member => member) fun s member =>
      quiet s (List.mem_append_left _ member)
    rw [evaluate, evaluateByName, same]
    exact apply_eq_byName values (quiet s (by simp)) steady

end Tree

namespace Expression

/-- The expression whose callbacks record where they stand as they are entered. -/
def recorded (e : Expression σ α) : Expression (σ × List Place) α :=
  ⟨e.root.recorded [], e.constants, e.print, e.stamp⟩

def evaluateByName (e : Expression σ α) (bindings : List (String × α)) : Effect σ α :=
  e.root.evaluateByName (valueOf bindings e.constants)

/-- An evaluation enters each callback and each choice at most once, whatever they read and however
often, as long as none of them reads a parameter again that has failed. If they are quiet, it gives
what the evaluation by name gives, whether they catch failures or not. -/
theorem evaluate_once (e : Expression σ α) (bindings : List (String × α)) :
    ((∀ s ∈ e.root.postorder, s.NeverRetries) → ∀ state, ∃ entered : List Place,
      (e.recorded.evaluate bindings).run (state, []) =
        (((e.evaluate bindings).run state).1, ((e.evaluate bindings).run state).2, entered) ∧
      entered.Nodup) ∧
    ((∀ s ∈ e.root.postorder, s.IsQuiet) →
      e.evaluate bindings = e.evaluateByName bindings) := by
  constructor
  · intro once state
    obtain ⟨entered, same, nodup, _⟩ :=
      Tree.records_evaluate (valueOf bindings e.constants) once [] state []
    exact ⟨entered, same, nodup⟩
  · intro quiet
    exact (Tree.evaluate_eq_byName _ quiet).1

def twice : Operator Unit Nat where
  label := "twice"
  fixity := .before
  precedence := 1
  body _ := (Action.parameter 0).bind fun first => (Action.parameter 0).bind fun second =>
    .done (first + second)
  symbol := none

/-- An operator that reads its operand twice, applied twice. -/
def twiceTwice : Expression Unit Nat where
  root := .node (.operator twice) [.node (.operator twice) [.node (.operand 3) []]]
  constants := .empty
  print n := .ok (toString n)
  stamp := 0

theorem mem_twiceTwice {s : Symbol Unit Nat} (member : s ∈ twiceTwice.root.postorder) :
    s = .operand 3 ∨ s = .operator twice := by
  simpa [twiceTwice, Tree.postorder, Tree.postorderAll] using member

theorem quiet_twiceTwice : ∀ s ∈ twiceTwice.root.postorder, s.IsQuiet := by
  intro s member
  rcases mem_twiceTwice member with rfl | rfl
  · trivial
  · exact fun _ => .parameter_bind 0 fun first => .parameter_bind 0 fun second => .done _

theorem neverRetries_twiceTwice : ∀ s ∈ twiceTwice.root.postorder, s.NeverRetries := by
  intro s member
  rcases mem_twiceTwice member with rfl | rfl
  · trivial
  · have untried : 0 ∉ ([] : List Nat) := List.not_mem_nil
    exact fun _ => .parameter_bind untried fun first => .parameter_bind untried fun second =>
      .done _

theorem evaluate_once_twiceTwice :
    (∃ entered : List Place, (twiceTwice.recorded.evaluate []).run ((), []) =
        (.ok 12, (), entered) ∧ entered.Nodup) ∧
      twiceTwice.evaluate [] = twiceTwice.evaluateByName [] := by
  obtain ⟨once, byName⟩ := evaluate_once twiceTwice []
  exact ⟨once neverRetries_twiceTwice (), byName quiet_twiceTwice⟩

example : ((twiceTwice.recorded.evaluate []).run ((), [])).2.2 = [[], [0]] := rfl

end Expression
end InfixCalc
