import InfixCalc.Failure

/-!
# Actions over lazy parameters

What a callback does, as data: it may read a parameter, ask whether one has been evaluated, use the
shared state, fail, or finish. Parameters are computations that run when they are read. A read that
fails tells the callback why, and the callback passes the failure on or catches it and goes on.
`Action.run` keeps each value it has read, so that no parameter runs again once it has a value;
`Action.runByName` runs the parameter again at every read.
-/

namespace InfixCalc

abbrev Effect (σ α : Type) := ExceptT Failure (StateM σ) α

/-- An outcome that is known already, as an effect that leaves the state alone. -/
def require {σ β : Type} (outcome : Except Failure β) : Effect σ β := ExceptT.mk (pure outcome)

/-- What a callback does with parameters of type `α` and a state of type `σ` to give a `β`. -/
inductive Action (σ α β : Type) where
  | done (value : β)
  | fail (cause : Failure)
  | read (index : Nat) (next : Except Failure α → Action σ α β)
  | peek (index : Nat) (next : Option α → Action σ α β)
  | get (next : σ → Action σ α β)
  | set (state : σ) (next : Action σ α β)

namespace Action

variable {σ α β γ : Type}

def bind (action : Action σ α β) (f : β → Action σ α γ) : Action σ α γ :=
  match action with
  | .done value => f value
  | .fail cause => .fail cause
  | .read index next => .read index fun outcome => (next outcome).bind f
  | .peek index next => .peek index fun value => (next value).bind f
  | .get next => .get fun state => (next state).bind f
  | .set state next => .set state (next.bind f)

instance : Monad (Action σ α) where
  pure := .done
  bind := .bind

def ofExcept : Except Failure β → Action σ α β
  | .ok value => .done value
  | .error cause => .fail cause

/-- The value of a parameter. Its failure is passed on. -/
def parameter (index : Nat) : Action σ α α := .read index ofExcept

def parametersFrom (first : Nat) : Nat → Action σ α (List α)
  | 0 => .done []
  | count + 1 => (parameter first).bind fun value =>
    (parametersFrom (first + 1) count).bind fun others => .done (value :: others)

def parameters (count : Nat) : Action σ α (List α) := parametersFrom 0 count

def update (f : σ → σ) : Action σ α Unit := .get fun state => .set (f state) (.done ())

/-- The values of parameters that are known after a read. A failure leaves its parameter unread. -/
def keep (known : List (Option α)) (index : Nat) : Except Failure α → List (Option α)
  | .ok value => known.set index (some value)
  | .error _ => known

@[simp]
theorem length_keep (known : List (Option α)) (index : Nat) (outcome : Except Failure α) :
    (keep known index outcome).length = known.length := by
  cases outcome with
  | ok value => exact List.length_set
  | error cause => rfl

/-- Run an action; `known` holds the values of the parameters read so far. -/
def run (parameters : List (Effect σ α)) : List (Option α) → Action σ α β → Effect σ β
  | _, .done value => pure value
  | _, .fail cause => throw cause
  | known, .read index next =>
    match known[index]? with
    | some (some value) => run parameters known (next (.ok value))
    | _ =>
      match parameters[index]? with
      | none => run parameters known (next (.error .missingParameter))
      | some parameter => do
        let outcome ← observing parameter
        run parameters (keep known index outcome) (next outcome)
  | known, .peek index next =>
    match known[index]? with
    | none => throw .missingParameter
    | some state => run parameters known (next state)
  | known, .get next => do
    let state ← MonadStateOf.get
    run parameters known (next state)
  | known, .set state next => do
    MonadStateOf.set state
    run parameters known next

def start (parameters : List (Effect σ α)) (action : Action σ α β) : Effect σ β :=
  action.run parameters (parameters.map fun _ => none)

def runByName (parameters : List (Effect σ α)) : Action σ α β → Effect σ β
  | .done value => pure value
  | .fail cause => throw cause
  | .read index next =>
    match parameters[index]? with
    | none => runByName parameters (next (.error .missingParameter))
    | some parameter => do
      let outcome ← observing parameter
      runByName parameters (next outcome)
  | .peek index next =>
    if index < parameters.length then runByName parameters (next none)
    else throw .missingParameter
  | .get next => do
    let state ← MonadStateOf.get
    runByName parameters (next state)
  | .set state next => do
    MonadStateOf.set state
    runByName parameters next

end Action
end InfixCalc
