import InfixCalc.Proofs.Effect
import InfixCalc.Proofs.Vocabulary.Change

/-!
# Edits

The calls that change a vocabulary, taken apart into steps on a vocabulary that outlives a failure.
Each step of a call that can fail comes before the first one that changes something, so the steps
do what the call as a whole does: all of it, or nothing where it fails. Only the log comes last. An
addition whose number cannot be written out for it fails when it has been made.
-/

namespace InfixCalc

theorem Entries.erase_eq_self {α : Type} {entries : Entries α} {label : String}
    (missing : entries.contains label = false) : entries.erase label = entries := by
  obtain ⟨items⟩ := entries
  simp only [contains, get?, Option.isSome_eq_false_iff, Option.isNone_iff_eq_none,
    List.lookup_eq_none_iff] at missing
  refine congrArg Entries.mk (List.filter_eq_self.mpr ?_)
  intro entry member
  simpa using missing entry member

namespace Vocabulary

variable {σ α : Type}

/-- A call that changes a vocabulary, with its arguments as they are given. -/
inductive Edit (σ α : Type) where
  | addOperator (label fixityName : String) (precedence : Setting) (body : Callback σ α)
  | removeOperator (label : String) (fixityName : Option String)
  | addFunction (label : String) (arity : Setting) (body : Callback σ α)
  | removeFunction (label : String)
  | addBranch (label : String) (arity : Setting) (choice : Choice σ α)
  | removeBranch (label : String)
  | addConstant (label : String) (value : α)
  | removeConstant (label : String)

namespace Edit

/-- The fixities whose operators a removal looks through. -/
def fixities : Option String → Except Failure (List Fixity)
  | none => .ok [.before, .after, .left]
  | some name =>
    match Fixity.ofName? name with
    | some fixity => .ok [fixity]
    | none => .error .unknownFixity

/- The steps. -/

def takeOut (label : String) (fixity : Fixity) : Effect (Vocabulary σ α) Bool := do
  let v ← get
  if (v.operatorsAt fixity).contains label then
    set (v.setOperatorsAt fixity ((v.operatorsAt fixity).erase label))
    return true
  else return false

def takeOutAll (label : String) : List Fixity → Effect (Vocabulary σ α) Bool
  | [] => return false
  | fixity :: others => do
    let here ← takeOut label fixity
    let elsewhere ← takeOutAll label others
    return here || elsewhere

/-- The steps that remove a label from some entries of a vocabulary. -/
def removeFrom {β : Type} (entries : Vocabulary σ α → Entries β)
    (store : Vocabulary σ α → Entries β → Vocabulary σ α) (label : String) :
    Effect (Vocabulary σ α) (Answer σ α) := do
  require (checkReserved label)
  let v ← get
  if (entries v).contains label then
    set (store v ((entries v).erase label))
    modify touch
    return .removed true
  else return .removed false

def perform : Edit σ α → Effect (Vocabulary σ α) (Answer σ α)
  | .addOperator label fixityName precedence body => do
    require (checkLabel label)
    match Fixity.ofName? fixityName, precedence.atLeast? 1 with
    | none, _ => throw (.invalidFixity label fixityName)
    | some _, none => throw (.showing precedence (.invalidPrecedence label precedence))
    | some fixity, some level =>
      let op : Operator σ α := ⟨label, fixity, level.toNat, body, none⟩
      modify fun v => v.setOperatorsAt fixity ((v.operatorsAt fixity).insert label op)
      modify touch
      require (Answer.operator op).logged
  | .removeOperator label fixityName => do
    require (checkReserved label)
    let places ← require (fixities fixityName)
    let found ← takeOutAll label places
    if found then modify touch
    return .removed found
  | .addFunction label arity body => do
    require (checkLabel label)
    let v ← get
    if v.branches.contains label then throw (.labelOfBranch label)
    match arity.atLeast? (-1) with
    | none => throw (.showing arity (.invalidFunctionArity label arity))
    | some count =>
      let f : Function σ α := ⟨label, if count = -1 then .variable else .exactly count.toNat, body⟩
      modify fun v => { v with functions := v.functions.insert label f }
      modify touch
      require (Answer.function f).logged
  | .removeFunction label =>
    removeFrom functions (fun v rest => { v with functions := rest }) label
  | .addBranch label arity choice => do
    require (checkLabel label)
    let v ← get
    if v.functions.contains label then throw (.labelOfFunction label)
    match branchArity? arity with
    | none => throw (.showing arity (.invalidBranchArity label arity))
    | some count =>
      let b : Branch σ α := ⟨label, count, choice⟩
      modify fun v => { v with branches := v.branches.insert label b }
      modify touch
      require (Answer.branch b).logged
  | .removeBranch label =>
    removeFrom branches (fun v rest => { v with branches := rest }) label
  | .addConstant label value => do
    require (checkLabel label)
    modify fun v => { v with constants := v.constants.insert label value }
    modify touch
    return .nothing
  | .removeConstant label =>
    removeFrom constants (fun v rest => { v with constants := rest }) label

/-- What the call as a whole gives for an edit. -/
def outcome (v : Vocabulary σ α) : Edit σ α → Except Failure (Answer σ α × Vocabulary σ α)
  | .addOperator label fixityName precedence body =>
    (v.addOperator label fixityName precedence body).map fun (op, w) => (.operator op, w)
  | .removeOperator label none =>
    (v.removeOperator label).map fun (found, w) => (.removed found, w)
  | .removeOperator label (some name) => do
    checkReserved label
    match Fixity.ofName? name with
    | some fixity => (v.removeOperatorAt label fixity).map fun (found, w) => (.removed found, w)
    | none => .error .unknownFixity
  | .addFunction label arity body =>
    (v.addFunction label arity body).map fun (f, w) => (.function f, w)
  | .removeFunction label => (v.removeFunction label).map fun (found, w) => (.removed found, w)
  | .addBranch label arity choice =>
    (v.addBranch label arity choice).map fun (b, w) => (.branch b, w)
  | .removeBranch label => (v.removeBranch label).map fun (found, w) => (.removed found, w)
  | .addConstant label value => (v.addConstant label value).map fun w => (.nothing, w)
  | .removeConstant label => (v.removeConstant label).map fun (found, w) => (.removed found, w)

/-- An outcome as it shows in place: where there is a failure, the vocabulary is still there, and an
answer is told to the log when the vocabulary has changed. -/
def settled (v : Vocabulary σ α) :
    Except Failure (Answer σ α × Vocabulary σ α) → Except Failure (Answer σ α) × Vocabulary σ α
  | .ok (answer, w) => (answer.logged, w)
  | .error cause => (.error cause, v)

/- The steps of each call come to its outcome. -/

theorem run_addOperator (v : Vocabulary σ α) (label fixityName : String) (precedence : Setting)
    (body : Callback σ α) :
    (addOperator label fixityName precedence body).perform.run v =
      settled v (outcome v (.addOperator label fixityName precedence body)) := by
  simp only [perform, Effect.run_bind, Effect.run_require, outcome, Vocabulary.addOperator]
  cases checkLabel label with
  | error cause => rfl
  | ok _ =>
    cases Fixity.ofName? fixityName with
    | none => rfl
    | some fixity =>
      cases precedence.atLeast? 1 with
      | none => rfl
      | some level => rfl

theorem run_addFunction (v : Vocabulary σ α) (label : String) (arity : Setting)
    (body : Callback σ α) :
    (addFunction label arity body).perform.run v =
      settled v (outcome v (.addFunction label arity body)) := by
  simp only [perform, Effect.run_bind, Effect.run_require, Effect.run_get, outcome,
    Vocabulary.addFunction]
  cases checkLabel label with
  | error cause => rfl
  | ok _ =>
    cases taken : v.branches.contains label with
    | true =>
      simp only [taken]
      rfl
    | false =>
      simp only [taken]
      cases arity.atLeast? (-1) with
      | none => rfl
      | some count => rfl

theorem run_addBranch (v : Vocabulary σ α) (label : String) (arity : Setting)
    (choice : Choice σ α) :
    (addBranch label arity choice).perform.run v =
      settled v (outcome v (.addBranch label arity choice)) := by
  simp only [perform, Effect.run_bind, Effect.run_require, Effect.run_get, outcome,
    Vocabulary.addBranch]
  cases checkLabel label with
  | error cause => rfl
  | ok _ =>
    cases taken : v.functions.contains label with
    | true =>
      simp only [taken]
      rfl
    | false =>
      simp only [taken]
      cases branchArity? arity with
      | none => rfl
      | some count => rfl

theorem run_addConstant (v : Vocabulary σ α) (label : String) (value : α) :
    (addConstant label value).perform.run v = settled v (outcome v (.addConstant label value)) := by
  simp only [perform, Effect.run_bind, Effect.run_require, outcome, Vocabulary.addConstant]
  cases checkLabel label with
  | error cause => rfl
  | ok _ => rfl

theorem run_removeFrom {β : Type} (entries : Vocabulary σ α → Entries β)
    (store : Vocabulary σ α → Entries β → Vocabulary σ α) (v : Vocabulary σ α) (label : String) :
    (removeFrom entries store label).run v = settled v (Except.map
      (fun (found, w) => (.removed found, w)) (do
        checkReserved label
        if (entries v).contains label then
          return (true, (store v ((entries v).erase label)).touch)
        else return (false, v))) := by
  simp only [removeFrom, Effect.run_bind, Effect.run_require, Effect.run_get]
  cases checkReserved label with
  | error cause => rfl
  | ok _ =>
    cases present : (entries v).contains label with
    | true =>
      simp only [present]
      rfl
    | false =>
      simp only [present]
      rfl

theorem run_removeFunction (v : Vocabulary σ α) (label : String) :
    (removeFunction label : Edit σ α).perform.run v =
      settled v (outcome v (.removeFunction label)) :=
  run_removeFrom functions (fun v rest => { v with functions := rest }) v label

theorem run_removeBranch (v : Vocabulary σ α) (label : String) :
    (removeBranch label : Edit σ α).perform.run v =
      settled v (outcome v (.removeBranch label)) :=
  run_removeFrom branches (fun v rest => { v with branches := rest }) v label

theorem run_removeConstant (v : Vocabulary σ α) (label : String) :
    (removeConstant label : Edit σ α).perform.run v =
      settled v (outcome v (.removeConstant label)) :=
  run_removeFrom constants (fun v rest => { v with constants := rest }) v label

def withoutAt (v : Vocabulary σ α) (label : String) (fixity : Fixity) : Vocabulary σ α :=
  v.setOperatorsAt fixity ((v.operatorsAt fixity).erase label)

theorem setOperatorsAt_self (v : Vocabulary σ α) (fixity : Fixity) :
    v.setOperatorsAt fixity (v.operatorsAt fixity) = v := by
  cases fixity <;> rfl

theorem withoutAt_eq_self {v : Vocabulary σ α} {label : String} {fixity : Fixity}
    (missing : (v.operatorsAt fixity).contains label = false) : withoutAt v label fixity = v := by
  rw [withoutAt, Entries.erase_eq_self missing, setOperatorsAt_self]

theorem run_takeOut (v : Vocabulary σ α) (label : String) (fixity : Fixity) :
    (takeOut label fixity).run v =
      (.ok ((v.operatorsAt fixity).contains label), withoutAt v label fixity) := by
  simp only [takeOut, Effect.run_bind, Effect.run_get]
  cases present : (v.operatorsAt fixity).contains label with
  | true => rfl
  | false =>
    rw [withoutAt_eq_self present]
    rfl

theorem run_takeOutAll (v : Vocabulary σ α) (label : String) :
    (takeOutAll label [.before, .after, .left]).run v = (.ok (v.hasOperator label),
      { v with
        before := v.before.erase label
        after := v.after.erase label
        between := v.between.erase label }) := by
  simp only [takeOutAll, Effect.run_bind, run_takeOut, Effect.run_pure, hasOperator,
    Bool.or_assoc, Bool.or_false]
  rfl

theorem erase_of_not_hasOperator {v : Vocabulary σ α} {label : String}
    (missing : v.hasOperator label = false) :
    ({ v with
      before := v.before.erase label
      after := v.after.erase label
      between := v.between.erase label } : Vocabulary σ α) = v := by
  simp only [hasOperator, Bool.or_eq_false_iff] at missing
  obtain ⟨⟨before, after⟩, between⟩ := missing
  rw [Entries.erase_eq_self before, Entries.erase_eq_self after, Entries.erase_eq_self between]

theorem run_removeOperator_all (v : Vocabulary σ α) (label : String) :
    (removeOperator label none : Edit σ α).perform.run v =
      settled v (outcome v (.removeOperator label none)) := by
  have found : (v.before.contains label || v.after.contains label || v.between.contains label) =
      v.hasOperator label := rfl
  simp only [perform, fixities, Effect.run_bind, Effect.run_require, run_takeOutAll, outcome,
    Vocabulary.removeOperator, found]
  cases checkReserved label with
  | error cause => rfl
  | ok _ =>
    cases present : v.hasOperator label with
    | true =>
      simp only [present]
      rfl
    | false =>
      simp only [present, erase_of_not_hasOperator present]
      rfl

theorem run_removeOperator_at (v : Vocabulary σ α) (label name : String) :
    (removeOperator label (some name) : Edit σ α).perform.run v =
      settled v (outcome v (.removeOperator label (some name))) := by
  simp only [perform, fixities, Effect.run_bind, Effect.run_require, outcome,
    Vocabulary.removeOperatorAt]
  cases checkReserved label with
  | error cause => rfl
  | ok _ =>
    cases Fixity.ofName? name with
    | none => rfl
    | some fixity =>
      simp only [takeOutAll, Effect.run_bind, run_takeOut, Effect.run_pure]
      cases present : (v.operatorsAt fixity).contains label with
      | true => rfl
      | false =>
        rw [withoutAt_eq_self present]
        rfl

/-- Step by step an edit does what the call as a whole does. -/
theorem run_perform (v : Vocabulary σ α) (edit : Edit σ α) :
    edit.perform.run v = settled v (edit.outcome v) := by
  cases edit with
  | addOperator label fixityName precedence body =>
    exact run_addOperator v label fixityName precedence body
  | removeOperator label fixityName =>
    cases fixityName with
    | none => exact run_removeOperator_all v label
    | some name => exact run_removeOperator_at v label name
  | addFunction label arity body => exact run_addFunction v label arity body
  | removeFunction label => exact run_removeFunction v label
  | addBranch label arity choice => exact run_addBranch v label arity choice
  | removeBranch label => exact run_removeBranch v label
  | addConstant label value => exact run_addConstant v label value
  | removeConstant label => exact run_removeConstant v label

end Edit
end Vocabulary
end InfixCalc
