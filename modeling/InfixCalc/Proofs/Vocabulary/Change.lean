import InfixCalc.Proofs.Outcome
import InfixCalc.Vocabulary.Meaning

/-!
# Changes of a vocabulary

What each call that changes a vocabulary does to it where it gives an answer. Whatever holds of
every vocabulary that comes about is proved from this, without a look at the calls.
-/

namespace InfixCalc

variable {σ α : Type}

/-- A label that a caller may use. -/
def IsUsable (label : String) : Prop := label ∉ reservedLabels ∧ isValidLabel label = true

theorem Setting.le_of_atLeast? {setting : Setting} {least level : Int}
    (given : setting.atLeast? least = some level) : least ≤ level := by
  unfold atLeast? at given
  split at given
  · split at given
    · cases given
      assumption
    · cases given
  · cases given

namespace Vocabulary

/-- A word is added, or one that may be missing is taken away. -/
inductive Change (v w : Vocabulary σ α) : Prop where
  | addOperator {label fixityName : String} {precedence : Setting} {body : Callback σ α}
      {op : Operator σ α} :
      v.addOperator label fixityName precedence body = .ok (op, w) → Change v w
  | removeOperatorAt {label : String} {fixity : Fixity} {found : Bool} :
      v.removeOperatorAt label fixity = .ok (found, w) → Change v w
  | removeOperator {label : String} {found : Bool} :
      v.removeOperator label = .ok (found, w) → Change v w
  | addFunction {label : String} {arity : Setting} {body : Callback σ α} {f : Function σ α} :
      v.addFunction label arity body = .ok (f, w) → Change v w
  | removeFunction {label : String} {found : Bool} :
      v.removeFunction label = .ok (found, w) → Change v w
  | addBranch {label : String} {arity : Setting} {choice : Choice σ α} {b : Branch σ α} :
      v.addBranch label arity choice = .ok (b, w) → Change v w
  | removeBranch {label : String} {found : Bool} :
      v.removeBranch label = .ok (found, w) → Change v w
  | addConstant {label : String} {value : α} :
      v.addConstant label value = .ok w → Change v w
  | removeConstant {label : String} {found : Bool} :
      v.removeConstant label = .ok (found, w) → Change v w

/-- What a change does to a vocabulary where it gives an answer. -/
inductive Does (v : Vocabulary σ α) : Answer σ α → Vocabulary σ α → Prop where
  | addOperator {op : Operator σ α} (usable : IsUsable op.label) (plain : op.symbol = none)
      (positive : 1 ≤ op.precedence) : Does v (.operator op) (v.putOperator op)
  | addFunction {f : Function σ α} (usable : IsUsable f.label)
      (noBranch : v.branches.contains f.label = false) : Does v (.function f) (v.putFunction f)
  | addBranch {b : Branch σ α} (usable : IsUsable b.label)
      (noFunction : v.functions.contains b.label = false)
      (takes : b.arity.toInt = -1 ∨ 3 ≤ b.arity.toInt) : Does v (.branch b) (v.putBranch b)
  | addConstant {label : String} (value : α) (usable : IsUsable label) :
      Does v .nothing (v.putConstant label value)
  | removeOperatorAt (label : String) (fixity : Fixity) : Does v (.removed true)
      (v.setOperatorsAt fixity ((v.operatorsAt fixity).erase label)).touch
  | removeOperator (label : String) : Does v (.removed true)
      { v with
        before := v.before.erase label
        after := v.after.erase label
        between := v.between.erase label }.touch
  | removeFunction (label : String) :
      Does v (.removed true) { v with functions := v.functions.erase label }.touch
  | removeBranch (label : String) :
      Does v (.removed true) { v with branches := v.branches.erase label }.touch
  | removeConstant (label : String) :
      Does v (.removed true) { v with constants := v.constants.erase label }.touch
  | findNothing : Does v (.removed false) v

variable {v w : Vocabulary σ α}

theorem isUsable_of_checkLabel {label : String} {result : Unit}
    (h : checkLabel label = .ok result) : IsUsable label := by
  unfold checkLabel at h
  obtain ⟨_, free, valid⟩ := bind_eq_ok_iff.mp h
  unfold checkReserved at free
  constructor
  · intro reserved
    simp [reserved] at free
  · split at valid
    · assumption
    · cases valid

theorem takes_of_branchArity? {arity : Setting} {count : Arity}
    (given : branchArity? arity = some count) : count.toInt = -1 ∨ 3 ≤ count.toInt := by
  unfold branchArity? at given
  split at given
  · split at given
    · cases given
      exact .inl rfl
    · split at given
      · cases given
        right
        simp only [Arity.toInt]
        omega
      · cases given
  · cases given

/-- A removal takes out what is present, and otherwise leaves everything as it is. -/
theorem removed_or_kept {rest : Vocabulary σ α} {check : Except Failure Unit}
    {present found : Bool}
    (removed : (do
      check
      if present then return (true, rest) else return (false, v)) = Except.ok (found, w)) :
    found = true ∧ w = rest ∨ found = false ∧ w = v := by
  obtain ⟨_, _, later⟩ := bind_eq_ok_iff.mp removed
  cases present with
  | true =>
    cases later
    exact .inl ⟨rfl, rfl⟩
  | false =>
    cases later
    exact .inr ⟨rfl, rfl⟩

theorem does_addOperator {label fixityName : String} {precedence : Setting}
    {body : Callback σ α} {op : Operator σ α}
    (added : v.addOperator label fixityName precedence body = .ok (op, w)) :
    Does v (.operator op) w := by
  unfold addOperator at added
  obtain ⟨_, checked, later⟩ := bind_eq_ok_iff.mp added
  split at later
  · split at later
    · rename_i level given
      cases later
      have positive : 1 ≤ level := Setting.le_of_atLeast? given
      refine .addOperator (isUsable_of_checkLabel checked) rfl ?_
      simp only
      omega
    · cases later
  · cases later

theorem does_addFunction {label : String} {arity : Setting} {body : Callback σ α}
    {f : Function σ α} (added : v.addFunction label arity body = .ok (f, w)) :
    Does v (.function f) w := by
  unfold addFunction at added
  obtain ⟨_, checked, later⟩ := bind_eq_ok_iff.mp added
  simp only at later
  split at later
  · cases later
  · rename_i noBranch
    split at later
    · cases later
      exact .addFunction (isUsable_of_checkLabel checked) (Bool.not_eq_true _ ▸ noBranch)
    · cases later

theorem does_addBranch {label : String} {arity : Setting} {choice : Choice σ α}
    {b : Branch σ α} (added : v.addBranch label arity choice = .ok (b, w)) :
    Does v (.branch b) w := by
  unfold addBranch at added
  obtain ⟨_, checked, later⟩ := bind_eq_ok_iff.mp added
  simp only at later
  split at later
  · cases later
  · rename_i noFunction
    split at later
    · rename_i count given
      cases later
      exact .addBranch (isUsable_of_checkLabel checked) (Bool.not_eq_true _ ▸ noFunction)
        (takes_of_branchArity? given)
    · cases later

theorem does_addConstant {label : String} {value : α}
    (added : v.addConstant label value = .ok w) : Does v .nothing w := by
  unfold addConstant at added
  obtain ⟨_, checked, later⟩ := bind_eq_ok_iff.mp added
  cases later
  exact .addConstant value (isUsable_of_checkLabel checked)

theorem does_removeOperatorAt {label : String} {fixity : Fixity} {found : Bool}
    (removed : v.removeOperatorAt label fixity = .ok (found, w)) :
    Does v (.removed found) w := by
  rcases removed_or_kept removed with ⟨rfl, rfl⟩ | ⟨rfl, rfl⟩
  · exact .removeOperatorAt label fixity
  · exact .findNothing

theorem does_removeOperator {label : String} {found : Bool}
    (removed : v.removeOperator label = .ok (found, w)) : Does v (.removed found) w := by
  rcases removed_or_kept removed with ⟨rfl, rfl⟩ | ⟨rfl, rfl⟩
  · exact .removeOperator label
  · exact .findNothing

theorem does_removeFunction {label : String} {found : Bool}
    (removed : v.removeFunction label = .ok (found, w)) : Does v (.removed found) w := by
  rcases removed_or_kept removed with ⟨rfl, rfl⟩ | ⟨rfl, rfl⟩
  · exact .removeFunction label
  · exact .findNothing

theorem does_removeBranch {label : String} {found : Bool}
    (removed : v.removeBranch label = .ok (found, w)) : Does v (.removed found) w := by
  rcases removed_or_kept removed with ⟨rfl, rfl⟩ | ⟨rfl, rfl⟩
  · exact .removeBranch label
  · exact .findNothing

theorem does_removeConstant {label : String} {found : Bool}
    (removed : v.removeConstant label = .ok (found, w)) : Does v (.removed found) w := by
  rcases removed_or_kept removed with ⟨rfl, rfl⟩ | ⟨rfl, rfl⟩
  · exact .removeConstant label
  · exact .findNothing

theorem Change.does (change : v.Change w) : ∃ answer, Does v answer w := by
  cases change with
  | addOperator added => exact ⟨_, does_addOperator added⟩
  | removeOperatorAt removed => exact ⟨_, does_removeOperatorAt removed⟩
  | removeOperator removed => exact ⟨_, does_removeOperator removed⟩
  | addFunction added => exact ⟨_, does_addFunction added⟩
  | removeFunction removed => exact ⟨_, does_removeFunction removed⟩
  | addBranch added => exact ⟨_, does_addBranch added⟩
  | removeBranch removed => exact ⟨_, does_removeBranch removed⟩
  | addConstant added => exact ⟨_, does_addConstant added⟩
  | removeConstant removed => exact ⟨_, does_removeConstant removed⟩

/-- A word was added whose number cannot be written out for the log. -/
inductive Answer.Unloggable : Answer σ α → Prop where
  | operator {op : Operator σ α} :
      Number.isWritable op.precedence = false → Unloggable (.operator op)
  | function {f : Function σ α} : f.arity.isWritable = false → Unloggable (.function f)
  | branch {b : Branch σ α} : b.arity.isWritable = false → Unloggable (.branch b)

theorem Answer.logged_cases (answer : Answer σ α) :
    answer.logged = .ok answer ∨ answer.logged = .error .unreadableValue ∧ answer.Unloggable := by
  have written (n : Int) : (∃ text, Number.written n = .ok text) ∨
      Number.written n = .error .unreadableValue ∧ Number.isWritable n = false := by
    unfold Number.written
    cases short : Number.isWritable n with
    | true => exact .inl ⟨_, rfl⟩
    | false => exact .inr ⟨rfl, rfl⟩
  cases answer with
  | operator op =>
    rcases written op.precedence with ⟨text, shown⟩ | ⟨failed, long⟩
    · exact .inl (by rw [logged, shown]; rfl)
    · exact .inr ⟨by rw [logged, failed]; rfl, .operator long⟩
  | function f =>
    rcases written f.arity.toInt with ⟨text, shown⟩ | ⟨failed, long⟩
    · exact .inl (by rw [logged, shown]; rfl)
    · exact .inr ⟨by rw [logged, failed]; rfl, .function long⟩
  | branch b =>
    rcases written b.arity.toInt with ⟨text, shown⟩ | ⟨failed, long⟩
    · exact .inl (by rw [logged, shown]; rfl)
    · exact .inr ⟨by rw [logged, failed]; rfl, .branch long⟩
  | nothing => exact .inl rfl
  | removed found => exact .inl rfl

/-- What has happened to a vocabulary when a change is over. It is as it was after a failure and
where nothing was found to remove, and one version further otherwise; but a word whose number cannot
be written out for the log has been added all the same. -/
inductive Counts (v : Vocabulary σ α) : Except Failure (Answer σ α) → Vocabulary σ α → Prop where
  | failed (cause : Failure) : Counts v (.error cause) v
  | foundNothing : Counts v (.ok (.removed false)) v
  | changed {answer : Answer σ α} {w : Vocabulary σ α} :
      Does v answer w → answer ≠ .removed false → w.version = v.version + 1 →
        Counts v (.ok answer) w
  | unlogged {answer : Answer σ α} {w : Vocabulary σ α} :
      Does v answer w → answer.Unloggable → w.version = v.version + 1 →
        Counts v (.error .unreadableValue) w

theorem version_setOperatorsAt (v : Vocabulary σ α) (fixity : Fixity)
    (entries : Entries (Operator σ α)) :
    (v.setOperatorsAt fixity entries).touch.version = v.version + 1 := by
  cases fixity <;> rfl

/-- A change that finds something to do takes the version one further. -/
theorem Does.version {answer : Answer σ α} (does : Does v answer w)
    (found : answer ≠ .removed false) : w.version = v.version + 1 := by
  cases does with
  | addOperator _ _ _ => exact version_setOperatorsAt v _ _
  | removeOperatorAt _ fixity => exact version_setOperatorsAt v fixity _
  | findNothing => exact absurd rfl found
  | _ => rfl

theorem Does.counts {answer : Answer σ α} (does : Does v answer w) :
    Counts v answer.logged w := by
  rcases answer.logged_cases with same | ⟨failed, long⟩
  · rw [same]
    by_cases found : answer = .removed false
    · subst found
      cases does
      exact .foundNothing
    · exact .changed does found (does.version found)
  · rw [failed]
    refine .unlogged does long (does.version ?_)
    rintro rfl
    cases long

theorem Counts.sameOrNext {result : Except Failure (Answer σ α)} (counts : Counts v result w) :
    w = v ∨ w.version = v.version + 1 := by
  cases counts with
  | failed cause => exact .inl rfl
  | foundNothing => exact .inl rfl
  | changed _ _ further => exact .inr further
  | unlogged _ _ further => exact .inr further

end Vocabulary
end InfixCalc
