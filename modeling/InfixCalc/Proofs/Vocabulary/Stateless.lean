import InfixCalc.Proofs.Evaluation.Stateless
import InfixCalc.Proofs.Vocabulary.Kept
import InfixCalc.Proofs.Vocabulary.Supplied

/-!
# Vocabularies without the shared state

A vocabulary whose callbacks use no shared state stays so under edits that bring in none that do,
and every tree that is read with it is evaluated without the state.
-/

namespace InfixCalc

variable {σ α : Type}

theorem Symbol.isStateless_settledAt (callable : Callable σ α) (count : Nat) :
    (Symbol.call (callable.settledAt count)).IsStateless ↔
      (Symbol.call callable).IsStateless := by
  rcases callable.settledAt_cases count with same | same
  · rw [same]
  · rw [same]
    cases callable <;> rfl

namespace Vocabulary

/- Whatever holds of all words, and of the words that an edit brings in, holds of all words
afterwards. -/

variable {P : String → Operator σ α → Prop} {Q : String → Function σ α → Prop}
  {R : String → Branch σ α → Prop}

/-- The word that an answer brings in has the property of its label and itself. -/
def Answer.Keeps (P : String → Operator σ α → Prop) (Q : String → Function σ α → Prop)
    (R : String → Branch σ α → Prop) : Answer σ α → Prop
  | .operator op => P op.label op
  | .function f => Q f.label f
  | .branch b => R b.label b
  | .nothing | .removed _ => True

theorem Keeps.setOperatorsAt {v : Vocabulary σ α} (keeps : v.Keeps P Q R) (fixity : Fixity)
    {entries : Entries (Operator σ α)} (all : entries.All P) :
    (v.setOperatorsAt fixity entries).Keeps P Q R := by
  obtain ⟨before, after, between, functions, branches⟩ := keeps
  cases fixity with
  | before => exact ⟨all, after, between, functions, branches⟩
  | after => exact ⟨before, all, between, functions, branches⟩
  | left => exact ⟨before, after, all, functions, branches⟩
  | right => exact ⟨before, after, all, functions, branches⟩

theorem Keeps.withConstants {v : Vocabulary σ α} (keeps : v.Keeps P Q R) (constants : Entries α)
    (version : Nat) :
    Keeps P Q R { v with constants := constants, version := version } :=
  ⟨keeps.before, keeps.after, keeps.between, keeps.functions, keeps.branches⟩

theorem Does.keeps {v w : Vocabulary σ α} {answer : Answer σ α} (does : Does v answer w)
    (keeps : v.Keeps P Q R) (brings : answer.Keeps P Q R) : w.Keeps P Q R := by
  cases does with
  | addOperator => exact keeps.putOperator brings
  | addFunction =>
    exact ⟨keeps.before, keeps.after, keeps.between, keeps.functions.insert brings, keeps.branches⟩
  | addBranch =>
    exact ⟨keeps.before, keeps.after, keeps.between, keeps.functions, keeps.branches.insert brings⟩
  | addConstant => exact keeps.withConstants _ _
  | removeOperatorAt label fixity =>
    have without := keeps.setOperatorsAt fixity ((keeps.operatorsAt fixity).erase label)
    exact without.withConstants _ _
  | removeOperator label =>
    exact ⟨keeps.before.erase label, keeps.after.erase label, keeps.between.erase label,
      keeps.functions, keeps.branches⟩
  | removeFunction label =>
    exact ⟨keeps.before, keeps.after, keeps.between, keeps.functions.erase label, keeps.branches⟩
  | removeBranch label =>
    exact ⟨keeps.before, keeps.after, keeps.between, keeps.functions, keeps.branches.erase label⟩
  | removeConstant => exact keeps.withConstants _ _
  | findNothing => exact keeps

theorem Keeps.perform {v : Vocabulary σ α} (keeps : v.Keeps P Q R) {edit : Edit σ α}
    (brings : ∀ answer w, edit.outcome v = .ok (answer, w) → answer.Keeps P Q R) :
    (edit.perform.run v).2.Keeps P Q R := by
  rw [Edit.run_perform]
  cases settles : edit.outcome v with
  | error cause => exact keeps
  | ok result =>
    obtain ⟨answer, w⟩ := result
    exact (Edit.outcome_spec settles).1.keeps keeps (brings answer w settles)

/-- The edit adds a constant, or takes something away. -/
def Edit.AddsNoWord : Edit σ α → Prop
  | .addOperator .. | .addFunction .. | .addBranch .. => False
  | .removeOperator .. | .removeFunction _ | .removeBranch _ => True
  | .addConstant .. | .removeConstant _ => True

theorem Edit.AddsNoWord.answer {edit : Edit σ α} (noWord : edit.AddsNoWord) {v w : Vocabulary σ α}
    {answer : Answer σ α} (answered : edit.outcome v = .ok (answer, w)) : answer.Keeps P Q R := by
  cases edit with
  | addOperator label fixityName precedence body => exact noWord.elim
  | addFunction label arity body => exact noWord.elim
  | addBranch label arity choice => exact noWord.elim
  | removeOperator label fixityName =>
    cases fixityName with
    | none =>
      obtain ⟨_, _, same⟩ := map_eq_ok_iff.mp answered
      cases same
      trivial
    | some name =>
      obtain ⟨_, _, later⟩ := bind_eq_ok_iff.mp answered
      split at later
      · obtain ⟨_, _, same⟩ := map_eq_ok_iff.mp later
        cases same
        trivial
      · cases later
  | _ =>
    obtain ⟨_, _, same⟩ := map_eq_ok_iff.mp answered
    cases same
    trivial

/- Callbacks without the shared state. -/

/-- No callback of the vocabulary uses the shared state. -/
abbrev IsStateless (v : Vocabulary σ α) : Prop :=
  v.Keeps (fun _ op => (Symbol.operator op).IsStateless)
    (fun _ f => (Symbol.call (.function f)).IsStateless)
    (fun _ b => (Symbol.call (.branch b)).IsStateless)

abbrev Answer.IsStateless (answer : Answer σ α) : Prop :=
  answer.Keeps (fun _ op => (Symbol.operator op).IsStateless)
    (fun _ f => (Symbol.call (.function f)).IsStateless)
    (fun _ b => (Symbol.call (.branch b)).IsStateless)

/-- The callback that the edit brings in uses no shared state. -/
def Edit.IsStateless : Edit σ α → Prop
  | .addOperator _ _ _ body => ∀ count, (body count).IsStateless
  | .addFunction _ _ body => ∀ count, (body count).IsStateless
  | .addBranch _ _ choice => ∀ value, (choice value).IsStateless
  | .removeOperator _ _ | .removeFunction _ | .removeBranch _ => True
  | .addConstant _ _ | .removeConstant _ => True

theorem Edit.IsStateless.answer {edit : Edit σ α} (stateless : edit.IsStateless)
    {v w : Vocabulary σ α} {answer : Answer σ α} (answered : edit.outcome v = .ok (answer, w)) :
    answer.IsStateless := by
  cases edit with
  | addOperator label fixityName precedence body =>
    obtain ⟨⟨op, w⟩, added, same⟩ := map_eq_ok_iff.mp answered
    cases same
    unfold Vocabulary.addOperator at added
    obtain ⟨_, _, later⟩ := bind_eq_ok_iff.mp added
    split at later
    · split at later
      · cases later
        exact stateless
      · cases later
    · cases later
  | addFunction label arity body =>
    obtain ⟨⟨f, w⟩, added, same⟩ := map_eq_ok_iff.mp answered
    cases same
    unfold Vocabulary.addFunction at added
    obtain ⟨_, _, later⟩ := bind_eq_ok_iff.mp added
    simp only at later
    split at later
    · cases later
    · split at later
      · cases later
        exact stateless
      · cases later
  | addBranch label arity choice =>
    obtain ⟨⟨b, w⟩, added, same⟩ := map_eq_ok_iff.mp answered
    cases same
    unfold Vocabulary.addBranch at added
    obtain ⟨_, _, later⟩ := bind_eq_ok_iff.mp added
    simp only at later
    split at later
    · cases later
    · split at later
      · cases later
        exact stateless
      · cases later
  | _ =>
    refine Edit.AddsNoWord.answer ?_ answered
    trivial

theorem IsStateless.perform {v : Vocabulary σ α} (stateless : v.IsStateless) {edit : Edit σ α}
    (brings : edit.IsStateless) : (edit.perform.run v).2.IsStateless :=
  Keeps.perform stateless fun _ _ answered => brings.answer answered

/-- Every tree that is read with the vocabulary is evaluated without the state. -/
theorem IsStateless.root {v : Vocabulary σ α} (stateless : v.IsStateless) {config : Config α}
    {limit : Option Nat} {text : String} {t : Tree (Symbol σ α)}
    (read : (Scanner.make v config).root limit text = .ok t) :
    ∀ s ∈ t.postorder, s.IsStateless := by
  obtain ⟨p, rfl, sound, supplied⟩ := Scanner.supplied_of_root read
  refine Phrase.forall_mem_postorder ?_ fun s member => ?_
  · exact fun callable count holds => (Symbol.isStateless_settledAt callable count).mpr holds
  · refine Keeps.supplies (P := Symbol.IsStateless) stateless (supplied s member) ?_ ?_ ?_ ?_
    · exact fun _ => trivial
    · exact fun _ => trivial
    · exact fun _ _ _ holds => holds
    · exact fun _ => .parameter 0

end Vocabulary
end InfixCalc
