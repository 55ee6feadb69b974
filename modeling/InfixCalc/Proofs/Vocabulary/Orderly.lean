import InfixCalc.Proofs.Evaluation.Orderly
import InfixCalc.Proofs.Vocabulary.Words

/-!
# Orderly vocabularies

If all that a vocabulary has is orderly, so is every tree that is read with it. A wordbook has an
orderly vocabulary if its operations read operands that their words have and refuse them as
evaluations do.
-/

namespace InfixCalc

variable {σ α β : Type}

/- Trees. -/

def Operator.IsOrderly (op : Operator σ α) : Prop :=
  (op.body op.fixity.arity).Orderly op.fixity.arity fun _ => True

/-- The call is orderly with every number of arguments that it takes. -/
def Callable.IsOrderly (callable : Callable σ α) : Prop :=
  ∀ count, callable.Takes count → Symbol.Orderly count (.call (callable.settledAt count))

/-- What the symbol does is orderly wherever it may stand. -/
def Symbol.IsOrderly : Symbol σ α → Prop
  | .operand _ | .variable _ => True
  | .operator op => op.IsOrderly
  | .call callable => callable.IsOrderly

theorem Tree.All.orderly {t : Tree (Symbol σ α)} (all : t.All fun count s => s.Orderly count) :
    t.Orderly := by
  induction all with
  | node here _ ih => exact .node here ih

theorem Phrase.WellFormed.orderly {p : Phrase σ α} (wellFormed : p.WellFormed)
    (given : ∀ s, .symbol s ∈ p.tokens → s.IsOrderly) : p.tree.Orderly := by
  refine (wellFormed.all fun s member => ?_).orderly
  have holds := given s member
  cases s with
  | operand value => exact trivial
  | «variable» label => exact trivial
  | operator op => exact holds
  | call callable => exact holds

/- Vocabularies. -/

namespace Vocabulary

/-- Everything in the vocabulary is orderly. -/
abbrev Orderly (v : Vocabulary σ α) : Prop :=
  v.Keeps (fun _ op => op.IsOrderly) (fun _ f => (Callable.function f).IsOrderly)
    (fun _ b => (Callable.branch b).IsOrderly)

/-- Every tree that is read with an orderly vocabulary is orderly. -/
theorem Orderly.root {v : Vocabulary σ α} (orderly : v.Orderly) {config : Config α}
    {limit : Option Nat} {text : String} {t : Tree (Symbol σ α)}
    (read : (Scanner.make v config).root limit text = .ok t) : t.Orderly := by
  obtain ⟨p, rfl, sound, supplied⟩ := Scanner.supplied_of_root read
  refine sound.1.orderly fun s member => ?_
  refine Keeps.supplies (P := Symbol.IsOrderly) orderly (supplied s member) ?_ ?_ ?_ ?_
  · exact fun _ => trivial
  · exact fun _ => trivial
  · exact fun _ _ _ holds => holds
  · exact Action.Orderly.parameter Nat.zero_lt_one

end Vocabulary

/- Wordbooks. -/

/-- A failure of an evaluation that a word may report: any but that of a name without a value. -/
def Failure.isOfWord : Failure → Bool
  | .unknownVariable _ => false
  | cause => cause.stage == .evaluation

theorem Failure.stage_of_isOfWord {cause : Failure} (ofWord : cause.isOfWord = true) :
    cause.stage = .evaluation := by
  unfold isOfWord at ofWord
  split at ofWord
  · cases ofWord
  · exact beq_iff_eq.mp ofWord

/-- A refusal that is reported as a failure of a word. -/
def Refusal.IsOrderly : Refusal → Prop
  | .zeroDivisor | .unusable _ | .told _ => True
  | .failure cause => cause.isOfWord = true

/-- A value, or a refusal that is reported as a failure of a word. -/
inductive Outcome.IsOrderly : Outcome α → Prop where
  | ok (value : α) : IsOrderly (.ok value)
  | refused {refusal : Refusal} : refusal.IsOrderly → IsOrderly (.error refusal)

namespace Outcome.IsOrderly

attribute [simp] ok

theorem zeroDivisor : Outcome.IsOrderly (.error .zeroDivisor : Outcome α) := .refused trivial

theorem unusable (reason : Reason) :
    Outcome.IsOrderly (.error (.unusable reason) : Outcome α) := .refused trivial

theorem failure {cause : Failure} (ofWord : cause.isOfWord = true) :
    Outcome.IsOrderly (.error (.failure cause) : Outcome α) := .refused ofWord

theorem ite {condition : Prop} {decidable : Decidable condition} {yes no : Outcome α}
    (orderly : yes.IsOrderly) (orderlyToo : no.IsOrderly) :
    Outcome.IsOrderly (if condition then yes else no) := by
  split
  · exact orderly
  · exact orderlyToo

theorem bind {first : Outcome α} {next : α → Outcome β} (orderly : first.IsOrderly)
    (each : ∀ value, (next value).IsOrderly) : Outcome.IsOrderly (first >>= next) := by
  cases orderly with
  | ok value => exact each value
  | refused holds => exact .refused holds

theorem foldlM {step : β → α → Outcome β} (each : ∀ state x, (step state x).IsOrderly)
    (xs : List α) (state : β) : Outcome.IsOrderly (xs.foldlM step state) := by
  induction xs generalizing state with
  | nil => exact .ok state
  | cons x xs ih =>
    rw [List.foldlM_cons]
    exact (each state x).bind ih

theorem mapM {f : α → Outcome β} (each : ∀ x, (f x).IsOrderly) (xs : List α) :
    (xs.mapM f).IsOrderly := by
  induction xs with
  | nil => exact .ok []
  | cons x xs ih =>
    rw [List.mapM_cons]
    exact (each x).bind fun _ => ih.bind fun _ => .ok _

theorem map {outcome : Outcome α} (orderly : outcome.IsOrderly) (f : α → β) :
    Outcome.IsOrderly (outcome.map f) := by
  cases orderly with
  | ok value => exact .ok _
  | refused holds => exact .refused holds

end Outcome.IsOrderly

/-- A value, or a refusal that is reported with the word and its operands, and no failure of its
own. -/
inductive Outcome.IsPlain : Outcome α → Prop where
  | ok (value : α) : IsPlain (.ok value)
  | zeroDivisor : IsPlain (.error .zeroDivisor)
  | unusable (reason : Reason) : IsPlain (.error (.unusable reason))

namespace Outcome.IsPlain

attribute [simp] ok

theorem ite {condition : Prop} {decidable : Decidable condition} {yes no : Outcome α}
    (plain : yes.IsPlain) (plainToo : no.IsPlain) :
    Outcome.IsPlain (if condition then yes else no) := by
  split
  · exact plain
  · exact plainToo

theorem bind {first : Outcome α} {next : α → Outcome β} (plain : first.IsPlain)
    (each : ∀ value, (next value).IsPlain) : Outcome.IsPlain (first >>= next) := by
  cases plain with
  | ok value => exact each value
  | zeroDivisor => exact .zeroDivisor
  | unusable reason => exact .unusable reason

@[simp] theorem isOrderly {outcome : Outcome α} (plain : outcome.IsPlain) :
    outcome.IsOrderly := by
  cases plain with
  | ok value => exact .ok value
  | zeroDivisor => exact .zeroDivisor
  | unusable reason => exact .unusable reason

end Outcome.IsPlain

theorem Refusal.IsOrderly.isOfWord {refusal : Refusal} (orderly : refusal.IsOrderly)
    (label shown : String) : (refusal.report label shown).isOfWord = true := by
  cases refusal with
  | zeroDivisor => rfl
  | unusable reason => rfl
  | told text => rfl
  | failure cause => exact orderly

namespace Meaning

/-- The operation reads operands that are there when it has so many, and refuses them with failures
of a word. -/
def IsOrderly (count : Nat) : Meaning σ α → Prop
  | .same => 0 < count
  | .unary f => 0 < count ∧ ∀ x, (f x).IsOrderly
  | .binary f => 1 < count ∧ ∀ x y, (f x y).IsOrderly
  | .ternary f => 2 < count ∧ ∀ x y z cause, f x y z = .error cause → cause.isOfWord = true
  | .aggregate f => ∀ xs, (f xs).IsOrderly
  | .drawn _ => True

variable {count : Nat}

theorem orderly_conclude {outcome : Outcome α} (orderly : outcome.IsOrderly)
    (label shown : String) :
    (conclude label shown outcome : Action σ α α).Orderly count fun _ => True := by
  cases orderly with
  | ok value => exact .done trivial
  | refused holds => exact .fail (Failure.stage_of_isOfWord (holds.isOfWord label shown))

theorem orderly_ofExcept {outcome : Except Failure α}
    (ofWord : ∀ cause, outcome = .error cause → cause.isOfWord = true) :
    (Action.ofExcept outcome : Action σ α α).Orderly count fun _ => True := by
  cases outcome with
  | ok value => exact .done trivial
  | error cause => exact .fail (Failure.stage_of_isOfWord (ofWord cause rfl))

theorem orderly_parametersFrom {first number : Nat} (enough : first + number ≤ count) :
    (Action.parametersFrom first number : Action σ α (List α)).Orderly count fun _ => True := by
  induction number generalizing first with
  | zero => exact .done trivial
  | succ number ih =>
    have first : (Action.parameter first : Action σ α α).Orderly count fun _ => True :=
      .parameter (by omega)
    exact first.bind fun value _ => (ih (by omega)).bind fun others _ => .done trivial

theorem IsOrderly.callback [Shown α] {meaning : Meaning σ α} (orderly : meaning.IsOrderly count)
    (label : String) : (meaning.callback label count).Orderly count fun _ => True := by
  have read {index : Nat} (less : index < count) :
      (Action.parameter index : Action σ α α).Orderly count fun _ => True := .parameter less
  cases meaning with
  | same => exact read orderly
  | unary f =>
    obtain ⟨enough, each⟩ := orderly
    exact (read enough).bind fun x _ => orderly_conclude (each x) label _
  | binary f =>
    obtain ⟨enough, each⟩ := orderly
    exact (read (by omega)).bind fun x _ => (read enough).bind fun y _ =>
      orderly_conclude (each x y) label _
  | ternary f =>
    obtain ⟨enough, each⟩ := orderly
    exact (read (by omega)).bind fun x _ => (read (by omega)).bind fun y _ =>
      (read enough).bind fun z _ => orderly_ofExcept (each x y z)
  | aggregate f =>
    have read : (Action.parameters count : Action σ α (List α)).Orderly count fun _ => True :=
      orderly_parametersFrom (by omega)
    exact read.bind fun values _ => orderly_conclude (orderly values) label _
  | drawn draw => exact .get fun state => .set (.done trivial)

end Meaning

theorem Callable.orderly_function {f : Function σ α}
    (each : ∀ count, f.arity.Admits count → (f.body count).Orderly count fun _ => True) :
    (Callable.function f).IsOrderly := by
  intro count takes
  obtain ⟨label, arity, body⟩ := f
  cases arity with
  | «variable» => exact each count trivial
  | exactly expected => exact each count takes

theorem Callable.orderly_branch {b : Branch σ α} (some_ : b.arity ≠ .exactly 0)
    (each : ∀ value, (b.choice value).Orderly 0 Selection.IsSmall) :
    (Callable.branch b).IsOrderly := by
  intro count takes
  obtain ⟨label, arity, choice⟩ := b
  cases arity with
  | «variable» =>
    have three : 3 ≤ count := takes
    exact ⟨by omega, each⟩
  | exactly expected =>
    obtain rfl : expected = count := takes
    refine ⟨Nat.pos_of_ne_zero ?_, each⟩
    rintro rfl
    exact some_ rfl

namespace Wordbook

/-- Every word has an orderly meaning with the operands that it may have, and a choice gives small
indices. -/
structure Orderly (book : Wordbook σ α) : Prop where
  operators : ∀ word ∈ book.operators, word.2.2.2.IsOrderly word.2.1.arity
  functions : ∀ word ∈ book.functions, ∀ count, word.2.1.Admits count → word.2.2.IsOrderly count
  branches : ∀ word ∈ book.branches, word.2.1 ≠ .exactly 0 ∧
    ∀ value, IsOrderly Selection.IsSmall (word.2.2 value)

/-- What is orderly with the operands that a word may have is orderly with some. -/
theorem orderly_meanings {book : Wordbook σ α}
    (operators : ∀ word ∈ book.operators, word.2.2.2.IsOrderly word.2.1.arity)
    (functions : ∀ word ∈ book.functions, ∀ count, word.2.1.Admits count →
      word.2.2.IsOrderly count) : ∀ word ∈ book.meanings, ∃ count, word.2.IsOrderly count := by
  intro word member
  rcases List.mem_append.mp member with member | member
  · obtain ⟨word, there, rfl⟩ := List.mem_map.mp member
    exact ⟨_, operators word there⟩
  · obtain ⟨word, there, rfl⟩ := List.mem_map.mp member
    obtain ⟨count, admits⟩ : ∃ count, word.2.1.Admits count := by
      cases word.2.1 with
      | «variable» => exact ⟨0, trivial⟩
      | exactly count => exact ⟨count, rfl⟩
    exact ⟨count, functions word there count admits⟩

variable [Shown α] {book : Wordbook σ α} (orderly : book.Orderly)
include orderly

theorem Orderly.vocabulary : book.vocabulary.Orderly := by
  refine words_induction Vocabulary.keeps_empty ?_ ?_ ?_ ?_
  · exact fun v keeps word member =>
      keeps.putOperator ((orderly.operators word member).callback word.1)
  · intro v keeps word member
    have here := Callable.orderly_function (f := ⟨word.1, word.2.1, word.2.2.callback word.1⟩)
      fun count admits => (orderly.functions word member count admits).callback word.1
    exact ⟨keeps.before, keeps.after, keeps.between, keeps.functions.insert here, keeps.branches⟩
  · intro v keeps word member
    obtain ⟨some_, choice⟩ := orderly.branches word member
    have here := Callable.orderly_branch
      (b := (⟨word.1, word.2.1, fun value => .ofExcept (word.2.2 value)⟩ : Branch σ α))
      some_ fun value => .ofExcept (choice value)
    exact ⟨keeps.before, keeps.after, keeps.between, keeps.functions, keeps.branches.insert here⟩
  · exact fun v keeps _ _ =>
      ⟨keeps.before, keeps.after, keeps.between, keeps.functions, keeps.branches⟩

end Wordbook

end InfixCalc
