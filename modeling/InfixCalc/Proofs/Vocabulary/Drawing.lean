import InfixCalc.Proofs.Vocabulary.Stateless

/-!
# Vocabularies with one word that draws

The words of a wordbook that draw nothing use no shared state. Where all words that draw have one
label, every tree without a call of that label is evaluated without the state, also after edits that
bring in no callback that uses it.
-/

namespace InfixCalc

variable {σ α β γ : Type}

/- Callbacks of words. -/

namespace Action.IsStateless

theorem parametersFrom (first count : Nat) :
    (Action.parametersFrom first count : Action σ α (List α)).IsStateless := by
  induction count generalizing first with
  | zero => exact .done _
  | succ count ih =>
    exact (parameter first).bind fun value => (ih (first + 1)).bind fun others => .done _

end Action.IsStateless

namespace Meaning

/-- A word with this meaning uses the shared state. -/
def Draws : Meaning σ α → Prop
  | .drawn _ => True
  | _ => False

theorem isStateless_conclude (label shown : String) (outcome : Outcome α) :
    (conclude label shown outcome : Action σ α α).IsStateless := by
  cases outcome with
  | ok value => exact .done value
  | error refusal => exact .fail _

theorem isStateless_callback [Shown α] (label : String) {meaning : Meaning σ α}
    (quiet : ¬ meaning.Draws) (count : Nat) : (meaning.callback label count).IsStateless := by
  cases meaning with
  | same => exact .parameter 0
  | unary f => exact (Action.IsStateless.parameter 0).bind fun x => isStateless_conclude _ _ _
  | binary f =>
    refine (Action.IsStateless.parameter 0).bind fun x => ?_
    exact (Action.IsStateless.parameter 1).bind fun y => isStateless_conclude _ _ _
  | ternary f =>
    refine (Action.IsStateless.parameter 0).bind fun x => ?_
    refine (Action.IsStateless.parameter 1).bind fun y => ?_
    exact (Action.IsStateless.parameter 2).bind fun z => .ofExcept _
  | aggregate f =>
    exact (Action.IsStateless.parametersFrom 0 count).bind fun xs => isStateless_conclude _ _ _
  | drawn draw => exact (quiet trivial).elim

end Meaning

/- Vocabularies. -/

/-- The symbol calls a function or a branch of the label. -/
def Symbol.Calls (label : String) : Symbol σ α → Prop
  | .call callable => callable.label = label
  | _ => False

theorem Symbol.calls_settledAt {label : String} (callable : Callable σ α) (count : Nat) :
    (Symbol.call (callable.settledAt count)).Calls label ↔ (Symbol.call callable).Calls label := by
  rcases callable.settledAt_cases count with same | same
  · rw [same]
  · rw [same]
    cases callable <;> rfl

namespace Vocabulary

/-- No callback of the vocabulary uses the shared state, but those of functions with the label. -/
abbrev IsStatelessBut (label : String) (v : Vocabulary σ α) : Prop :=
  v.Keeps (fun _ op => (Symbol.operator op).IsStateless)
    (fun _ f => (Symbol.call (.function f)).IsStateless ∨ f.label = label)
    (fun _ b => (Symbol.call (.branch b)).IsStateless)

variable {label : String}

theorem IsStatelessBut.perform {v : Vocabulary σ α} (stateless : v.IsStatelessBut label)
    {edit : Edit σ α} (brings : edit.IsStateless) :
    (edit.perform.run v).2.IsStatelessBut label := by
  refine Keeps.perform stateless fun answer w answered => ?_
  have new := brings.answer answered
  cases answer with
  | operator op => exact new
  | function f => exact .inl new
  | branch b => exact new
  | nothing => trivial
  | removed found => trivial

/-- A tree that is read with the vocabulary and calls nothing of the label is evaluated without the
state. -/
theorem IsStatelessBut.root {v : Vocabulary σ α} (stateless : v.IsStatelessBut label)
    {config : Config α} {limit : Option Nat} {text : String} {t : Tree (Symbol σ α)}
    (read : (Scanner.make v config).root limit text = .ok t)
    (uncalled : ∀ s ∈ t.postorder, ¬ s.Calls label) : ∀ s ∈ t.postorder, s.IsStateless := by
  obtain ⟨p, rfl, sound, supplied⟩ := Scanner.supplied_of_root read
  have either : ∀ s ∈ p.tree.postorder, s.IsStateless ∨ s.Calls label := by
    refine Phrase.forall_mem_postorder ?_ fun s member => ?_
    · exact fun callable count holds => holds.imp (Symbol.isStateless_settledAt callable count).mpr
        (Symbol.calls_settledAt callable count).mpr
    · refine Keeps.supplies (P := fun s => s.IsStateless ∨ s.Calls label)
        ⟨?_, ?_, ?_, ?_, ?_⟩ (supplied s member) ?_ ?_ ?_ ?_
      · exact fun key op found => .inl (stateless.before key op found)
      · exact fun key op found => .inl (stateless.after key op found)
      · exact fun key op found => .inl (stateless.between key op found)
      · exact fun key f found => stateless.functions key f found
      · exact fun key b found => .inl (stateless.branches key b found)
      · exact fun _ => .inl trivial
      · exact fun _ => .inl trivial
      · exact fun _ _ _ holds => .inl (holds.resolve_right id)
      · exact .inl fun _ => .parameter 0
  exact fun s member => (either s member).resolve_right (uncalled s member)

end Vocabulary

namespace Wordbook

/-- The words that draw are functions with the label. -/
structure DrawsOnlyFor (label : String) (book : Wordbook σ α) : Prop where
  operators : ∀ word ∈ book.operators, ¬ word.2.2.2.Draws
  functions : ∀ word ∈ book.functions, word.2.2.Draws → word.1 = label

theorem DrawsOnlyFor.isStatelessBut [Shown α] {label : String} {book : Wordbook σ α}
    (draws : book.DrawsOnlyFor label) : book.vocabulary.IsStatelessBut label := by
  refine words_induction Vocabulary.keeps_empty ?_ ?_ ?_ ?_
  · exact fun v keeps word member => keeps.putOperator
      (Meaning.isStateless_callback word.1 (draws.operators word member))
  · intro v keeps word member
    refine ⟨keeps.before, keeps.after, keeps.between, keeps.functions.insert ?_, keeps.branches⟩
    by_cases drawn : word.2.2.Draws
    · exact .inr (draws.functions word member drawn)
    · exact .inl (Meaning.isStateless_callback word.1 drawn)
  · exact fun v keeps word member => ⟨keeps.before, keeps.after, keeps.between, keeps.functions,
      keeps.branches.insert fun value => Action.IsStateless.ofExcept _⟩
  · exact fun v keeps _ _ =>
      ⟨keeps.before, keeps.after, keeps.between, keeps.functions, keeps.branches⟩

end Wordbook
end InfixCalc
