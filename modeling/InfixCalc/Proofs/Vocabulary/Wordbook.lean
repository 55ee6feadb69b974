import InfixCalc.Proofs.Printed.Rebuild
import InfixCalc.Vocabulary.Meaning

/-!
# Vocabularies of wordbooks

What can be told from the spelling of a wordbook, from its labels, fixities and precedences alone,
tells whether the written forms over its vocabulary are read again.
-/

namespace InfixCalc

variable {σ α : Type}

instance (label : String) : Decidable (IsUsable label) := inferInstanceAs (Decidable (_ ∧ _))

namespace Vocabulary

/-- Every operator, function and branch has a property of its label and itself. -/
structure Keeps (P : String → Operator σ α → Prop) (Q : String → Function σ α → Prop)
    (R : String → Branch σ α → Prop) (v : Vocabulary σ α) : Prop where
  before : v.before.All P
  after : v.after.All P
  between : v.between.All P
  functions : v.functions.All Q
  branches : v.branches.All R

variable {P : String → Operator σ α → Prop} {Q : String → Function σ α → Prop}
  {R : String → Branch σ α → Prop}

theorem Keeps.operatorsAt {v : Vocabulary σ α} (keeps : v.Keeps P Q R) (fixity : Fixity) :
    (v.operatorsAt fixity).All P := by
  cases fixity with
  | before => exact keeps.before
  | after => exact keeps.after
  | left => exact keeps.between
  | right => exact keeps.between

theorem keeps_empty : (empty : Vocabulary σ α).Keeps P Q R :=
  ⟨Entries.all_empty _, Entries.all_empty _, Entries.all_empty _, Entries.all_empty _,
    Entries.all_empty _⟩

theorem Keeps.putOperator {v : Vocabulary σ α} (keeps : v.Keeps P Q R) {op : Operator σ α}
    (holds : P op.label op) : (v.putOperator op).Keeps P Q R := by
  obtain ⟨before, after, between, functions, branches⟩ := keeps
  unfold Vocabulary.putOperator
  cases op.fixity with
  | before => exact ⟨before.insert holds, after, between, functions, branches⟩
  | after => exact ⟨before, after.insert holds, between, functions, branches⟩
  | left => exact ⟨before, after, between.insert holds, functions, branches⟩
  | right => exact ⟨before, after, between.insert holds, functions, branches⟩

theorem between_putOperator {v : Vocabulary σ α} {op : Operator σ α} {label : String}
    (there : v.between.get? label ≠ none ∨ op.label = label ∧ op.fixity.isBetween = true) :
    (v.putOperator op).between.get? label ≠ none := by
  have inserted (here : v.between.get? label ≠ none ∨ op.label = label) :
      (v.between.insert op.label op).get? label ≠ none := by
    rw [Entries.get?_insert]
    split
    · simp
    · rename_i other
      exact here.resolve_right fun same => other same.symm
  unfold Vocabulary.putOperator
  cases fixity : op.fixity with
  | before =>
    rw [fixity] at there
    exact there.resolve_right (by simp [Fixity.isBetween])
  | after =>
    rw [fixity] at there
    exact there.resolve_right (by simp [Fixity.isBetween])
  | left => exact inserted (there.imp_right And.left)
  | right => exact inserted (there.imp_right And.left)

/-- A marker is a written operator under its own label, or a sign `+` without a definition. -/
theorem source_of_marker {v : Vocabulary σ α} {label : String} {op : Operator σ α}
    (marked : v.marker label = .ok op) :
    (∃ source written, (v.before.get? written = some source ∨
        v.between.get? written = some source) ∧
      op = { source with label := label, symbol := some source.label }) ∨
      op = ⟨unaryPlus, .before, maxPrecedence, fun _ => Action.parameter 0, some "+"⟩ := by
  unfold marker at marked
  simp only at marked
  split at marked
  · split at marked
    · rename_i source found
      cases marked
      exact .inl ⟨source, _, .inl found, rfl⟩
    · cases marked
      exact .inr rfl
  · split at marked
    · split at marked
      · rename_i source found
        cases marked
        exact .inl ⟨source, _, .inl found, rfl⟩
      · cases marked
    · split at marked
      · split at marked
        · rename_i source found
          cases marked
          exact .inl ⟨source, _, .inr found, rfl⟩
        · cases marked
      · cases marked

end Vocabulary

namespace Wordbook

def spellings (book : Wordbook σ α) : List (String × Fixity × Nat) :=
  book.operators.map fun entry => (entry.1, entry.2.1, entry.2.2.1)

def calls (book : Wordbook σ α) : List String :=
  book.functions.map (·.1) ++ book.branches.map (·.1)

variable [Shown α]

/-- A vocabulary comes about word by word. -/
theorem words_induction {book : Wordbook σ α} {I : Vocabulary σ α → Prop} (empty : I .empty)
    (operator : ∀ v, I v → ∀ word ∈ book.operators, I (v.putOperator
      ⟨word.1, word.2.1, word.2.2.1, word.2.2.2.callback word.1, none⟩))
    (function : ∀ v, I v → ∀ word ∈ book.functions, I (v.putFunction
      ⟨word.1, word.2.1, word.2.2.callback word.1⟩))
    (branch : ∀ v, I v → ∀ word ∈ book.branches, I (v.putBranch
      ⟨word.1, word.2.1, fun value => Action.ofExcept (word.2.2 value)⟩))
    (constant : ∀ v, I v → ∀ label value, I (v.putConstant label value)) :
    I book.vocabulary := by
  unfold vocabulary
  refine List.foldlRecOn _ _ (List.foldlRecOn _ _ (List.foldlRecOn _ _ (List.foldlRecOn _ _ empty
    ?_) ?_) ?_) ?_
  · exact fun v holds word member => operator v holds word member
  · exact fun v holds word member => function v holds word member
  · exact fun v holds word member => branch v holds word member
  · exact fun v holds word _ => constant v holds _ _

theorem vocabulary_induction {book : Wordbook σ α} {I : Vocabulary σ α → Prop}
    (empty : I .empty)
    (operator : ∀ v, I v → ∀ op : Operator σ α, op.symbol = none →
      (op.label, op.fixity, op.precedence) ∈ book.spellings → I (v.putOperator op))
    (function : ∀ v, I v → ∀ f : Function σ α, f.label ∈ book.calls → I (v.putFunction f))
    (branch : ∀ v, I v → ∀ b : Branch σ α, b.label ∈ book.calls → I (v.putBranch b))
    (constant : ∀ v, I v → ∀ label value, I (v.putConstant label value)) :
    I book.vocabulary := by
  refine words_induction empty ?_ ?_ ?_ constant
  · exact fun v holds word member => operator v holds _ rfl (List.mem_map_of_mem member)
  · exact fun v holds word member => function v holds _
      (List.mem_append_left _ (List.mem_map_of_mem member))
  · exact fun v holds word member => branch v holds _
      (List.mem_append_right _ (List.mem_map_of_mem member))

theorem between_vocabulary {book : Wordbook σ α} {entry : String × Fixity × Nat}
    (member : entry ∈ book.spellings) (between : entry.2.1.isBetween = true) :
    book.vocabulary.between.get? entry.1 ≠ none := by
  let Placed (v : Vocabulary σ α) : Prop := v.between.get? entry.1 ≠ none
  have placed (words : List (String × Fixity × Nat × Meaning σ α)) (v : Vocabulary σ α)
      (there : Placed v ∨ entry ∈ words.map fun word => (word.1, word.2.1, word.2.2.1)) :
      Placed (words.foldl (fun v word => v.putOperator
        ⟨word.1, word.2.1, word.2.2.1, word.2.2.2.callback word.1, none⟩) v) := by
    induction words generalizing v with
    | nil => exact there.resolve_right (by simp)
    | cons word words ih =>
      refine ih _ ?_
      rcases there with there | there
      · exact .inl (Vocabulary.between_putOperator (.inl there))
      · rcases List.mem_cons.mp there with same | later
        · subst same
          exact .inl (Vocabulary.between_putOperator (.inr ⟨rfl, between⟩))
        · exact .inr later
  change Placed book.vocabulary
  unfold vocabulary
  refine List.foldlRecOn (motive := Placed) _ _ (List.foldlRecOn (motive := Placed) _ _
    (List.foldlRecOn (motive := Placed) _ _ (placed book.operators .empty (.inr member)) ?_) ?_) ?_
  · exact fun v holds _ _ => holds
  · exact fun v holds _ _ => holds
  · exact fun v holds _ _ => holds

/-- The spelling of a wordbook whose written forms are read again. Operators between operands have
at most the precedence of the level, and all others more. -/
structure WellSpelled (book : Wordbook σ α) (level : Nat) : Prop where
  usable : ∀ label ∈ book.spellings.map (·.1) ++ book.calls, IsUsable label
  digits : ∀ label ∈ book.spellings.map (·.1) ++ book.calls,
    label.toList.head?.any Char.isDigit = false
  separate : ∀ entry ∈ book.spellings, entry.1 ∉ book.calls
  tight : ∀ entry ∈ book.spellings, entry.2.1.isBetween = true ↔ entry.2.2 ≤ level
  signs : ∀ label ∈ book.calls, Scanner.beginsLikeSign label = false
  shared : ∀ entry ∈ book.spellings, Scanner.beginsLikeSign entry.1 = true →
    ∃ other ∈ book.spellings, other.1 = entry.1 ∧ other.2.1.isBetween = true
  below : level < maxPrecedence

namespace WellSpelled

variable {book : Wordbook σ α} {level : Nat} (spelled : book.WellSpelled level)
include spelled

theorem regular : book.vocabulary.Regular := by
  refine vocabulary_induction Vocabulary.regular_empty ?_ ?_ ?_ ?_
  · intro v regular op plain member
    exact regular.putOperator
      (spelled.usable _ (List.mem_append_left _ (List.mem_map_of_mem member))) plain
  · intro v regular f member
    exact regular.putFunction (spelled.usable _ (List.mem_append_right _ member))
  · intro v regular b member
    exact regular.putBranch (spelled.usable _ (List.mem_append_right _ member))
  · exact fun v regular label value => regular.putConstant label value

omit spelled in
theorem keeps : book.vocabulary.Keeps
    (fun label op => (label, op.fixity, op.precedence) ∈ book.spellings)
    (fun label _ => label ∈ book.calls) (fun label _ => label ∈ book.calls) := by
  refine vocabulary_induction Vocabulary.keeps_empty ?_ ?_ ?_ ?_
  · exact fun v keeps op _ member => keeps.putOperator member
  · exact fun v keeps f member =>
      ⟨keeps.before, keeps.after, keeps.between, keeps.functions.insert member, keeps.branches⟩
  · exact fun v keeps b member =>
      ⟨keeps.before, keeps.after, keeps.between, keeps.functions, keeps.branches.insert member⟩
  · exact fun v keeps _ _ =>
      ⟨keeps.before, keeps.after, keeps.between, keeps.functions, keeps.branches⟩

omit spelled in
theorem mem_calls {label : String} {callable : Callable σ α}
    (called : book.vocabulary.callable? label = some callable) : label ∈ book.calls := by
  rcases Vocabulary.callable?_eq_some_iff.mp called with ⟨f, found, _⟩ | ⟨_, b, found, _⟩
  · exact keeps.functions label f found
  · exact keeps.branches label b found

theorem separate_vocabulary : book.vocabulary.Separate := by
  intro label known
  cases called : book.vocabulary.callable? label with
  | none => rfl
  | some callable =>
    have call := mem_calls called
    simp only [Vocabulary.hasOperator, Entries.contains, Bool.or_eq_true,
      Option.isSome_iff_exists] at known
    rcases known with (⟨op, found⟩ | ⟨op, found⟩) | ⟨op, found⟩
    · exact absurd call (spelled.separate _ (keeps.before label op found))
    · exact absurd call (spelled.separate _ (keeps.after label op found))
    · exact absurd call (spelled.separate _ (keeps.between label op found))

theorem precedence_of_offers {op : Operator σ α} (offers : book.vocabulary.Offers op) :
    op.fixity.isBetween = true ↔ op.precedence ≤ level := by
  cases offers with
  | before _ found => exact spelled.tight _ (keeps.before _ op found)
  | between _ found => exact spelled.tight _ (keeps.between _ op found)
  | after _ _ found => exact spelled.tight _ (keeps.after _ op found)
  | marker marked =>
    rcases Vocabulary.source_of_marker marked with ⟨source, label, before | between, rfl⟩ | rfl
    · exact spelled.tight _ (keeps.before label source before)
    · exact spelled.tight _ (keeps.between label source between)
    · have below := spelled.below
      simp only [Fixity.isBetween, Bool.false_eq_true, false_iff]
      omega

theorem sharesSigns_vocabulary : book.vocabulary.SharesSigns := by
  intro label begins
  constructor
  · cases called : book.vocabulary.callable? label with
    | none => rfl
    | some callable =>
      have noSign := spelled.signs label (mem_calls called)
      rw [begins] at noSign
      cases noSign
  · intro notBetween
    cases found : book.vocabulary.before.get? label with
    | none => rfl
    | some op =>
      obtain ⟨other, member, same, between⟩ :=
        spelled.shared _ (keeps.before label op found) begins
      have there := between_vocabulary member between
      rw [same] at there
      exact absurd notBetween there

omit spelled in
theorem mem_labels {label : String} (member : label ∈ book.vocabulary.labels) :
    label ∈ book.spellings.map (·.1) ++ book.calls := by
  have spelling {op : Operator σ α} (there : (label, op.fixity, op.precedence) ∈ book.spellings) :
      label ∈ book.spellings.map (·.1) ++ book.calls :=
    List.mem_append_left _ (List.mem_map_of_mem there)
  rcases Vocabulary.mem_labels_iff.mp member with inside | inside | inside | inside | inside
  · obtain ⟨f, found⟩ := Entries.mem_labels_iff.mp inside
    exact List.mem_append_right _ (keeps.functions label f found)
  · obtain ⟨b, found⟩ := Entries.mem_labels_iff.mp inside
    exact List.mem_append_right _ (keeps.branches label b found)
  · obtain ⟨op, found⟩ := Entries.mem_labels_iff.mp inside
    exact spelling (keeps.before label op found)
  · obtain ⟨op, found⟩ := Entries.mem_labels_iff.mp inside
    exact spelling (keeps.after label op found)
  · obtain ⟨op, found⟩ := Entries.mem_labels_iff.mp inside
    exact spelling (keeps.between label op found)

theorem leavesDigits_vocabulary : book.vocabulary.LeavesDigits := by
  intro label member c first
  have noDigit := spelled.digits label (mem_labels member)
  rwa [Option.mem_def.mp first] at noDigit

/-- Written forms over the vocabulary of a well-spelled wordbook are read again. -/
theorem faithful : book.vocabulary.Faithful where
  separate := spelled.separate_vocabulary
  tight := by
    intro op tight offers offered between notBetween
    have low := (spelled.precedence_of_offers offers).mp between
    have high := mt (spelled.precedence_of_offers offered).mpr (by simp [notBetween])
    omega
  sharesSigns := spelled.sharesSigns_vocabulary
  leavesDigits := spelled.leavesDigits_vocabulary

end WellSpelled

end Wordbook
end InfixCalc
