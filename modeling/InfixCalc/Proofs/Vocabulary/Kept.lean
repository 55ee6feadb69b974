import InfixCalc.Proofs.Pattern.Word
import InfixCalc.Proofs.Vocabulary.Edit
import InfixCalc.Proofs.Vocabulary.Regular

/-!
# Well-kept vocabularies

Edits with any arguments, one after another, keep a vocabulary in order. One that fails leaves it
as it was, and the version tells whether anything has changed.
-/

namespace InfixCalc

variable {σ α : Type}

/-- Some text that is not reserved, without blanks, parentheses and commas. -/
structure IsStorable (label : String) : Prop where
  notReserved : label ∉ reservedLabels
  notEmpty : label ≠ ""
  inWord : ∀ c ∈ label.toList, Text.isBlank c = false ∧ c ≠ '(' ∧ c ≠ ')' ∧ c ≠ ','

theorem IsUsable.storable {label : String} (usable : IsUsable label) : IsStorable label := by
  obtain ⟨notReserved, valid⟩ := usable
  obtain ⟨notEmpty, inWord⟩ := isValidLabel_iff.mp valid
  refine ⟨notReserved, ?_, ?_⟩
  · rintro rfl
    exact notEmpty rfl
  · intro c member
    simpa [breaksWord, and_assoc] using inWord c member

theorem Arity.le_toInt (arity : Arity) : -1 ≤ arity.toInt := by
  rcases arity with _ | count
  · exact Int.le_refl _
  · simp only [toInt]
    omega

/-- Whether operators of the two fixities are kept in the same place. -/
def Fixity.Shares (f g : Fixity) : Prop := f = g ∨ f.isBetween = true ∧ g.isBetween = true

instance (f g : Fixity) : Decidable (f.Shares g) := inferInstanceAs (Decidable (_ ∨ _))

namespace Entries

/-- Every label stands there once and may be stored, and its value has the property. -/
structure Tidy (P : String → α → Prop) (entries : Entries α) : Prop where
  distinct : entries.labels.Nodup
  each : ∀ entry ∈ entries.toList, IsStorable entry.1 ∧ P entry.1 entry.2

theorem mem_insertList {label : String} {value : α} {entry : String × α}
    {items : List (String × α)} (member : entry ∈ insertList label value items) :
    entry = (label, value) ∨ entry ∈ items := by
  induction items with
  | nil => exact .inl (List.mem_singleton.mp member)
  | cons item rest ih =>
    obtain ⟨l, v⟩ := item
    rw [insertList] at member
    split at member
    · rcases List.mem_cons.mp member with same | later
      · exact .inl same
      · exact .inr (List.mem_cons_of_mem _ later)
    · rcases List.mem_cons.mp member with same | later
      · exact .inr (same ▸ List.mem_cons_self)
      · exact (ih later).imp_right (List.mem_cons_of_mem _)

theorem nodup_insertList {label : String} {value : α} {items : List (String × α)}
    (distinct : (items.map (·.1)).Nodup) : ((insertList label value items).map (·.1)).Nodup := by
  induction items with
  | nil => simp [insertList]
  | cons item rest ih =>
    obtain ⟨l, v⟩ := item
    obtain ⟨fresh, distinctRest⟩ := List.nodup_cons.mp distinct
    rw [insertList]
    split
    · rename_i same
      rw [beq_iff_eq.mp same]
      exact List.nodup_cons.mpr ⟨fresh, distinctRest⟩
    · rename_i other
      refine List.nodup_cons.mpr ⟨?_, ih distinctRest⟩
      intro member
      obtain ⟨entry, inside, same⟩ := List.mem_map.mp member
      rcases mem_insertList inside with rfl | old
      · exact other (beq_iff_eq.mpr same)
      · exact fresh (List.mem_map.mpr ⟨entry, old, same⟩)

theorem Tidy.insert {P : String → α → Prop} {entries : Entries α} {label : String} {value : α}
    (tidy : entries.Tidy P) (storable : IsStorable label) (holds : P label value) :
    (entries.insert label value).Tidy P := by
  refine ⟨nodup_insertList tidy.distinct, ?_⟩
  intro entry member
  rcases mem_insertList member with rfl | old
  · exact ⟨storable, holds⟩
  · exact tidy.each entry old

theorem Tidy.erase {P : String → α → Prop} {entries : Entries α} (tidy : entries.Tidy P)
    (label : String) : (entries.erase label).Tidy P := by
  have kept : (entries.erase label).toList.Sublist entries.toList := List.filter_sublist
  exact ⟨(kept.map _).nodup tidy.distinct, fun entry member => tidy.each entry (kept.mem member)⟩

theorem mem_labels_insert {entries : Entries α} {label other : String} {value : α}
    (member : other ∈ (entries.insert label value).labels) :
    other = label ∨ other ∈ entries.labels := by
  obtain ⟨found, given⟩ := mem_labels_iff.mp member
  rw [get?_insert] at given
  split at given
  · exact .inl ‹_›
  · exact .inr (mem_labels_iff.mpr ⟨found, given⟩)

theorem mem_labels_of_erase {entries : Entries α} {label other : String}
    (member : other ∈ (entries.erase label).labels) : other ∈ entries.labels := by
  obtain ⟨found, given⟩ := mem_labels_iff.mp member
  rw [get?_erase] at given
  split at given
  · cases given
  · exact mem_labels_iff.mpr ⟨found, given⟩

theorem not_mem_labels {entries : Entries α} {label : String}
    (missing : entries.contains label = false) : label ∉ entries.labels := by
  intro member
  obtain ⟨value, found⟩ := mem_labels_iff.mp member
  simp [contains, found] at missing

end Entries

namespace Vocabulary

theorem operatorsAt_setOperatorsAt (v : Vocabulary σ α) (f g : Fixity)
    (entries : Entries (Operator σ α)) :
    (v.setOperatorsAt f entries).operatorsAt g =
      if f.Shares g then entries else v.operatorsAt g := by
  cases f <;> cases g <;> rfl

theorem operatorsAt_between (v : Vocabulary σ α) {fixity : Fixity}
    (between : fixity.isBetween = true) : v.operatorsAt fixity = v.between := by
  cases fixity with
  | before => cases between
  | after => cases between
  | left => rfl
  | right => rfl

theorem operatorsAt_of_shares (v : Vocabulary σ α) {f g : Fixity} (shares : f.Shares g) :
    v.operatorsAt f = v.operatorsAt g := by
  rcases shares with rfl | ⟨first, second⟩
  · rfl
  · rw [operatorsAt_between v first, operatorsAt_between v second]

/-- A vocabulary in order: each word stands once, under its own label and among the words of its
kind, and takes a number of operands that its kind may take. -/
structure WellKept (v : Vocabulary σ α) : Prop where
  operators : ∀ fixity, (v.operatorsAt fixity).Tidy fun label op =>
    op.label = label ∧ op.fixity.Shares fixity ∧ 1 ≤ op.precedence
  functions : v.functions.Tidy fun label f => f.label = label ∧ -1 ≤ f.arity.toInt
  branches : v.branches.Tidy fun label b =>
    b.label = label ∧ (b.arity.toInt = -1 ∨ 3 ≤ b.arity.toInt)
  constants : v.constants.Tidy fun _ _ => True
  apart : ∀ label ∈ v.functions.labels, label ∉ v.branches.labels

namespace WellKept

variable {v : Vocabulary σ α}

theorem putOperator {op : Operator σ α} (kept : v.WellKept) (storable : IsStorable op.label)
    (positive : 1 ≤ op.precedence) : (v.putOperator op).WellKept := by
  obtain ⟨operators, functions, branches, constants, apart⟩ := kept
  have place (fixity : Fixity) : (v.putOperator op).operatorsAt fixity =
      if op.fixity.Shares fixity then (v.operatorsAt op.fixity).insert op.label op
      else v.operatorsAt fixity :=
    operatorsAt_setOperatorsAt v op.fixity fixity _
  refine ⟨?_, ?_, ?_, ?_, ?_⟩
  · intro fixity
    rw [place]
    split
    · rename_i shares
      rw [operatorsAt_of_shares v shares]
      exact (operators fixity).insert storable ⟨rfl, shares, positive⟩
    · exact operators fixity
  all_goals
    unfold Vocabulary.putOperator
    cases op.fixity <;> assumption

theorem putFunction {f : Function σ α} (kept : v.WellKept) (storable : IsStorable f.label)
    (noBranch : v.branches.contains f.label = false) : (v.putFunction f).WellKept where
  operators := kept.operators
  functions := kept.functions.insert storable ⟨rfl, f.arity.le_toInt⟩
  branches := kept.branches
  constants := kept.constants
  apart := by
    intro label member
    rcases Entries.mem_labels_insert member with rfl | old
    · exact Entries.not_mem_labels noBranch
    · exact kept.apart label old

theorem putBranch {b : Branch σ α} (kept : v.WellKept) (storable : IsStorable b.label)
    (noFunction : v.functions.contains b.label = false)
    (takes : b.arity.toInt = -1 ∨ 3 ≤ b.arity.toInt) : (v.putBranch b).WellKept where
  operators := kept.operators
  functions := kept.functions
  branches := kept.branches.insert storable ⟨rfl, takes⟩
  constants := kept.constants
  apart := by
    intro label called member
    rcases Entries.mem_labels_insert member with rfl | old
    · exact Entries.not_mem_labels noFunction called
    · exact kept.apart label called old

theorem putConstant {label : String} (kept : v.WellKept) (storable : IsStorable label)
    (value : α) : (v.putConstant label value).WellKept :=
  ⟨kept.operators, kept.functions, kept.branches, kept.constants.insert storable trivial,
    kept.apart⟩

theorem eraseOperator (kept : v.WellKept) (label : String) (place : Fixity) :
    (v.setOperatorsAt place ((v.operatorsAt place).erase label)).touch.WellKept := by
  obtain ⟨operators, functions, branches, constants, apart⟩ := kept
  refine ⟨?_, ?_, ?_, ?_, ?_⟩
  · intro fixity
    have found := operatorsAt_setOperatorsAt v place fixity ((v.operatorsAt place).erase label)
    change ((v.setOperatorsAt place _).operatorsAt fixity).Tidy _
    rw [found]
    split
    · rename_i shares
      rw [operatorsAt_of_shares v shares]
      exact (operators fixity).erase label
    · exact operators fixity
  all_goals cases place <;> assumption

theorem eraseOperators (kept : v.WellKept) (label : String) :
    ({ v with
      before := v.before.erase label
      after := v.after.erase label
      between := v.between.erase label } : Vocabulary σ α).touch.WellKept where
  operators := by
    intro fixity
    have erased := (kept.operators fixity).erase label
    cases fixity <;> exact erased
  functions := kept.functions
  branches := kept.branches
  constants := kept.constants
  apart := kept.apart

theorem eraseFunction (kept : v.WellKept) (label : String) :
    ({ v with functions := v.functions.erase label } : Vocabulary σ α).touch.WellKept where
  operators := kept.operators
  functions := kept.functions.erase label
  branches := kept.branches
  constants := kept.constants
  apart := fun other member => kept.apart other (Entries.mem_labels_of_erase member)

theorem eraseBranch (kept : v.WellKept) (label : String) :
    ({ v with branches := v.branches.erase label } : Vocabulary σ α).touch.WellKept where
  operators := kept.operators
  functions := kept.functions
  branches := kept.branches.erase label
  constants := kept.constants
  apart := fun other member taken => kept.apart other member (Entries.mem_labels_of_erase taken)

theorem eraseConstant (kept : v.WellKept) (label : String) :
    ({ v with constants := v.constants.erase label } : Vocabulary σ α).touch.WellKept :=
  ⟨kept.operators, kept.functions, kept.branches, kept.constants.erase label, kept.apart⟩

end WellKept

variable {v w : Vocabulary σ α} {answer : Answer σ α}

theorem Does.wellKept (does : Does v answer w) (kept : v.WellKept) : w.WellKept := by
  cases does with
  | addOperator usable _ positive => exact kept.putOperator usable.storable positive
  | addFunction usable noBranch => exact kept.putFunction usable.storable noBranch
  | addBranch usable noFunction takes => exact kept.putBranch usable.storable noFunction takes
  | addConstant value usable => exact kept.putConstant usable.storable value
  | removeOperatorAt label fixity => exact kept.eraseOperator label fixity
  | removeOperator label => exact kept.eraseOperators label
  | removeFunction label => exact kept.eraseFunction label
  | removeBranch label => exact kept.eraseBranch label
  | removeConstant label => exact kept.eraseConstant label
  | findNothing => exact kept

namespace Edit

theorem outcome_spec {edit : Edit σ α} (answered : edit.outcome v = .ok (answer, w)) :
    Does v answer w ∧ v.Change w := by
  cases edit with
  | addOperator label fixityName precedence body =>
    obtain ⟨⟨op, w⟩, added, same⟩ := map_eq_ok_iff.mp answered
    cases same
    exact ⟨does_addOperator added, .addOperator added⟩
  | removeOperator label fixityName =>
    cases fixityName with
    | none =>
      obtain ⟨⟨found, w⟩, removed, same⟩ := map_eq_ok_iff.mp answered
      cases same
      exact ⟨does_removeOperator removed, .removeOperator removed⟩
    | some name =>
      obtain ⟨_, _, later⟩ := bind_eq_ok_iff.mp answered
      split at later
      · obtain ⟨⟨found, w⟩, removed, same⟩ := map_eq_ok_iff.mp later
        cases same
        exact ⟨does_removeOperatorAt removed, .removeOperatorAt removed⟩
      · cases later
  | addFunction label arity body =>
    obtain ⟨⟨f, w⟩, added, same⟩ := map_eq_ok_iff.mp answered
    cases same
    exact ⟨does_addFunction added, .addFunction added⟩
  | removeFunction label =>
    obtain ⟨⟨found, w⟩, removed, same⟩ := map_eq_ok_iff.mp answered
    cases same
    exact ⟨does_removeFunction removed, .removeFunction removed⟩
  | addBranch label arity choice =>
    obtain ⟨⟨b, w⟩, added, same⟩ := map_eq_ok_iff.mp answered
    cases same
    exact ⟨does_addBranch added, .addBranch added⟩
  | removeBranch label =>
    obtain ⟨⟨found, w⟩, removed, same⟩ := map_eq_ok_iff.mp answered
    cases same
    exact ⟨does_removeBranch removed, .removeBranch removed⟩
  | addConstant label value =>
    obtain ⟨w, added, same⟩ := map_eq_ok_iff.mp answered
    cases same
    exact ⟨does_addConstant added, .addConstant added⟩
  | removeConstant label =>
    obtain ⟨⟨found, w⟩, removed, same⟩ := map_eq_ok_iff.mp answered
    cases same
    exact ⟨does_removeConstant removed, .removeConstant removed⟩

/-- An edit fails and leaves the vocabulary, or it does what its call does and tells the log. -/
theorem perform_cases (v : Vocabulary σ α) (edit : Edit σ α) :
    (∃ cause, edit.perform.run v = (.error cause, v)) ∨
      ∃ answer w, edit.perform.run v = (answer.logged, w) ∧ Does v answer w ∧ v.Change w := by
  rw [run_perform]
  cases settles : edit.outcome v with
  | error cause => exact .inl ⟨cause, rfl⟩
  | ok result =>
    obtain ⟨answer, w⟩ := result
    exact .inr ⟨answer, w, rfl, outcome_spec settles⟩

theorem change_perform (v : Vocabulary σ α) (edit : Edit σ α) :
    (edit.perform.run v).2 = v ∨ v.Change (edit.perform.run v).2 := by
  rcases perform_cases v edit with ⟨cause, ran⟩ | ⟨answer, w, ran, _, change⟩
  · exact .inl (by rw [ran])
  · rw [ran]
    exact .inr change

theorem wellKept_perform (kept : v.WellKept) (edit : Edit σ α) :
    (edit.perform.run v).2.WellKept := by
  rcases perform_cases v edit with ⟨cause, ran⟩ | ⟨answer, w, ran, does, _⟩
  · rw [ran]
    exact kept
  · rw [ran]
    exact does.wellKept kept

end Edit

/-- The vocabulary after edits one after another, each of which may fail. -/
def edited (v : Vocabulary σ α) : List (Edit σ α) → Vocabulary σ α
  | [] => v
  | edit :: later => edited (edit.perform.run v).2 later

theorem WellKept.edited {v : Vocabulary σ α} (kept : v.WellKept) (edits : List (Edit σ α)) :
    (v.edited edits).WellKept := by
  induction edits generalizing v with
  | nil => exact kept
  | cons edit later ih => exact ih (Edit.wellKept_perform kept edit)

/-- Words of every kind, a label that is no word, a removal that finds nothing, and a precedence of
too many digits to be written out. -/
def fillingEdits : List (Edit Unit Nat) :=
  [.addOperator "neg" "PREFIX" (.whole 3) fun _ => .parameter 0,
    .addFunction "sum" (.whole (-1)) fun _ => .parameter 0,
    .addBranch "if" (.whole 3) fun value => .done (.index value),
    .addConstant "one" 1, .addConstant "two three" 23, .removeFunction "neg",
    .addOperator "!" "POSTFIX" (.whole (Nat.pow 10 Number.maxIntegerDigits)) fun _ => .parameter 0]

example : (empty.edited fillingEdits).before.labels = ["neg"] ∧
    (empty.edited fillingEdits).after.labels = ["!"] ∧
    (empty.edited fillingEdits).functions.labels = ["sum"] ∧
    (empty.edited fillingEdits).branches.labels = ["if"] ∧
    (empty.edited fillingEdits).constants.labels = ["one"] ∧
    (empty.edited fillingEdits).version = 5 := by
  decide +kernel

end Vocabulary
end InfixCalc
