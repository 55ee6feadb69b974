import InfixCalc.Proofs.Vocabulary.Change

/-!
# Regular vocabularies

Whatever is added to a vocabulary and removed from it, every word stands under its own label, which
is usable and not reserved, and every operator is found where its fixity puts it.
-/

namespace InfixCalc

variable {σ α : Type}

namespace Entries

theorem mem_labels_iff {entries : Entries α} {label : String} :
    label ∈ entries.labels ↔ ∃ value, entries.get? label = some value := by
  obtain ⟨items⟩ := entries
  simp only [labels, get?]
  induction items with
  | nil => simp [List.lookup_nil]
  | cons item rest ih =>
    obtain ⟨l, v⟩ := item
    by_cases same : label = l
    · simp [same]
    · simp [List.lookup_cons, beq_eq_false_iff_ne.mpr same, same, ih]

def All (P : String → α → Prop) (entries : Entries α) : Prop :=
  ∀ label value, entries.get? label = some value → P label value

theorem all_empty (P : String → α → Prop) : (empty : Entries α).All P := by
  intro label value found
  cases found

theorem All.insert {P : String → α → Prop} {entries : Entries α} {label : String} {value : α}
    (all : entries.All P) (holds : P label value) : (entries.insert label value).All P := by
  intro other found given
  rw [get?_insert] at given
  split at given
  · rename_i same
    cases given
    exact same ▸ holds
  · exact all other found given

theorem All.erase {P : String → α → Prop} {entries : Entries α} (all : entries.All P)
    (label : String) : (entries.erase label).All P := by
  intro other found given
  rw [get?_erase] at given
  split at given
  · cases given
  · exact all other found given

end Entries

namespace Vocabulary

def OperatorUnder (fits : Fixity → Prop) (label : String) (op : Operator σ α) : Prop :=
  op.label = label ∧ IsUsable label ∧ op.symbol = none ∧ fits op.fixity

/-- Every word stands under its own label. -/
structure Regular (v : Vocabulary σ α) : Prop where
  before : v.before.All (OperatorUnder fun fixity => fixity = .before)
  after : v.after.All (OperatorUnder fun fixity => fixity = .after)
  between : v.between.All (OperatorUnder fun fixity => fixity.isBetween = true)
  functions : v.functions.All fun label f => f.label = label ∧ IsUsable label
  branches : v.branches.All fun label b => b.label = label ∧ IsUsable label

theorem regular_empty : (empty : Vocabulary σ α).Regular :=
  ⟨Entries.all_empty _, Entries.all_empty _, Entries.all_empty _, Entries.all_empty _,
    Entries.all_empty _⟩

theorem Regular.putOperator {v : Vocabulary σ α} {op : Operator σ α} (regular : v.Regular)
    (usable : IsUsable op.label) (plain : op.symbol = none) : (v.putOperator op).Regular := by
  obtain ⟨before, after, between, functions, branches⟩ := regular
  have under (fits : Fixity → Prop) (holds : fits op.fixity) : OperatorUnder fits op.label op :=
    ⟨rfl, usable, plain, holds⟩
  unfold Vocabulary.putOperator
  cases fixity : op.fixity with
  | before => exact ⟨before.insert (under _ fixity), after, between, functions, branches⟩
  | after => exact ⟨before, after.insert (under _ fixity), between, functions, branches⟩
  | left =>
    exact ⟨before, after, between.insert (under _ (by rw [fixity]; rfl)), functions, branches⟩
  | right =>
    exact ⟨before, after, between.insert (under _ (by rw [fixity]; rfl)), functions, branches⟩

theorem Regular.putFunction {v : Vocabulary σ α} {f : Function σ α} (regular : v.Regular)
    (usable : IsUsable f.label) : (v.putFunction f).Regular :=
  ⟨regular.before, regular.after, regular.between, regular.functions.insert ⟨rfl, usable⟩,
    regular.branches⟩

theorem Regular.putBranch {v : Vocabulary σ α} {b : Branch σ α} (regular : v.Regular)
    (usable : IsUsable b.label) : (v.putBranch b).Regular :=
  ⟨regular.before, regular.after, regular.between, regular.functions,
    regular.branches.insert ⟨rfl, usable⟩⟩

theorem Regular.putConstant {v : Vocabulary σ α} (regular : v.Regular) (label : String)
    (value : α) : (v.putConstant label value).Regular :=
  ⟨regular.before, regular.after, regular.between, regular.functions, regular.branches⟩

theorem Regular.eraseOperator {v : Vocabulary σ α} (regular : v.Regular) (label : String)
    (fixity : Fixity) :
    (v.setOperatorsAt fixity ((v.operatorsAt fixity).erase label)).touch.Regular := by
  obtain ⟨before, after, between, functions, branches⟩ := regular
  cases fixity with
  | before => exact ⟨before.erase label, after, between, functions, branches⟩
  | after => exact ⟨before, after.erase label, between, functions, branches⟩
  | left => exact ⟨before, after, between.erase label, functions, branches⟩
  | right => exact ⟨before, after, between.erase label, functions, branches⟩

/-- The vocabularies that come about: from an empty one by changes and by copying. -/
inductive Reachable : Vocabulary σ α → Prop where
  | empty : Reachable .empty
  | copy {v : Vocabulary σ α} : Reachable v → Reachable v.copy
  | change {v w : Vocabulary σ α} : Reachable v → Change v w → Reachable w

theorem Does.regular {v w : Vocabulary σ α} {answer : Answer σ α} (does : Does v answer w)
    (regular : v.Regular) : w.Regular := by
  cases does with
  | addOperator usable plain _ => exact regular.putOperator usable plain
  | addFunction usable _ => exact regular.putFunction usable
  | addBranch usable _ _ => exact regular.putBranch usable
  | addConstant value _ => exact regular.putConstant _ value
  | removeOperatorAt label fixity => exact regular.eraseOperator label fixity
  | removeOperator label =>
    exact ⟨regular.before.erase label, regular.after.erase label, regular.between.erase label,
      regular.functions, regular.branches⟩
  | removeFunction label =>
    exact ⟨regular.before, regular.after, regular.between, regular.functions.erase label,
      regular.branches⟩
  | removeBranch label =>
    exact ⟨regular.before, regular.after, regular.between, regular.functions,
      regular.branches.erase label⟩
  | removeConstant label =>
    exact ⟨regular.before, regular.after, regular.between, regular.functions, regular.branches⟩
  | findNothing => exact regular

/-- A change keeps a vocabulary regular, and one that is not counted changes nothing. -/
structure Follows (v w : Vocabulary σ α) : Prop where
  regular : v.Regular → w.Regular
  version : w = v ∨ w.version = v.version + 1

theorem Change.follows {v w : Vocabulary σ α} (change : v.Change w) : v.Follows w := by
  obtain ⟨answer, does⟩ := change.does
  exact ⟨does.regular, does.counts.sameOrNext⟩

/-- Every vocabulary that comes about is regular. -/
theorem Reachable.regular {v : Vocabulary σ α} (reachable : v.Reachable) : v.Regular := by
  induction reachable with
  | empty => exact regular_empty
  | copy _ regular =>
    exact ⟨regular.before, regular.after, regular.between, regular.functions, regular.branches⟩
  | change _ change regular => exact change.follows.regular regular

/- The labels that a scanner looks for. -/

theorem mem_labels_iff {v : Vocabulary σ α} {label : String} :
    label ∈ v.labels ↔ label ∈ v.functions.labels ∨ label ∈ v.branches.labels ∨
      label ∈ v.before.labels ∨ label ∈ v.after.labels ∨ label ∈ v.between.labels := by
  simp [labels, List.mem_mergeSort]

theorem callable?_eq_some_iff {v : Vocabulary σ α} {label : String} {callable : Callable σ α} :
    v.callable? label = some callable ↔
      (∃ f, v.functions.get? label = some f ∧ callable = .function f) ∨
        v.functions.get? label = none ∧
          ∃ b, v.branches.get? label = some b ∧ callable = .branch b := by
  unfold callable?
  cases functions : v.functions.get? label with
  | some f => simp [eq_comm]
  | none =>
    simp only [Option.map_eq_some_iff, reduceCtorEq, false_and, exists_false, false_or, true_and]
    simp only [eq_comm]

theorem mem_labels_of_callable? {v : Vocabulary σ α} {label : String} {callable : Callable σ α}
    (called : v.callable? label = some callable) : label ∈ v.labels := by
  refine mem_labels_iff.mpr ?_
  rcases callable?_eq_some_iff.mp called with ⟨f, found, _⟩ | ⟨_, b, found, _⟩
  · exact .inl (Entries.mem_labels_iff.mpr ⟨f, found⟩)
  · exact .inr (.inl (Entries.mem_labels_iff.mpr ⟨b, found⟩))

theorem Regular.label_of_callable? {v : Vocabulary σ α} (regular : v.Regular) {label : String}
    {callable : Callable σ α} (called : v.callable? label = some callable) :
    callable.label = label := by
  rcases callable?_eq_some_iff.mp called with ⟨f, found, rfl⟩ | ⟨_, b, found, rfl⟩
  · exact (regular.functions label f found).1
  · exact (regular.branches label b found).1

theorem Regular.isUsable {v : Vocabulary σ α} (regular : v.Regular) {label : String}
    (member : label ∈ v.labels) : IsUsable label := by
  rcases mem_labels_iff.mp member with inside | inside | inside | inside | inside
  · obtain ⟨f, found⟩ := Entries.mem_labels_iff.mp inside
    exact (regular.functions label f found).2
  · obtain ⟨b, found⟩ := Entries.mem_labels_iff.mp inside
    exact (regular.branches label b found).2
  · obtain ⟨op, found⟩ := Entries.mem_labels_iff.mp inside
    exact (regular.before label op found).2.1
  · obtain ⟨op, found⟩ := Entries.mem_labels_iff.mp inside
    exact (regular.after label op found).2.1
  · obtain ⟨op, found⟩ := Entries.mem_labels_iff.mp inside
    exact (regular.between label op found).2.1

theorem labelBefore_trans (a b c : String) (first : labelBefore a b = true)
    (second : labelBefore b c = true) : labelBefore a c = true := by
  simp only [labelBefore, Bool.or_eq_true, decide_eq_true_eq, Bool.and_eq_true, beq_iff_eq]
    at first second ⊢
  rcases first with longer | ⟨same, le⟩
  · exact .inl (by omega)
  · rcases second with longer | ⟨sameToo, leToo⟩
    · exact .inl (by omega)
    · exact .inr ⟨same.trans sameToo, String.le_trans le leToo⟩

theorem labelBefore_total (a b : String) : (labelBefore a b || labelBefore b a) = true := by
  simp only [labelBefore, Bool.or_eq_true, decide_eq_true_eq, Bool.and_eq_true, beq_iff_eq]
  rcases Nat.lt_trichotomy a.length b.length with less | same | more
  · exact .inr (.inl less)
  · rcases String.le_total a b with le | le
    · exact .inl (.inr ⟨same, le⟩)
    · exact .inr (.inr ⟨same.symm, le⟩)
  · exact .inl (.inl more)

theorem labels_sorted (v : Vocabulary σ α) :
    v.labels.Pairwise fun a b => b.length ≤ a.length := by
  unfold labels
  have sorted := List.pairwise_mergeSort labelBefore_trans labelBefore_total
    ((v.functions.labels ++ v.branches.labels ++ v.before.labels ++ v.after.labels ++
      v.between.labels).eraseDups)
  refine sorted.imp ?_
  intro a b before
  simp only [labelBefore, Bool.or_eq_true, decide_eq_true_eq, Bool.and_eq_true, beq_iff_eq]
    at before
  omega

end Vocabulary
end InfixCalc
