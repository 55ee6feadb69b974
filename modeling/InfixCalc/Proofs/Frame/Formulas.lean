import InfixCalc.Proofs.Arrays.Drawing
import InfixCalc.Proofs.Frame

/-!
# Formulas one after another

A formula gives a column over a frame, and what it gives depends on the contents of the columns
that its expression names. A list of formulas gives one column after another, and the builder that
has built the earlier ones builds the later ones as it would have at first.
-/

namespace InfixCalc

open InfixCalc.Number InfixCalc.ArrayLibrary

namespace FrameLibrary

variable {A F S I K σ : Type}

/-- A column that is made over the rows. -/
def IsAligned (frames : FrameLibrary A F S I K) (index : I) (series : S) : Prop :=
  ∃ a, frames.series a index = .ok series

/-- What is relied on of a library for frames. Different texts are different labels, and a copy has
the contents of the frame. A column over the rows of the frame can be inserted, and it touches what
is under its label only. What is there then comes of what was there and of the column, and it has
the cells of the column. -/
structure Lawful (frames : FrameLibrary A F S I K) : Prop where
  label_injective : Function.Injective frames.label
  index_copy : ∀ frame, frames.index (frames.copy frame) = frames.index frame
  columns_copy : ∀ frame key, frames.columns (frames.copy frame) key = frames.columns frame key
  index_insert : ∀ {frame series}, frames.IsAligned (frames.index frame) series → ∀ key,
    frames.index (frames.insert frame key series) = frames.index frame
  columns_insert : ∀ {frame series}, frames.IsAligned (frames.index frame) series →
    ∀ {key other}, other ≠ key →
      frames.columns (frames.insert frame key series) other = frames.columns frame other
  columns_insert_self : ∀ {frame other series}, frames.IsAligned (frames.index frame) series →
    frames.index frame = frames.index other → ∀ {key},
    frames.columns frame key = frames.columns other key →
      frames.columns (frames.insert frame key series) key =
        frames.columns (frames.insert other key series) key
  values_insert : ∀ {frame series}, frames.IsAligned (frames.index frame) series → ∀ key,
    frames.columns (frames.insert frame key series) key ≠ [] ∧
      ∀ column ∈ frames.columns (frames.insert frame key series) key,
        frames.values column = frames.values series

/-- The frames have the same rows, and the same contents in every column. -/
structure Alike (frames : FrameLibrary A F S I K) (frame other : F) : Prop where
  index : frames.index frame = frames.index other
  columns : ∀ key, frames.columns frame key = frames.columns other key

variable {frames : FrameLibrary A F S I K} {lib : ArrayLibrary A} {frame other : F}
  {b c : Builder σ A} {others : List (String × A)} {name text : String} {series more : S}

section

variable (lawful : frames.Lawful)
include lawful

theorem Alike.insert (alike : frames.Alike frame other)
    (aligned : frames.IsAligned (frames.index frame) series) (key : K) :
    frames.Alike (frames.insert frame key series) (frames.insert other key series) := by
  have alignedToo : frames.IsAligned (frames.index other) series := alike.index ▸ aligned
  constructor
  · rw [lawful.index_insert aligned, lawful.index_insert alignedToo, alike.index]
  · intro label
    by_cases same : label = key
    · subst same
      exact lawful.columns_insert_self aligned alike.index (alike.columns label)
    · rw [lawful.columns_insert aligned same, lawful.columns_insert alignedToo same,
        alike.columns label]

/-- Columns with different labels may be set in either order. -/
theorem alike_insert_insert (aligned : frames.IsAligned (frames.index frame) series)
    (alignedToo : frames.IsAligned (frames.index frame) more) {first second : K}
    (apart : first ≠ second) :
    frames.Alike (frames.insert (frames.insert frame first series) second more)
      (frames.insert (frames.insert frame second more) first series) := by
  have index := lawful.index_insert aligned first
  have indexToo := lawful.index_insert alignedToo second
  have later : frames.IsAligned (frames.index (frames.insert frame first series)) more :=
    index ▸ alignedToo
  have laterToo : frames.IsAligned (frames.index (frames.insert frame second more)) series :=
    indexToo ▸ aligned
  constructor
  · rw [lawful.index_insert later, lawful.index_insert laterToo, index, indexToo]
  · intro label
    by_cases atFirst : label = first
    · subst atFirst
      rw [lawful.columns_insert later apart]
      exact lawful.columns_insert_self aligned indexToo.symm
        (lawful.columns_insert alignedToo apart).symm
    · rw [lawful.columns_insert laterToo atFirst]
      by_cases atSecond : label = second
      · subst atSecond
        exact lawful.columns_insert_self later index (lawful.columns_insert aligned atFirst)
      · rw [lawful.columns_insert later atSecond, lawful.columns_insert aligned atFirst,
          lawful.columns_insert alignedToo atSecond]

end

/- The column of one formula. -/

/-- The column that a formula gives over a frame. -/
def formula (frames : FrameLibrary A F S I K) (lib : ArrayLibrary A) (frame : F) (b : Builder σ A)
    (text : String) (others : List (String × A)) : Effect σ S := do
  let e ← require (b.build text).1
  frames.evaluate lib frame e others

theorem formula_of_build {e : Expression σ A} (built : (b.build text).1 = .ok e) :
    frames.formula lib frame b text others = frames.evaluate lib frame e others := by
  rw [formula, built]
  rfl

theorem formula_of_error {cause : Failure} (failed : (b.build text).1 = .error cause) :
    frames.formula lib frame b text others = throw cause := by
  rw [formula, failed]
  rfl

/-- A formula gives a column over the rows of the frame. -/
theorem isAligned_of_formula {state last : σ}
    (came : (frames.formula lib frame b text others).run state = (.ok series, last)) :
    frames.IsAligned (frames.index frame) series := by
  obtain ⟨e, _, _, evaluated⟩ := Effect.run_bind_eq_ok_iff.mp came
  obtain ⟨value, _, _, shaped⟩ := Effect.run_bind_eq_ok_iff.mp evaluated
  exact ⟨_, series_of_run shaped⟩

/-- Frames with the same contents give the same column. -/
theorem Alike.formula (alike : frames.Alike frame other) (b : Builder σ A) (text : String)
    (others : List (String × A)) :
    frames.formula lib frame b text others = frames.formula lib other b text others := by
  have same (e : Expression σ A) :
      frames.evaluate lib frame e others = frames.evaluate lib other e others := by
    simp only [evaluate, bindings, column?, alike.index, alike.columns]
  simp only [FrameLibrary.formula, same]

/-- A column that the expression does not name has no part in what the formula gives. -/
theorem formula_insert (lawful : frames.Lawful)
    (aligned : frames.IsAligned (frames.index frame) series)
    (unnamed : ∀ e, (b.build text).1 = .ok e → name ∉ e.variableLabels) :
    frames.formula lib (frames.insert frame (frames.label name) series) b text others =
      frames.formula lib frame b text others := by
  cases built : (b.build text).1 with
  | error cause => rw [formula_of_error built, formula_of_error built]
  | ok e =>
    have bound : frames.bindings (frames.insert frame (frames.label name) series) e others =
        frames.bindings frame e others := by
      refine congrArg (· ++ others) (List.filterMap_congr fun label listed => ?_)
      have apart : frames.label label ≠ frames.label name := fun same =>
        unnamed e built (lawful.label_injective same ▸ listed)
      rw [column?, column?, lawful.columns_insert aligned apart]
    rw [formula_of_build built, formula_of_build built, evaluate, evaluate, bound,
      lawful.index_insert aligned]

/-- Builders with one configuration and one vocabulary give the same column. -/
theorem formula_congr (serves : lib.Serves b) (serves' : lib.Serves c)
    (config : b.config = c.config) (vocabulary : b.vocabulary = c.vocabulary) :
    frames.formula lib frame b text others = frames.formula lib frame c text others := by
  have same := serves.build_eq text
  rw [config, vocabulary, ← serves'.build_eq text] at same
  cases first : (b.build text).1 with
  | error cause =>
    rw [first] at same
    obtain failed : (c.build text).1 = .error cause := by
      cases second : (c.build text).1 with
      | error other =>
        rw [second] at same
        exact same.symm
      | ok e =>
        rw [second] at same
        cases same
    rw [formula_of_error first, formula_of_error failed]
  | ok e =>
    rw [first] at same
    obtain ⟨d, second, unstamped⟩ := map_eq_ok_iff.mp same.symm
    rw [formula_of_build first, formula_of_build second]
    obtain ⟨root, constants, _⟩ := Expression.mk.inj unstamped
    simp only [evaluate, bindings, Expression.variableLabels, Expression.evaluate, root, constants]

section

variable (frames) (serves : lib.Serves b)
  (undrawn : ∀ e, (b.build text).1 = .ok e → ∀ s ∈ e.root.postorder, ¬ s.Calls "rand")
  (frame : F) (others : List (String × A))
include serves undrawn

/-- A formula that draws no random numbers fails or gives a column, and uses no shared state. -/
theorem formula_cases :
    (∃ cause, frames.formula lib frame b text others = throw cause) ∨
      ∃ series, frames.IsAligned (frames.index frame) series ∧
        frames.formula lib frame b text others = pure series := by
  cases built : (b.build text).1 with
  | error cause => exact .inl ⟨cause, formula_of_error built⟩
  | ok e =>
    obtain ⟨outcome, gives⟩ := serves.isStateless_evaluate built (undrawn e built)
      (frames.bindings frame e others)
    rw [formula_of_build built, evaluate, gives]
    cases outcome with
    | error cause => exact .inl ⟨cause, rfl⟩
    | ok value =>
      change (∃ cause, require _ = throw cause) ∨ ∃ series, _ ∧ require _ = pure series
      cases made : frames.series (spread lib (frames.length (frames.index frame)) value)
          (frames.index frame) with
      | error fault => exact .inl ⟨fault.failure, rfl⟩
      | ok series => exact .inr ⟨series, ⟨_, made⟩, rfl⟩

theorem isStateless_formula : (frames.formula lib frame b text others).IsStateless := by
  rcases formula_cases frames serves undrawn frame others with ⟨cause, fails⟩ | ⟨series, _, gives⟩
  · rw [fails]
    exact .throw cause
  · rw [gives]
    exact .pure series

end

/- Lists of formulas. -/

variable {formulas : List (String × String)}

theorem assignAll_eq (b : Builder σ A) (frame : F) (name text : String) :
    frames.assignAll lib others b frame ((name, text) :: formulas) = (do
      let e ← require (b.build text).1
      let series ← frames.evaluate lib frame e others
      let _ ← require e.written
      frames.assignAll lib others (b.build text).2
        (frames.insert frame (frames.label name) series) formulas) := rfl

/-- What is built is written down, so the log does not stop the formulas. -/
theorem assignAll_step (serves : lib.Serves b) (frame : F) (name text : String) :
    frames.assignAll lib others b frame ((name, text) :: formulas) = (do
      let series ← frames.formula lib frame b text others
      frames.assignAll lib others (b.build text).2
        (frames.insert frame (frames.label name) series) formulas) := by
  rw [assignAll_eq]
  cases built : (b.build text).1 with
  | error cause =>
    rw [formula_of_error built]
    rfl
  | ok e =>
    obtain ⟨written, same⟩ := serves.written built
    rw [formula_of_build built, show require (Except.ok e) = (pure e : Effect σ _) from rfl,
      pure_bind]
    simp only [same]
    rfl

/-- Formulas do not depend on what a builder remembers. -/
theorem assignAll_congr (serves : lib.Serves b) (serves' : lib.Serves c)
    (config : b.config = c.config) (vocabulary : b.vocabulary = c.vocabulary) (frame : F) :
    frames.assignAll lib others b frame formulas =
      frames.assignAll lib others c frame formulas := by
  induction formulas generalizing b c frame with
  | nil => rfl
  | cons formula formulas ih =>
    obtain ⟨name, text⟩ := formula
    have spec := serves.consistent.build text
    have spec' := serves'.consistent.build text
    have later := ih (serves.build text) (serves'.build text)
      (spec.config.trans (config.trans spec'.config.symm))
      (spec.vocabulary.trans (vocabulary.trans spec'.vocabulary.symm))
    rw [assignAll_step serves, assignAll_step serves',
      formula_congr serves serves' config vocabulary]
    simp only [later]

/-- The first formula gives its column, and the others are assigned to the frame with it. -/
theorem assignAll_cons (serves : lib.Serves b) (frame : F) (name text : String) :
    frames.assignAll lib others b frame ((name, text) :: formulas) = (do
      let series ← frames.formula lib frame b text others
      frames.assignAll lib others b (frames.insert frame (frames.label name) series)
        formulas) := by
  have spec := serves.consistent.build text
  rw [assignAll_step serves]
  simp only [assignAll_congr (serves.build text) serves spec.config spec.vocabulary]

theorem assignAll_append (serves : lib.Serves b) (frame : F)
    (before after : List (String × String)) :
    frames.assignAll lib others b frame (before ++ after) = (do
      let reached ← frames.assignAll lib others b frame before
      frames.assignAll lib others b reached after) := by
  induction before generalizing frame with
  | nil => rw [List.nil_append, assignAll, pure_bind]
  | cons formula before ih =>
    obtain ⟨name, text⟩ := formula
    rw [List.cons_append, assignAll_cons serves, assignAll_cons serves, bind_assoc]
    simp only [ih]

/-- The rows stay, and so do all columns that no formula names. -/
theorem assignAll_keeps (lawful : frames.Lawful) (serves : lib.Serves b) {frame result : F}
    {state last : σ}
    (came : (frames.assignAll lib others b frame formulas).run state = (.ok result, last)) :
    frames.index result = frames.index frame ∧
      ∀ key, (∀ formula ∈ formulas, key ≠ frames.label formula.1) →
        frames.columns result key = frames.columns frame key := by
  induction formulas generalizing frame state with
  | nil =>
    cases came
    exact ⟨rfl, fun _ _ => rfl⟩
  | cons formula formulas ih =>
    obtain ⟨name, text⟩ := formula
    rw [assignAll_cons serves] at came
    obtain ⟨series, reached, gave, later⟩ := Effect.run_bind_eq_ok_iff.mp came
    have aligned := isAligned_of_formula gave
    obtain ⟨index, columns⟩ := ih later
    refine ⟨index.trans (lawful.index_insert aligned _), fun key apart => ?_⟩
    obtain ⟨other, absent⟩ := List.forall_mem_cons.mp apart
    rw [columns key absent, lawful.columns_insert aligned other]

/-- A formula whose column no later one names leaves there what its expression gives over the frame
that the formulas before it have made. -/
theorem assignAll_column (lawful : frames.Lawful) (serves : lib.Serves b)
    {before after : List (String × String)} (fresh : name ∉ after.map (·.1)) {frame result : F}
    {state last : σ}
    (came : (frames.assignAll lib others b frame (before ++ (name, text) :: after)).run state =
      (.ok result, last)) :
    ∃ e reached series, ∃ between next : σ, (b.build text).1 = .ok e ∧
      (frames.assignAll lib others b frame before).run state = (.ok reached, between) ∧
      (frames.evaluate lib reached e others).run between = (.ok series, next) ∧
      frames.columns result (frames.label name) ≠ [] ∧
      ∀ column ∈ frames.columns result (frames.label name),
        frames.values column = frames.values series := by
  rw [assignAll_append serves] at came
  obtain ⟨reached, between, first, later⟩ := Effect.run_bind_eq_ok_iff.mp came
  rw [assignAll_cons serves] at later
  obtain ⟨series, next, gave, rest⟩ := Effect.run_bind_eq_ok_iff.mp later
  have aligned := isAligned_of_formula gave
  cases built : (b.build text).1 with
  | error cause =>
    rw [formula_of_error built] at gave
    cases gave
  | ok e =>
    rw [formula_of_build built] at gave
    refine ⟨e, reached, series, between, next, rfl, first, gave, ?_⟩
    have apart (formula : String × String) (later : formula ∈ after) :
        frames.label name ≠ frames.label formula.1 := fun same =>
      fresh (lawful.label_injective same ▸ List.mem_map_of_mem later)
    rw [(assignAll_keeps lawful serves rest).2 _ apart]
    exact lawful.values_insert aligned _

end FrameLibrary
end InfixCalc
