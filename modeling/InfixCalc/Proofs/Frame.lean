import InfixCalc.Grid.Frame
import InfixCalc.Proofs.Arrays.Builder
import InfixCalc.Proofs.Arrays.RowByRow
import InfixCalc.Proofs.Evaluation.Support
import InfixCalc.Proofs.Grid.Builder
import InfixCalc.Proofs.Grid.Laws

/-!
# Frames row by row

An evaluation over a frame gives a column. Each cell of it is what the expression gives when every
column is replaced by its cell of that row.
-/

namespace InfixCalc

open InfixCalc.Number InfixCalc.ArrayLibrary

/- Look-ups. -/

theorem lookup_filterMap {α : Type} (values : String → Option α) (labels : List String)
    (label : String) :
    (labels.filterMap fun label => (values label).map (label, ·)).lookup label =
      if label ∈ labels then values label else none := by
  induction labels with
  | nil => rfl
  | cons first labels ih =>
    by_cases same : label = first
    · subst same
      cases found : values label <;> simp [found, ih]
    · have apart := beq_eq_false_iff_ne.mpr same
      cases found : values first <;> simp [found, ih, same, List.lookup_cons, apart]

namespace FrameLibrary

variable {A F S I K σ : Type}

/-- A column has the cells of the array of numbers that it is made of. -/
def KeepsCells (frames : FrameLibrary A F S I K) (lib : ArrayLibrary A) (numeric : A → Prop) :
    Prop :=
  ∀ a index series, numeric a → frames.series a index = .ok series →
    lib.shape (frames.values series) = lib.shape a ∧
      lib.items (frames.values series) = lib.items a

/-- How many rows the frame has. -/
def count (frames : FrameLibrary A F S I K) (frame : F) : Nat := frames.length (frames.index frame)

/-- Each of the names that stands for a column stands for one with a number for each row. -/
def IsRegular (frames : FrameLibrary A F S I K) (lib : ArrayLibrary A) (numeric : A → Prop)
    (frame : F) (names : List String) : Prop :=
  ∀ name ∈ names, ∀ a, frames.column? frame name = some a →
    numeric a ∧ lib.shape a = [frames.count frame]

/-- The bindings of a row: a name that stands for a column is bound to a single number that has the
cell of the row, and another name to what it is bound to otherwise. -/
def BindsRow (frames : FrameLibrary A F S I K) (lib : ArrayLibrary A) (numeric : A → Prop)
    (frame : F) (i : Nat) (names : List String) (others row : List (String × A)) : Prop :=
  ∀ name ∈ names, match frames.column? frame name with
    | some a => ∃ cell, row.lookup name = some cell ∧ lib.IsRow numeric i a cell
    | none => row.lookup name = others.lookup name

variable {frames : FrameLibrary A F S I K} {lib : ArrayLibrary A} {numeric : A → Prop} {frame : F}
  {others row : List (String × A)} {e : Expression σ A} {i : Nat}

theorem series_of_run {a : A} {index : I} {series : S} {state last : σ}
    (came : (require ((frames.series a index).mapError Fault.failure) : Effect σ S).run state =
      (.ok series, last)) : frames.series a index = .ok series := by
  cases given : frames.series a index with
  | error fault =>
    rw [given] at came
    cases came
  | ok made =>
    rw [given] at came
    cases came
    rfl

/-- A variable of the expression stands in a row for what stands there for its value. -/
theorem valueOf_row (regular : frames.IsRegular lib numeric frame e.variableLabels)
    (single : ∀ entry ∈ others, numeric entry.2 ∧ lib.shape entry.2 = [])
    (constants : ∀ entry ∈ e.constants.toList, numeric entry.2 ∧ lib.shape entry.2 = [])
    (binds : frames.BindsRow lib numeric frame i e.variableLabels others row) {label : String}
    (named : label ∈ e.variableLabels) {a : A}
    (found : valueOf (frames.bindings frame e others) e.constants label = some a) :
    ∃ cell, valueOf row e.constants label = some cell ∧
      lib.HasRow numeric (frames.count frame) i a cell := by
  have bound := binds label named
  rw [valueOf, bindings, List.lookup_append, lookup_filterMap, if_pos named] at found
  rw [valueOf]
  cases column : frames.column? frame label with
  | some values =>
    rw [column] at found bound
    obtain rfl : values = a := Option.some.inj found
    obtain ⟨cell, there, isRow⟩ := bound
    obtain ⟨given, shape⟩ := regular label named values column
    exact ⟨cell, by rw [there]; rfl, ⟨given, .inr shape⟩, isRow⟩
  | none =>
    rw [column] at bound
    rw [column, Option.none_or] at found
    refine ⟨a, by rw [show row.lookup label = others.lookup label from bound]; exact found, ?_⟩
    cases other : others.lookup label with
    | some value =>
      rw [other] at found
      obtain rfl : value = a := Option.some.inj found
      obtain ⟨given, shape⟩ := single _ (Builder.mem_of_lookup other)
      exact hasRow_self given shape
    | none =>
      rw [other] at found
      obtain ⟨given, shape⟩ := constants _ (Builder.mem_of_lookup found)
      exact hasRow_self given shape

section

variable [Shown A] (elementwise : lib.Elementwise numeric)
include elementwise

/-- The words of an expression give, for what stands in a row for their operands, what stands there
for their values. -/
theorem carries_of_means [RandomSource σ] {count rows : Nat} {values other : String → Option A}
    {s : Symbol σ A} (means : (lib.wordbook : Wordbook σ A).Means count s)
    (literal : ∀ a, s = .operand a → numeric a ∧ lib.shape a = [])
    (named : ∀ label, s = .variable label → ∀ a, values label = some a →
      ∃ cell, other label = some cell ∧ lib.HasRow numeric rows i a cell)
    (rowed : ∀ callable, s = .call callable → callable.label ∉ unrowedCalls) (small : i < rows) :
    s.Carries values other (lib.HasRow numeric rows i) count := by
  cases means with
  | operand a =>
    refine ⟨Symbol.isStrict_operand a, fun _ hasRows came => ?_⟩
    cases came
    obtain ⟨given, shape⟩ := literal _ rfl
    exact ⟨_, hasRow_self given shape, fun start => rfl⟩
  | name label =>
    refine ⟨Symbol.isStrict_variable label, fun _ hasRows came => ?_⟩
    rw [Tree.apply] at came
    cases found : values label with
    | none =>
      rw [found] at came
      cases came
    | some a =>
      rw [found] at came
      cases came
      obtain ⟨cell, there, hasRow⟩ := named label rfl _ found
      exact ⟨cell, hasRow, fun start => by rw [Tree.apply, there]; rfl⟩
  | @word label meaning _ _ lends reads =>
    have rowByRow : lib.RowByRow numeric rows i meaning := by
      cases lends with
      | operator member => exact rowByRow_operators small elementwise _ member
      | function member same =>
        exact rowByRow_functions small elementwise _ member (same ▸ rowed _ rfl)
    refine ⟨lends.acts.isStrict reads, fun full hasRows came => ?_⟩
    subst full
    rw [lends.acts.apply_pure values reads] at came
    obtain ⟨image, hasRow, runs⟩ := rowByRow reads hasRows came
    refine ⟨image, hasRow, fun start => ?_⟩
    rw [lends.acts.apply_pure other (by rwa [← hasRows.length_eq])]
    exact runs start
  | branch member => cases member

omit [Shown A] in
/-- Repeated over the rows, a value has in each row what the row has of it. -/
theorem spread_cells {count : Nat} {value : A} (fits : lib.Fits numeric count value) :
    numeric (spread lib count value) ∧ lib.shape (spread lib count value) = [count] ∧
      (lib.items (spread lib count value)).length = count ∧ ∀ i < count,
        (lib.items (spread lib count value))[i]?.toList = lib.itemsAt i value := by
  obtain ⟨given, shape, items⟩ := elementwise.asArray value fits.numeric
  have length := elementwise.length_items value fits.numeric
  rcases fits.shape with single | column
  · rw [single] at length
    obtain ⟨x, alone⟩ := List.length_eq_one_iff.mp length
    obtain ⟨givenToo, shapeToo, itemsToo⟩ :=
      elementwise.full count value x fits.numeric (alone ▸ List.mem_cons_self)
    have same : spread lib count value = lib.full count x := by
      rw [spread, shape, items, single, alone]
    rw [same, shapeToo, itemsToo]
    refine ⟨givenToo, rfl, List.length_replicate, fun i small => ?_⟩
    rw [List.getElem?_replicate_of_lt small, itemsAt, pick, if_pos single, alone]
    rfl
  · have same : spread lib count value = lib.asArray value := by
      rw [spread, shape, column]
    rw [column] at length
    rw [same, shape, items, column]
    refine ⟨given, rfl, length.trans (Nat.mul_one count), fun i _ => ?_⟩
    rw [itemsAt, pick, column, if_neg (List.cons_ne_nil _ _), only]

/-- Over a library that works cell by cell, a builder builds expressions that are evaluated over
frames row by row, if they call neither random numbers nor averages: if the evaluation over a frame
gives a column, then it has one cell for each row, and the evaluation for a row gives a single
number with that cell. -/
theorem builder_evaluates_rows [RandomSource σ] (keeps : frames.KeepsCells lib numeric)
    {cacheSize maxDepth : Setting} {first b : Builder σ A} {text : String}
    (made : lib.builder cacheSize maxDepth = .ok first) (used : first.Used b)
    (built : (b.build text).1 = .ok e)
    (rowed : ∀ callable, .call callable ∈ e.root.postorder → callable.label ∉ unrowedCalls)
    (regular : frames.IsRegular lib numeric frame e.variableLabels)
    (some_ : 0 < frames.count frame)
    (single : ∀ entry ∈ others, numeric entry.2 ∧ lib.shape entry.2 = []) {state last : σ}
    {series : S} (came : (frames.evaluate lib frame e others).run state = (.ok series, last))
    (rows : Nat → List (String × A)) (binds : ∀ i < frames.count frame,
      frames.BindsRow lib numeric frame i e.variableLabels others (rows i)) :
    lib.shape (frames.values series) = [frames.count frame] ∧
      (lib.items (frames.values series)).length = frames.count frame ∧
      ∀ i < frames.count frame, ∃ value, numeric value ∧ lib.shape value = [] ∧
        lib.items value = (lib.items (frames.values series))[i]?.toList ∧
        ∀ start, (e.evaluate (rows i)).run start = (.ok value, start) := by
  obtain ⟨consistent, words, standard, read, _⟩ := builder_eq_ok made
  obtain ⟨kept, config, vocabulary⟩ := used.kept consistent
  obtain ⟨root, constants, _⟩ := (kept.build text).sound e built
  rw [← config] at standard read
  rw [words] at vocabulary
  have literal (a : A) (member : .operand a ∈ e.root.postorder) :
      numeric a ∧ lib.shape a = [] := by
    obtain ⟨x, rfl⟩ := kept.literal_eq_ofFloat standard read root member
    exact elementwise.ofFloat x
  have fixed : ∀ entry ∈ e.constants.toList, numeric entry.2 ∧ lib.shape entry.2 = [] := by
    rw [constants, vocabulary, constants_wordbook]
    exact List.forall_mem_cons.mpr ⟨elementwise.ofFloat _,
      List.forall_mem_singleton.mpr (elementwise.ofFloat _)⟩
  rw [vocabulary] at root
  have means :=
    (Wordbook.means_root lib.isExact_wordbook root).and_postorder fun s member => member
  have carries (i : Nat) (small : i < frames.count frame) : e.root.All
      (Symbol.Carries (valueOf (frames.bindings frame e others) e.constants)
        (valueOf (rows i) e.constants) (lib.HasRow numeric (frames.count frame) i)) :=
    means.mono fun count s ⟨here, member⟩ =>
      carries_of_means elementwise here (fun a same => literal a (same ▸ member))
        (fun label same a found => valueOf_row regular single fixed (binds i small)
          (Expression.mem_variableLabels.mpr (same ▸ member)) found)
        (fun callable same => rowed callable (same ▸ member)) small
  -- The first row says what shape the value has, and every row what its cell is.
  obtain ⟨value, reached, ran, shaped⟩ := Effect.run_bind_eq_ok_iff.mp came
  obtain ⟨_, ⟨fits, _⟩, _⟩ := (carries 0 some_).carried ran
  obtain ⟨given, shape, length, cells⟩ := spread_cells elementwise fits
  obtain ⟨shapeToo, itemsToo⟩ := keeps _ _ _ given (series_of_run shaped)
  rw [shapeToo, itemsToo]
  refine ⟨shape, length, fun i small => ?_⟩
  obtain ⟨image, ⟨_, isRow⟩, runs⟩ := (carries i small).carried ran
  exact ⟨image, isRow.numeric, isRow.shape, isRow.items.trans (cells i small).symm, runs⟩

end

end FrameLibrary

/- The larger of a column and a flag. -/

namespace Frame

open InfixCalc.Grid

theorem keepsCells_library : library.KeepsCells Grid.library IsFull := by
  intro g index series _ came
  change Frame.series g index = .ok series at came
  unfold Frame.series at came
  split at came
  · split at came
    · cases came
      exact ⟨rfl, rfl⟩
    · cases came
  · cases came

/-- A frame with three rows and one column. -/
def stock : Frame := ⟨["a", "b", "c"], ⟨[("x", ⟨[3], .wholes [3, 0, 2]⟩)]⟩⟩

def flag : Grid := ⟨[], .flags [true]⟩

def levels : Grid := ⟨[3], .wholes [3, 1, 2]⟩

def stockRow (i : Nat) : List (String × Grid) :=
  [("x", ⟨[], .wholes (only i [3, 0, 2])⟩), ("y", flag)]

theorem column?_stock (name : String) :
    library.column? stock name = if name = "x" then some ⟨[3], .wholes [3, 0, 2]⟩ else none := by
  by_cases same : name = "x"
  · subst same
    rfl
  · have apart : library.columns stock (library.label name) = [] := by
      change Option.toList (List.lookup name [("x", _)]) = []
      rw [List.lookup_cons, beq_eq_false_iff_ne.mpr same]
      rfl
    rw [FrameLibrary.column?, apart, if_neg same]

theorem isRegular_stock (names : List String) :
    library.IsRegular Grid.library IsFull stock names := by
  intro name _ g there
  rw [column?_stock] at there
  split at there
  · cases there
    exact ⟨rfl, rfl⟩
  · cases there

theorem bindsRow_stock {i : Nat} (small : i < 3) (names : List String) :
    library.BindsRow Grid.library IsFull stock i names [("y", flag)] (stockRow i) := by
  intro name _
  rw [column?_stock]
  by_cases same : name = "x"
  · subst same
    refine ⟨⟨[], .wholes (only i [3, 0, 2])⟩, rfl, ?_, rfl, rfl, ?_⟩
    all_goals
      match i, small with
      | 0, _ => rfl
      | 1, _ => rfl
      | 2, _ => rfl
  · rw [if_neg same, stockRow, List.lookup_cons, beq_eq_false_iff_ne.mpr same]

/-- Over a frame with the column, the larger of it and the flag is built and evaluated. -/
theorem evaluate_larger {names : List String} (among : names = ["x", "y"] ∨ names = ["y", "x"]) :
    ∃ e, (seedBuilder.build ("max" ++ Tree.parenthesized (", ".intercalate names))).1 = .ok e ∧
      e.root.postorder = names.map .variable ++ [.call (largest.settledAt 2)] ∧
      ∀ frame : Frame, frame.rows = stock.rows →
        library.column? frame "x" = library.column? stock "x" →
        library.column? frame "y" = none →
        (library.evaluate Grid.library frame e [("y", flag)]).run .initial =
          (.ok levels, .initial) := by
  have build : ∃ e, (seedBuilder.build
      ("max" ++ Tree.parenthesized (", ".intercalate names))).1 = .ok e ∧
        e.root = (Phrase.calling largest names).tree := by
    rcases among with rfl | rfl
    all_goals
      exact exists_build_calling "max" largest _ rfl rfl trivial (by decide) (by decide)
        (by decide) ⟨_, rfl⟩
  obtain ⟨e, built, root⟩ := build
  have listed : e.root.postorder = names.map .variable ++ [.call (largest.settledAt 2)] := by
    rw [root]
    rcases among with rfl | rfl <;> rfl
  refine ⟨e, built, listed, fun frame rows x y => ?_⟩
  have named (label : String) (member : label ∈ names) :
      valueOf (library.bindings frame e [("y", flag)]) e.constants label =
        ((library.column? frame label).or ([("y", flag)].lookup label) <|>
          e.constants.get? label) := by
    have inside : .variable label ∈ e.root.postorder := by
      rw [listed]
      exact List.mem_append_left _ (List.mem_map_of_mem member)
    rw [valueOf, FrameLibrary.bindings, List.lookup_append, lookup_filterMap,
      if_pos (Expression.mem_variableLabels.mpr inside)]
  have column := named "x" (by rcases among with rfl | rfl <;> simp)
  have single := named "y" (by rcases among with rfl | rfl <;> simp)
  rw [x] at column
  rw [y] at single
  refine Effect.run_bind_eq_ok_iff.mpr ⟨levels, .initial, ?_, ?_⟩
  · rw [Expression.evaluate, root]
    rcases among with rfl | rfl
    all_goals
      simp only [Phrase.calling, Phrase.tree, Phrase.trees, List.map_cons, List.map_nil,
        Tree.evaluate, Tree.evaluateAll, Tree.apply, column, single]
      rfl
  · rw [show library.index frame = stock.rows from rows]
    rfl

/-- The flag counts as one in every row. -/
theorem builder_evaluates_rows_stock :
    (Grid.library.builder .absent (.whole 128) : Except Failure (Builder Seed Grid)) =
      .ok seedBuilder ∧
    ∃ e, (seedBuilder.build "max(x, y)").1 = .ok e ∧
      (library.evaluate Grid.library stock e [("y", flag)]).run .initial =
        (.ok levels, .initial) ∧
      ∀ i < 3, ∃ value : Grid, value.shape = [] ∧ value.cells.items = only i levels.cells.items ∧
        ∀ start, (e.evaluate (stockRow i)).run start = (.ok value, start) := by
  have joined : "max" ++ Tree.parenthesized (", ".intercalate ["x", "y"]) = "max(x, y)" := by
    decide +kernel
  obtain ⟨e, built, listed, gives⟩ := evaluate_larger (.inl rfl)
  rw [joined] at built
  have came := gives stock rfl rfl rfl
  have single : ∀ entry ∈ [("y", flag)], entry.2.IsFull ∧ Grid.library.shape entry.2 = [] :=
    List.forall_mem_singleton.mpr ⟨rfl, rfl⟩
  have rowed : ∀ callable, .call callable ∈ e.root.postorder → callable.label ∉ unrowedCalls := by
    intro callable member
    rw [listed] at member
    obtain rfl : callable = largest.settledAt 2 := by simpa using member
    decide
  obtain ⟨_, _, cells⟩ := FrameLibrary.builder_evaluates_rows elementwise_library
    keepsCells_library made_seedBuilder .new built rowed (isRegular_stock _) (Nat.zero_lt_succ 2)
    single came stockRow fun i small => bindsRow_stock small e.variableLabels
  refine ⟨made_seedBuilder, e, built, came, fun i small => ?_⟩
  obtain ⟨value, _, shape, items, runs⟩ := cells i small
  exact ⟨value, shape, items, runs⟩

end Frame
end InfixCalc
