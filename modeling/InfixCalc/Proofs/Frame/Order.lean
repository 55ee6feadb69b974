import InfixCalc.Proofs.Frame.Place

/-!
# The order of formulas

Two formulas for different columns, neither of which names the column of the other, may change
places: either both orders fail, or both give frames with the same contents in every column. Which
of two failing formulas is reported may differ, and so may the order of new columns.
-/

namespace InfixCalc

open InfixCalc.Number InfixCalc.ArrayLibrary

namespace FrameLibrary

variable {A F S I K σ : Type}

/-- Both fail, or both give frames with the same contents. -/
def Agree (frames : FrameLibrary A F S I K) : Except Failure F → Except Failure F → Prop
  | .ok frame, .ok other => frames.Alike frame other
  | .error _, .error _ => True
  | _, _ => False

/-- The assignments use no shared state, and their outcomes agree. -/
def Agrees (frames : FrameLibrary A F S I K) (first second : Effect σ F) : Prop :=
  ∃ outcome other, first = require outcome ∧ second = require other ∧ frames.Agree outcome other

/-- None of the formulas draws random numbers. -/
def Undrawn (b : Builder σ A) (formulas : List (String × String)) : Prop :=
  ∀ formula ∈ formulas, ∀ e, (b.build formula.2).1 = .ok e →
    ∀ s ∈ e.root.postorder, ¬ s.Calls "rand"

/-- No expression of the formula names the column. -/
def Ignores (b : Builder σ A) (text name : String) : Prop :=
  ∀ e, (b.build text).1 = .ok e → name ∉ e.variableLabels

variable {frames : FrameLibrary A F S I K} {lib : ArrayLibrary A} {b : Builder σ A}
  {others : List (String × A)} {formulas before after : List (String × String)}

section

variable (serves : lib.Serves b)
include serves

theorem isStateless_assignAll (undrawn : Undrawn b formulas) (frame : F) :
    (frames.assignAll lib others b frame formulas).IsStateless := by
  induction formulas generalizing frame with
  | nil => exact .pure frame
  | cons formula formulas ih =>
    obtain ⟨name, text⟩ := formula
    obtain ⟨first, rest⟩ := List.forall_mem_cons.mp undrawn
    rw [assignAll_cons serves]
    exact (isStateless_formula frames serves first frame others).bind fun series => ih rest _

variable (lawful : frames.Lawful)
include lawful

/-- Frames with the same contents have the same contents after the formulas. -/
theorem Alike.agrees {frame other : F} (alike : frames.Alike frame other)
    (undrawn : Undrawn b formulas) :
    frames.Agrees (frames.assignAll lib others b frame formulas)
      (frames.assignAll lib others b other formulas) := by
  induction formulas generalizing frame other with
  | nil => exact ⟨.ok frame, .ok other, rfl, rfl, alike⟩
  | cons formula formulas ih =>
    obtain ⟨name, text⟩ := formula
    obtain ⟨first, rest⟩ := List.forall_mem_cons.mp undrawn
    rw [assignAll_cons serves, assignAll_cons serves, ← alike.formula b text others]
    rcases formula_cases frames serves first frame others with
      ⟨cause, fails⟩ | ⟨series, aligned, gives⟩
    · rw [fails]
      exact ⟨.error cause, .error cause, rfl, rfl, trivial⟩
    · rw [gives, pure_bind, pure_bind]
      exact ih (alike.insert lawful aligned _) rest

/-- The first two formulas may change places. -/
theorem agrees_first {name text other more : String} (apart : name ≠ other)
    (ignores : Ignores b text other) (ignores' : Ignores b more name)
    (undrawn : Undrawn b ((name, text) :: (other, more) :: after)) (frame : F) :
    frames.Agrees (frames.assignAll lib others b frame ((name, text) :: (other, more) :: after))
      (frames.assignAll lib others b frame ((other, more) :: (name, text) :: after)) := by
  obtain ⟨first, rest⟩ := List.forall_mem_cons.mp undrawn
  obtain ⟨second, rest⟩ := List.forall_mem_cons.mp rest
  simp only [assignAll_cons serves]
  rcases formula_cases frames serves first frame others with
    ⟨cause, fails⟩ | ⟨series, aligned, gives⟩
  · rcases formula_cases frames serves second frame others with
      ⟨cause', fails'⟩ | ⟨series', aligned', gives'⟩
    · rw [fails, fails']
      exact ⟨.error cause, .error cause', rfl, rfl, trivial⟩
    · rw [fails, gives', pure_bind, formula_insert lawful aligned' ignores, fails]
      exact ⟨.error cause, .error cause, rfl, rfl, trivial⟩
  · rw [gives, pure_bind, formula_insert lawful aligned ignores']
    rcases formula_cases frames serves second frame others with
      ⟨cause', fails'⟩ | ⟨series', aligned', gives'⟩
    · rw [fails']
      exact ⟨.error cause', .error cause', rfl, rfl, trivial⟩
    · rw [gives', pure_bind, pure_bind, formula_insert lawful aligned' ignores, gives, pure_bind]
      have apart : frames.label name ≠ frames.label other :=
        fun same => apart (lawful.label_injective same)
      exact (alike_insert_insert lawful aligned aligned' apart).agrees serves lawful rest

/-- Two formulas next to each other may change places. -/
theorem agrees_swap {name text other more : String} (apart : name ≠ other)
    (ignores : Ignores b text other) (ignores' : Ignores b more name)
    (undrawn : Undrawn b (before ++ (name, text) :: (other, more) :: after)) (frame : F) :
    frames.Agrees
      (frames.assignAll lib others b frame (before ++ (name, text) :: (other, more) :: after))
      (frames.assignAll lib others b frame
        (before ++ (other, more) :: (name, text) :: after)) := by
  obtain ⟨earlier, rest⟩ := List.forall_mem_append.mp undrawn
  rw [assignAll_append serves, assignAll_append serves]
  obtain ⟨outcome, gives⟩ : (frames.assignAll lib others b frame before).IsStateless :=
    isStateless_assignAll serves earlier frame
  rw [gives]
  cases outcome with
  | error cause => exact ⟨.error cause, .error cause, rfl, rfl, trivial⟩
  | ok reached => exact agrees_first serves lawful apart ignores ignores' rest reached

variable {formulas : Entries String} {name text : String}

/-- An assignment with two formulas next to each other and the one with these in the other order. -/
theorem assign_swap {other more : String}
    (listed : formulas.toList = before ++ (name, text) :: (other, more) :: after)
    (apart : name ≠ other) (ignores : Ignores b text other) (ignores' : Ignores b more name)
    (undrawn : Undrawn b formulas.toList) (frame : F) (state : σ) :
    ∃ outcome swapped,
      (frames.assign lib frame b formulas others).run state = (outcome, state) ∧
      (frames.assign lib frame b ⟨before ++ (other, more) :: (name, text) :: after⟩
        others).run state = (swapped, state) ∧ frames.Agree outcome swapped := by
  rw [listed] at undrawn
  have agrees : frames.Agrees
      (frames.assignAll lib others b (frames.copy frame)
        (before ++ (name, text) :: (other, more) :: after))
      (frames.assignAll lib others b (frames.copy frame)
        (before ++ (other, more) :: (name, text) :: after)) :=
    agrees_swap serves lawful apart ignores ignores' undrawn (frames.copy frame)
  obtain ⟨outcome, swapped, gives, gives', agree⟩ := agrees
  refine ⟨outcome, swapped, ?_, ?_, agree⟩
  · rw [assign, listed, gives]
    rfl
  · rw [assign, gives']
    rfl

/-- The columns under the name of a formula hold what it gives over the frame with the columns of
the formulas before it. -/
theorem assign_column (listed : formulas.toList = before ++ (name, text) :: after)
    (fresh : name ∉ after.map (·.1)) (undrawn : Undrawn b formulas.toList) {frame result : F}
    {state last : σ}
    (came : (frames.assign lib frame b formulas others).run state = (.ok result, last)) :
    ∃ e reached series, (b.build text).1 = .ok e ∧
      (frames.assign lib frame b ⟨before⟩ others).run state = (.ok reached, state) ∧
      (frames.evaluate lib reached e others).run state = (.ok series, state) ∧
      frames.columns result (frames.label name) ≠ [] ∧
      ∀ column ∈ frames.columns result (frames.label name),
        frames.values column = frames.values series := by
  rw [assign, listed] at came
  obtain ⟨e, reached, series, between, next, built, earlier, gave, holds⟩ :=
    assignAll_column lawful serves fresh came
  rw [listed] at undrawn
  obtain ⟨first, rest⟩ := List.forall_mem_append.mp undrawn
  obtain rfl := (isStateless_assignAll serves first (frames.copy frame)).last_eq earlier
  have quiet := isStateless_formula frames serves (List.forall_mem_cons.mp rest).1 reached others
  rw [formula_of_build built] at quiet
  obtain rfl := quiet.last_eq gave
  exact ⟨e, reached, series, built, earlier, gave, holds⟩

end

theorem not_mem_of_nodup {formulas : Entries String} (distinct : formulas.labels.Nodup)
    {name text : String} (listed : formulas.toList = before ++ (name, text) :: after) :
    name ∉ after.map (·.1) := by
  rw [Entries.labels, listed, List.map_append] at distinct
  exact (List.nodup_cons.mp (List.nodup_append.mp distinct).2.1).1

/-- Over a builder over arrays, formulas that draw no random numbers are assigned as follows. Two
formulas next to each other, neither of which names the column of the other, may change places: both
orders fail, or both give the same contents. If all formulas give a column, then the columns under
each name hold what its formula gives over the frame with the earlier columns, and all other columns
are as they were. In any case the frame that they are assigned to stays as it is where it is, as all
frames do, and what comes of it is a new one. -/
theorem assign_independent [Shown A] [RandomSource σ] (lawful : frames.Lawful)
    (keeps : lib.KeepsFloats) {cacheSize maxDepth : Setting} {first b : Builder σ A}
    (made : lib.builder cacheSize maxDepth = .ok first) (edited : first.Edited b)
    {formulas : Entries String} (distinct : formulas.labels.Nodup)
    (undrawn : Undrawn b formulas.toList) (frame : F) (others : List (String × A)) (state : σ) :
    (∀ before name text other more after,
      formulas.toList = before ++ (name, text) :: (other, more) :: after →
        Ignores b text other → Ignores b more name →
        ∃ outcome swapped,
          (frames.assign lib frame b formulas others).run state = (outcome, state) ∧
          (frames.assign lib frame b ⟨before ++ (other, more) :: (name, text) :: after⟩
            others).run state = (swapped, state) ∧ frames.Agree outcome swapped) ∧
    (∀ result last, (frames.assign lib frame b formulas others).run state = (.ok result, last) →
      frames.index result = frames.index frame ∧
      (∀ key, (∀ label ∈ formulas.labels, key ≠ frames.label label) →
        frames.columns result key = frames.columns frame key) ∧
      ∀ before name text after, formulas.toList = before ++ (name, text) :: after →
        ∃ e reached series, (b.build text).1 = .ok e ∧
          (frames.assign lib frame b ⟨before⟩ others).run state = (.ok reached, state) ∧
          (frames.evaluate lib reached e others).run state = (.ok series, state) ∧
          frames.columns result (frames.label name) ≠ [] ∧
          ∀ column ∈ frames.columns result (frames.label name),
            frames.values column = frames.values series) ∧
    ∀ (stored : List F) address, stored[address]? = some frame →
      ∃ copy, (frames.assignAt lib address b formulas others).run ⟨stored, state⟩ =
          some (((frames.assign lib frame b formulas others).run state).1.map fun _ =>
            stored.length, ⟨stored ++ [copy], state⟩) ∧
        ∀ result, ((frames.assign lib frame b formulas others).run state).1 = .ok result →
          copy = result := by
  have serves := serves_of_edited (serves_of_made keeps made) edited
  have stateless : (frames.assign lib frame b formulas others).IsStateless :=
    isStateless_assignAll serves undrawn (frames.copy frame)
  refine ⟨fun before name text other more after listed ignores ignores' => ?_,
    fun result last came => ?_, fun stored address there => ?_⟩
  · have fresh := not_mem_of_nodup distinct listed
    have apart : name ≠ other := fun same => fresh (same ▸ List.mem_cons_self)
    exact assign_swap serves lawful listed apart ignores ignores' undrawn frame state
  · obtain ⟨index, columns⟩ := assignAll_keeps lawful serves came
    refine ⟨index.trans (lawful.index_copy frame), fun key apart => ?_,
      fun before name text after listed =>
        assign_column serves lawful listed (not_mem_of_nodup distinct listed) undrawn came⟩
    rw [columns key fun formula member => apart _ (List.mem_map_of_mem member),
      lawful.columns_copy]
  · obtain ⟨copy, ran, same⟩ := run_assignAt there b formulas others state
    refine ⟨copy, ?_, same⟩
    rw [ran, show ((frames.assign lib frame b formulas others).run state).2 = state from
      stateless.last_eq rfl]

end FrameLibrary

namespace Frame

open InfixCalc.Grid

theorem lawful_library : library.Lawful where
  label_injective := fun _ _ same => same
  index_copy _ := rfl
  columns_copy _ _ := rfl
  index_insert _ _ := rfl
  columns_insert := by
    intro frame g _ key other apart
    change Option.toList ((frame.columns.insert key g).get? other) = _
    rw [Entries.get?_insert, if_neg apart]
    rfl
  columns_insert_self := by
    intro frame other g _ _ key _
    change Option.toList ((frame.columns.insert key g).get? key) =
      Option.toList ((other.columns.insert key g).get? key)
    rw [Entries.get?_insert, Entries.get?_insert, if_pos rfl, if_pos rfl]
  values_insert := by
    intro frame g _ key
    have only : library.columns (library.insert frame key g) key = [g] := by
      change Option.toList ((frame.columns.insert key g).get? key) = _
      rw [Entries.get?_insert, if_pos rfl]
      rfl
    rw [only]
    exact ⟨List.cons_ne_nil _ _, List.forall_mem_singleton.mpr rfl⟩

/- Two formulas over a column and a flag. -/

def largerFormulas : Entries String := ⟨[("u", "max(x, y)"), ("v", "max(y, x)")]⟩

/-- Both orders give the levels in both columns, and the frame stays where it is. -/
theorem assign_independent_larger :
    ∃ result swapped,
      (library.assign Grid.library stock seedBuilder largerFormulas [("y", flag)]).run .initial =
        (.ok result, .initial) ∧
      (library.assign Grid.library stock seedBuilder
        ⟨[("v", "max(y, x)"), ("u", "max(x, y)")]⟩ [("y", flag)]).run .initial =
        (.ok swapped, .initial) ∧
      library.Alike result swapped ∧ result.columns.get? "v" = some levels ∧
      result.columns.get? "x" = stock.columns.get? "x" ∧
      (library.assignAt Grid.library 0 seedBuilder largerFormulas [("y", flag)]).run
        ⟨[stock], .initial⟩ = some (.ok 1, ⟨[stock, result], .initial⟩) := by
  have keeps : Grid.library.KeepsFloats := fun x => rfl
  have serves : Grid.library.Serves seedBuilder := serves_of_made keeps made_seedBuilder
  have forward : "max" ++ Tree.parenthesized (", ".intercalate ["x", "y"]) = "max(x, y)" := by
    decide +kernel
  have backward : "max" ++ Tree.parenthesized (", ".intercalate ["y", "x"]) = "max(y, x)" := by
    decide +kernel
  obtain ⟨e, built, listed, gives⟩ := evaluate_larger (.inl rfl)
  obtain ⟨e', built', listed', gives'⟩ := evaluate_larger (.inr rfl)
  rw [forward] at built
  rw [backward] at built'
  have came : (library.assign Grid.library stock seedBuilder largerFormulas
      [("y", flag)]).run .initial =
        (.ok ((stock.insert "u" levels).insert "v" levels), .initial) := by
    rw [FrameLibrary.assign, largerFormulas, FrameLibrary.assignAll_cons serves,
      FrameLibrary.formula_of_build built]
    refine Effect.run_bind_eq_ok_iff.mpr ⟨levels, .initial, gives _ rfl rfl rfl, ?_⟩
    rw [FrameLibrary.assignAll_cons serves, FrameLibrary.formula_of_build built']
    exact Effect.run_bind_eq_ok_iff.mpr ⟨levels, .initial, gives' _ rfl rfl rfl, rfl⟩
  have quiet : (largest.settledAt 2).label ≠ "rand" := by decide
  have undrawn : FrameLibrary.Undrawn seedBuilder largerFormulas.toList := by
    refine List.forall_mem_cons.mpr ⟨fun d same => ?_,
      List.forall_mem_singleton.mpr fun d same => ?_⟩
    · cases built.symm.trans same
      rw [listed]
      simp [Symbol.Calls, quiet]
    · cases built'.symm.trans same
      rw [listed']
      simp [Symbol.Calls, quiet]
  obtain ⟨swaps, _, placed⟩ := FrameLibrary.assign_independent lawful_library keeps
    made_seedBuilder .new (by decide) undrawn stock [("y", flag)] Seed.initial
  obtain ⟨outcome, swapped, ran, ran', agree⟩ := swaps [] "u" "max(x, y)" "v" "max(y, x)" [] rfl
    (fun d same => by
      cases built.symm.trans same
      rw [Expression.mem_variableLabels, listed]
      simp)
    (fun d same => by
      cases built'.symm.trans same
      rw [Expression.mem_variableLabels, listed']
      simp)
  obtain ⟨copy, worked, same⟩ := placed [stock] 0 rfl
  cases ran.symm.trans came
  cases swapped with
  | error cause => exact agree.elim
  | ok swapped =>
    refine ⟨_, swapped, came, ran', agree, rfl, rfl, ?_⟩
    rw [worked, same _ (congrArg Prod.fst came), came]
    rfl

end Frame
end InfixCalc
