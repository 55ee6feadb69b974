import InfixCalc.Proofs.Evaluation.Reached
import InfixCalc.Proofs.Evaluation.Unforced

/-!
# The names that an evaluation asks for

An evaluation asks for the values of the names in its tree, and for nothing else in its bindings.
Where two bindings agree on those names, two evaluations do the same, step by step. Over words that
report no names themselves, one that fails for a name without a value has that name in its tree.
-/

namespace InfixCalc

variable {σ α : Type}

namespace Tree

variable {values others : String → Option α}

/- Values of names. -/

theorem mem_variableLabels_node {label : String} {s : Symbol σ α} {cs : List (Tree (Symbol σ α))} :
    label ∈ (Tree.node s cs).variableLabels ↔
      s = .variable label ∨ ∃ c ∈ cs, label ∈ c.variableLabels := by
  simp only [mem_variableLabels, mem_postorder, or_comm, eq_comm]

theorem apply_congr {s : Symbol σ α}
    (agree : ∀ label, s = .variable label → values label = others label)
    (parameters : List (Effect σ α)) : apply values s parameters = apply others s parameters := by
  cases s with
  | operand value => rfl
  | «variable» label => rw [apply, apply, agree label rfl]
  | operator op => rfl
  | call callable => cases callable <;> rfl

/-- Values that agree on the names of a tree give the same evaluation. -/
theorem evaluate_congr {t : Tree (Symbol σ α)}
    (agree : ∀ label ∈ t.variableLabels, values label = others label) :
    t.evaluate values = t.evaluate others := by
  induction t with
  | node s cs ih =>
    have operands : cs.map (evaluate values) = cs.map (evaluate others) := by
      refine List.map_congr_left fun c among => ih c among fun label inside => ?_
      exact agree label (mem_variableLabels_node.mpr (.inr ⟨c, among, inside⟩))
    rw [evaluate, evaluate, evaluateAll_eq_map, evaluateAll_eq_map, operands]
    exact apply_congr (fun label same => agree label (mem_variableLabels_node.mpr (.inl same))) _

/-- Watching a tree leaves its names as they are. -/
theorem variableLabels_watched (t : Tree (Symbol σ α)) (place : Place) :
    (t.watched place).variableLabels = t.variableLabels := by
  induction t generalizing place with
  | node s cs ih =>
    have operands (ds : List (Tree (Symbol σ α))) (inside : ∀ d ∈ ds, d ∈ cs) (position : Nat) :
        variableLabelsAll (watchedAll place position ds) = variableLabelsAll ds := by
      induction ds generalizing position with
      | nil => rfl
      | cons d ds others =>
        obtain ⟨first, rest⟩ := List.forall_mem_cons.mp inside
        rw [watchedAll, variableLabelsAll, variableLabelsAll, ih d first, others rest]
    have below := operands cs (fun _ member => member) 0
    cases s with
    | call callable =>
      cases callable <;> simp [watched, Symbol.watch, Symbol.watched, variableLabels,
        variableLabelsAll, below]
    | _ => simp [watched, Symbol.watch, Symbol.watched, variableLabels, variableLabelsAll, below]

/- The search for names. -/

theorem postorderAll_eq_flatMap (cs : List (Tree (Symbol σ α))) :
    postorderAll cs = cs.flatMap postorder := by
  induction cs with
  | nil => rfl
  | cons c cs ih => rw [postorderAll, ih, List.flatMap_cons]

theorem length_postorderAll_push (s : Symbol σ α) (cs stack : List (Tree (Symbol σ α))) :
    (postorderAll (.node s cs :: stack)).length =
      (postorderAll (cs.reverse ++ stack)).length + 1 := by
  have same := ((List.reverse_perm cs).flatMap_right postorder).length_eq
  rw [← postorderAll_eq_flatMap, ← postorderAll_eq_flatMap] at same
  simp only [postorderAll, postorder, postorderAll_append, List.length_append,
    List.length_singleton, same]
  omega

/-- The names that a search finds that begins with a stack of trees. It takes off the last tree,
notes its name if it is one, and puts all its operands on the stack. -/
def search : List (Tree (Symbol σ α)) → List String
  | [] => []
  | .node s cs :: stack =>
    match s with
    | .variable label => label :: search (cs.reverse ++ stack)
    | _ => search (cs.reverse ++ stack)
termination_by stack => (postorderAll stack).length
decreasing_by
  all_goals
    rw [List.unattach_reverse, List.unattach_attach, length_postorderAll_push]
    omega

/-- A search finds all names in the trees that it begins with, and no others. -/
theorem mem_search {label : String} {stack : List (Tree (Symbol σ α))} :
    label ∈ search stack ↔ ∃ t ∈ stack, label ∈ t.variableLabels := by
  have pushed (s : Symbol σ α) (cs stack : List (Tree (Symbol σ α))) :
      (∃ t ∈ Tree.node s cs :: stack, label ∈ t.variableLabels) ↔
        s = .variable label ∨ ∃ t ∈ cs.reverse ++ stack, label ∈ t.variableLabels := by
    simp [mem_variableLabels_node, or_and_right, exists_or, or_assoc]
  fun_induction search stack with
  | case1 => simp
  | case2 cs stack name ih =>
    rw [List.unattach_reverse, List.unattach_attach] at ih
    rw [pushed, List.mem_cons, Symbol.variable.injEq, eq_comm]
    exact or_congr_right ih
  | case3 s cs stack noName ih =>
    rw [List.unattach_reverse, List.unattach_attach] at ih
    rw [pushed, or_iff_right (noName label)]
    exact ih

/- Names without values. -/

theorem Breaks.unbound {label : String} {cs : List (Tree (Symbol σ α))} {state : σ}
    {cause : Failure}
    (breaks : (Tree.node (.variable label) cs).Breaks values cause state) :
    values label = none := by
  cases breaks with
  | applied _ _ failed =>
    rw [apply] at failed
    split at failed
    · cases failed
    · assumption

theorem ne_unknown_of_chosen {label name : String} {count : Nat} {selection : Selection} :
    chosen label count selection ≠ .error (.unknownVariable name) := by
  unfold chosen
  split
  · nofun
  · split
    · nofun
    · split <;> nofun

end Tree

namespace Wordbook

variable [Shown α]

/-- No word and no choice of the book reports a name without a value. -/
structure IsNameless (book : Wordbook σ α) : Prop where
  meanings : ∀ word ∈ book.meanings, ∀ {operands : List α}, word.2.Reads operands.length →
    ∀ {state : σ} {name : String},
      (((word.2.give word.1 operands).start []).run state).1 ≠ .error (.unknownVariable name)
  branches : ∀ word ∈ book.branches, ∀ value name,
    word.2.2 value ≠ .error (.unknownVariable name)

variable {book : Wordbook σ α}

theorem isNameless_of_orderly
    (orderly : ∀ word ∈ book.meanings, ∃ count, word.2.IsOrderly count)
    (branches : ∀ word ∈ book.branches, ∀ value name,
      word.2.2 value ≠ .error (.unknownVariable name)) : book.IsNameless := by
  refine ⟨fun word member operands reads state name failed => ?_, branches⟩
  obtain ⟨count, orderly⟩ := orderly word member
  cases orderly.isOfWord_give reads failed

/-- An evaluation over words that report no names themselves fails for a name without a value only
if the tree has that name. -/
theorem IsNameless.unbound (nameless : book.IsNameless) {values : String → Option α}
    {t : Tree (Symbol σ α)}
    (means : t.All book.Means) {state : σ} {name : String}
    (failed : ((t.evaluate values).run state).1 = .error (.unknownVariable name)) :
    name ∈ t.variableLabels ∧ values name = none := by
  obtain ⟨inner, reached, reaches, breaks⟩ :=
    (Tree.fails_iff (means.mono fun _ _ here => here.isPlain)).mp failed
  -- A node that is reached stands in the tree, so its name is listed.
  cases reaches.all (means.and_postorder fun s member => member) with
  | @node s cs here _ =>
    obtain ⟨here, listed⟩ := here
    cases here.refuses breaks with
    | name same =>
      cases same
      exact ⟨Tree.mem_variableLabels.mpr listed, breaks.unbound⟩
    | word member reads _ _ failed => exact absurd failed (nameless.meanings _ member reads)
    | branch member _ _ failed =>
      rcases bind_eq_error_iff.mp failed with failed | ⟨selection, _, failed⟩
      · exact absurd failed (nameless.branches _ member _ _)
      · exact absurd failed Tree.ne_unknown_of_chosen

end Wordbook

namespace Expression

theorem mem_variableLabels {label : String} {e : Expression σ α} :
    label ∈ e.variableLabels ↔ .variable label ∈ e.root.postorder := by
  rw [variableLabels, List.mem_mergeSort, List.mem_eraseDups, Tree.mem_variableLabels]

theorem mem_variableLabels_root {label : String} {e : Expression σ α} :
    label ∈ e.variableLabels ↔ label ∈ e.root.variableLabels :=
  mem_variableLabels.trans Tree.mem_variableLabels.symm

variable {e : Expression σ α} {bindings others : List (String × α)}

/-- Bindings that agree on the names of an expression, or leave them to its constants, give the same
evaluation, and the same log of it. -/
theorem evaluate_congr (agree : ∀ label ∈ e.variableLabels,
    valueOf bindings e.constants label = valueOf others e.constants label) :
    e.evaluate bindings = e.evaluate others ∧
      e.watched.evaluate bindings = e.watched.evaluate others := by
  have agreeToo (label : String) (named : label ∈ e.root.variableLabels) :=
    agree label (mem_variableLabels_root.mpr named)
  refine ⟨Tree.evaluate_congr agreeToo, Tree.evaluate_congr fun label named => ?_⟩
  exact agreeToo label (Tree.variableLabels_watched e.root [] ▸ named)

/-- An evaluation fails for a name without a value only if the expression lists the name, and
neither the bindings nor the constants have it. So it never does where all names have values. -/
structure ListsUnknowns (e : Expression σ α) : Prop where
  listed : ∀ bindings state label,
    ((e.evaluate bindings).run state).1 = .error (.unknownVariable label) →
      label ∈ e.variableLabels ∧ bindings.lookup label = none ∧ e.constants.get? label = none
  covered : ∀ bindings,
    (∀ label ∈ e.variableLabels, valueOf bindings e.constants label ≠ none) →
      ∀ state label, ((e.evaluate bindings).run state).1 ≠ .error (.unknownVariable label)

theorem listsUnknowns_of_means [Shown α] {book : Wordbook σ α} (nameless : book.IsNameless)
    (means : e.root.All book.Means) : e.ListsUnknowns := by
  have missing (bindings : List (String × α)) (state : σ) (label : String)
      (failed : ((e.evaluate bindings).run state).1 = .error (.unknownVariable label)) :
      label ∈ e.variableLabels ∧ valueOf bindings e.constants label = none :=
    (nameless.unbound means failed).imp_left mem_variableLabels_root.mpr
  refine ⟨fun bindings state label failed => ?_, fun bindings covered state label failed => ?_⟩
  · obtain ⟨listed, absent⟩ := missing bindings state label failed
    exact ⟨listed, by simpa [valueOf] using absent⟩
  · obtain ⟨listed, absent⟩ := missing bindings state label failed
    exact covered label listed absent

end Expression
end InfixCalc
