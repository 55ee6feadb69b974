import InfixCalc.Proofs.Evaluation.Strict
import InfixCalc.Proofs.Vocabulary.Orderly

/-!
# Reached nodes

Over strict symbols and branches an evaluation fails with a cause exactly if it reaches a node that
itself fails with it: one whose operands have values for which it gives none.
-/

namespace InfixCalc

variable {σ α β γ : Type}

/- Operands. -/

namespace Effect

theorem run_mapM_fails_iff {f : γ → Effect σ α} {xs : List γ} {state : σ} {cause : Failure} :
    ((xs.mapM f).run state).1 = .error cause ↔
      ∃ before x after values reached, xs = before ++ x :: after ∧
        (before.mapM f).run state = (.ok values, reached) ∧
        ((f x).run reached).1 = .error cause := by
  induction xs generalizing state with
  | nil => simp [List.mapM_nil, Effect.run_pure]
  | cons x xs ih =>
    rw [run_mapM_cons_fails_iff]
    constructor
    · rintro (failed | ⟨value, reached, first, failed⟩)
      · exact ⟨[], x, xs, [], state, rfl, rfl, failed⟩
      · obtain ⟨before, y, after, values, last, rfl, ran, failed⟩ := ih.mp failed
        exact ⟨x :: before, y, after, value :: values, last, rfl,
          run_mapM_cons_eq_ok_iff.mpr ⟨value, reached, values, first, ran, rfl⟩, failed⟩
    · rintro ⟨before, y, after, values, last, same, ran, failed⟩
      cases before with
      | nil =>
        cases same
        cases ran
        exact .inl failed
      | cons z before =>
        cases same
        obtain ⟨value, reached, others, first, rest, rfl⟩ := run_mapM_cons_eq_ok_iff.mp ran
        exact .inr ⟨value, reached, first,
          ih.mpr ⟨before, y, after, others, last, rfl, rest, failed⟩⟩

end Effect

/- Branches. -/

/-- The position of the parameter that a branch with so many parameters chooses for a value. -/
def Branch.select (b : Branch σ α) (count : Nat) (value : α) : Effect σ Nat :=
  (b.choice value).start [] >>= fun selection => require (Tree.chosen b.label count selection)

theorem Branch.run_select {b : Branch σ α} {choice : α → Except Failure Selection}
    (given : b.choice = fun value => .ofExcept (choice value)) (count : Nat) (value : α)
    (state : σ) :
    (b.select count value).run state = (choice value >>= Tree.chosen b.label count, state) := by
  rw [Branch.select, given]
  cases chose : choice value with
  | ok selection =>
    simp only [chose]
    rfl
  | error cause =>
    simp only [chose]
    rfl

namespace Tree

variable {values : String → Option α}

theorem apply_branch_eq (values : String → Option α) (b : Branch σ α) (selector : Effect σ α)
    (others : List (Effect σ α)) :
    apply values (.call (.branch b)) (selector :: others) =
      selector >>= fun value => b.select (others.length + 1) value >>= fun index =>
        match (selector :: others)[index]? with
        | some parameter => parameter
        | none => throw .missingParameter := by
  rw [apply_branch]
  refine congrArg (selector >>= ·) (funext fun value => ?_)
  rw [Branch.select, bind_assoc]
  refine congrArg ((b.choice value).start [] >>= ·) (funext fun selection => ?_)
  rw [taken, List.length_cons]
  cases chosen b.label (others.length + 1) selection with
  | error cause => rfl
  | ok index => rfl

theorem evaluate_branch (b : Branch σ α) (c : Tree (Symbol σ α)) (cs : List (Tree (Symbol σ α))) :
    evaluate values (.node (.call (.branch b)) (c :: cs)) =
      evaluate values c >>= fun value => b.select (cs.length + 1) value >>= fun index =>
        match (c :: cs)[index]? with
        | some chosen => evaluate values chosen
        | none => throw .missingParameter := by
  rw [evaluate, evaluateAll, evaluateAll_eq_map, apply_branch_eq, List.length_map]
  refine congrArg (evaluate values c >>= ·) (funext fun value => ?_)
  refine congrArg (b.select (cs.length + 1) value >>= ·) (funext fun index => ?_)
  rw [← List.map_cons, List.getElem?_map]
  cases (c :: cs)[index]? with
  | none => rfl
  | some chosen => rfl

theorem lt_of_select {b : Branch σ α} {count index : Nat} {value : α} {state reached : σ}
    (selected : (b.select count value).run state = (.ok index, reached)) : index < count := by
  obtain ⟨selection, _, _, chose⟩ := Effect.run_bind_eq_ok_iff.mp selected
  exact chosen_lt (congrArg Prod.fst chose)

/- Nodes. -/

/-- While the first tree is evaluated from a state, the evaluation of the second one begins in
another state. -/
inductive Reaches (values : String → Option α) :
    Tree (Symbol σ α) → σ → Tree (Symbol σ α) → σ → Prop where
  | here {t : Tree (Symbol σ α)} {state : σ} : Reaches values t state t state
  | operand {s : Symbol σ α} {before after : List (Tree (Symbol σ α))} {c inner : Tree (Symbol σ α)}
      {operands : List α} {state reached last : σ} :
      s.IsStrict (before ++ c :: after).length →
      (before.mapM (evaluate values)).run state = (.ok operands, reached) →
      Reaches values c reached inner last →
        Reaches values (.node s (before ++ c :: after)) state inner last
  | selector {b : Branch σ α} {c inner : Tree (Symbol σ α)} {cs : List (Tree (Symbol σ α))}
      {state last : σ} :
      Reaches values c state inner last →
        Reaches values (.node (.call (.branch b)) (c :: cs)) state inner last
  | chosen {b : Branch σ α} {c chosen inner : Tree (Symbol σ α)} {cs : List (Tree (Symbol σ α))}
      {value : α}
      {index : Nat} {state asked reached last : σ} :
      (evaluate values c).run state = (.ok value, asked) →
      (b.select (cs.length + 1) value).run asked = (.ok index, reached) →
      (c :: cs)[index]? = some chosen → Reaches values chosen reached inner last →
        Reaches values (.node (.call (.branch b)) (c :: cs)) state inner last

/-- The root of the tree itself fails: all its operands have values, and it gives none for them. -/
inductive Breaks (values : String → Option α) (cause : Failure) : Tree (Symbol σ α) → σ → Prop where
  | applied {s : Symbol σ α} {cs : List (Tree (Symbol σ α))} {operands : List α}
      {state reached : σ} :
      s.IsStrict cs.length → (cs.mapM (evaluate values)).run state = (.ok operands, reached) →
      ((apply values s (operands.map pure)).run reached).1 = .error cause →
        Breaks values cause (.node s cs) state
  | selected {b : Branch σ α} {c : Tree (Symbol σ α)} {cs : List (Tree (Symbol σ α))} {value : α}
      {state reached : σ} :
      (evaluate values c).run state = (.ok value, reached) →
      ((b.select (cs.length + 1) value).run reached).1 = .error cause →
        Breaks values cause (.node (.call (.branch b)) (c :: cs)) state

theorem Breaks.fails {t : Tree (Symbol σ α)} {state : σ} {cause : Failure}
    (breaks : t.Breaks values cause state) : ((t.evaluate values).run state).1 = .error cause := by
  cases breaks with
  | applied strict came failed =>
    rw [evaluate_strict strict]
    exact Effect.run_bind_fails_iff.mpr (.inr ⟨_, _, came, failed⟩)
  | selected came failed =>
    rw [evaluate_branch]
    exact Effect.run_bind_fails_iff.mpr
      (.inr ⟨_, _, came, Effect.run_bind_fails_iff.mpr (.inl failed)⟩)

/-- Where a node fails that is reached, the whole evaluation fails. -/
theorem Reaches.fails {t inner : Tree (Symbol σ α)} {state last : σ} {cause : Failure}
    (reaches : t.Reaches values state inner last)
    (failed : ((inner.evaluate values).run last).1 = .error cause) :
    ((t.evaluate values).run state).1 = .error cause := by
  induction reaches with
  | here => exact failed
  | operand strict came _ ih =>
    rw [evaluate_strict strict]
    exact Effect.run_bind_fails_iff.mpr
      (.inl (Effect.run_mapM_fails_iff.mpr ⟨_, _, _, _, _, rfl, came, ih failed⟩))
  | selector _ ih =>
    rw [evaluate_branch]
    exact Effect.run_bind_fails_iff.mpr (.inl (ih failed))
  | chosen came selected there _ ih =>
    rw [evaluate_branch]
    refine Effect.run_bind_fails_iff.mpr
      (.inr ⟨_, _, came, Effect.run_bind_fails_iff.mpr (.inr ⟨_, _, selected, ?_⟩)⟩)
    rw [there]
    exact ih failed

end Tree

/-- The symbol is strict, or a branch with a selector. -/
inductive Symbol.IsPlain : Nat → Symbol σ α → Prop where
  | strict {count : Nat} {s : Symbol σ α} : s.IsStrict count → IsPlain count s
  | branch {count : Nat} (b : Branch σ α) : IsPlain (count + 1) (.call (.branch b))

/-- An evaluation fails exactly as a node that it reaches fails itself. -/
theorem Tree.fails_iff {values : String → Option α} {t : Tree (Symbol σ α)}
    (plain : t.All Symbol.IsPlain)
    {state : σ} {cause : Failure} : ((t.evaluate values).run state).1 = .error cause ↔
      ∃ inner reached, t.Reaches values state inner reached ∧
        inner.Breaks values cause reached := by
  refine ⟨fun failed => ?_, fun ⟨inner, reached, reaches, breaks⟩ => reaches.fails breaks.fails⟩
  induction plain generalizing state with
  | @node s cs here _ ih =>
    generalize count : cs.length = n at here
    cases here with
    | strict strict =>
      subst count
      rw [evaluate_strict strict] at failed
      rcases Effect.run_bind_fails_iff.mp failed with failed | ⟨operands, reached, came, failed⟩
      · obtain ⟨before, c, after, operands, reached, rfl, came, failed⟩ :=
          Effect.run_mapM_fails_iff.mp failed
        obtain ⟨inner, last, reaches, breaks⟩ := ih c (by simp) failed
        exact ⟨inner, last, .operand strict came reaches, breaks⟩
      · exact ⟨_, state, .here, .applied strict came failed⟩
    | branch b =>
      cases cs with
      | nil => cases count
      | cons c cs =>
        rw [evaluate_branch] at failed
        rcases Effect.run_bind_fails_iff.mp failed with failed | ⟨value, asked, came, failed⟩
        · obtain ⟨inner, last, reaches, breaks⟩ := ih c List.mem_cons_self failed
          exact ⟨inner, last, .selector reaches, breaks⟩
        · rcases Effect.run_bind_fails_iff.mp failed with
            failed | ⟨index, reached, selected, failed⟩
          · exact ⟨_, state, .here, .selected came failed⟩
          · have small : index < (c :: cs).length := lt_of_select selected
            have there := List.getElem?_eq_getElem small
            rw [there] at failed
            obtain ⟨inner, last, reaches, breaks⟩ := ih _ (List.getElem_mem _) failed
            exact ⟨inner, last, .chosen came selected there reaches, breaks⟩

/- Words. -/

namespace Wordbook

variable [Shown α] {book : Wordbook σ α} {values : String → Option α}

theorem Means.isPlain {count : Nat} {s : Symbol σ α} (means : book.Means count s) :
    s.IsPlain count := by
  cases means with
  | operand value => exact .strict (Symbol.isStrict_operand value)
  | name label => exact .strict (Symbol.isStrict_variable label)
  | word lends reads => exact .strict (lends.acts.isStrict reads)
  | branch _ positive _ _ =>
    obtain ⟨others, rfl⟩ := Nat.exists_eq_add_one.mpr positive
    exact .branch _

/-- How the root of a tree of words fails itself: a name without a value, a word whose operands
have values that it refuses, or a branch that chooses none of its parameters. -/
inductive Refuses (book : Wordbook σ α) (values : String → Option α) (cause : Failure) :
    Tree (Symbol σ α) → σ → Prop where
  | name {label : String} {state : σ} :
      cause = .unknownVariable label → Refuses book values cause (.node (.variable label) []) state
  | word {label : String} {meaning : Meaning σ α} {s : Symbol σ α} {cs : List (Tree (Symbol σ α))}
      {operands : List α} {state reached : σ} :
      (label, meaning) ∈ book.meanings → meaning.Reads operands.length → s.Acts label meaning →
      (cs.mapM (Tree.evaluate values)).run state = (.ok operands, reached) →
      (((meaning.give label operands).start []).run reached).1 = .error cause →
        Refuses book values cause (.node s cs) state
  | branch {b : Branch σ α} {word : String × Arity × (α → Except Failure Selection)}
      {c : Tree (Symbol σ α)} {cs : List (Tree (Symbol σ α))} {value : α} {state reached : σ} :
      word ∈ book.branches → b.label = word.1 →
      (c.evaluate values).run state = (.ok value, reached) →
      word.2.2 value >>= Tree.chosen b.label (cs.length + 1) = .error cause →
        Refuses book values cause (.node (.call (.branch b)) (c :: cs)) state

theorem Means.refuses {s : Symbol σ α} {cs : List (Tree (Symbol σ α))}
    (means : book.Means cs.length s)
    {state : σ} {cause : Failure} (breaks : (Tree.node s cs).Breaks values cause state) :
    book.Refuses values cause (.node s cs) state := by
  cases breaks with
  | selected came failed =>
    cases means with
    | word lends => cases lends
    | branch member _ label choice =>
      rw [Branch.run_select choice] at failed
      exact .branch member label came failed
  | applied strict came failed =>
    have full := Effect.length_of_run_mapM came
    generalize count : cs.length = n at means
    cases means with
    | operand value => cases failed
    | name label =>
      obtain rfl := List.length_eq_zero_iff.mp count
      rw [Tree.apply] at failed
      split at failed
      · cases failed
      · cases failed
        exact .name rfl
    | word lends reads =>
      have enough := (full.trans count).symm ▸ reads
      rw [lends.acts.apply_pure values enough] at failed
      exact .word lends.mem enough lends.acts came failed
    | branch => exact absurd rfl (strict.noBranch _)

end Wordbook

theorem Tree.Reaches.all {P : Nat → Symbol σ α → Prop} {values : String → Option α}
    {t inner : Tree (Symbol σ α)} {state last : σ} (reaches : t.Reaches values state inner last)
    (all : t.All P) : inner.All P := by
  induction reaches with
  | here => exact all
  | operand _ _ _ ih =>
    cases all with
    | node _ each => exact ih (each _ (by simp))
  | selector _ ih =>
    cases all with
    | node _ each => exact ih (each _ List.mem_cons_self)
  | chosen _ _ there _ ih =>
    cases all with
    | node _ each => exact ih (each _ (List.mem_of_getElem? there))

/-- An evaluation over words fails as a node that it reaches refuses its operands. -/
theorem Wordbook.exists_refuses [Shown α] {book : Wordbook σ α} {values : String → Option α}
    {t : Tree (Symbol σ α)} (means : t.All book.Means) {state : σ} {cause : Failure}
    (failed : ((t.evaluate values).run state).1 = .error cause) :
    ∃ inner reached, t.Reaches values state inner reached ∧
      book.Refuses values cause inner reached := by
  obtain ⟨inner, reached, reaches, breaks⟩ :=
    (Tree.fails_iff (means.mono fun _ _ here => here.isPlain)).mp failed
  cases reaches.all means with
  | node here _ => exact ⟨_, reached, reaches, here.refuses breaks⟩

/-- While the expression is evaluated from a state, the evaluation of the tree begins in another
state. -/
def Expression.Reaches (e : Expression σ α) (bindings : List (String × α)) (state : σ)
    (t : Tree (Symbol σ α)) (reached : σ) : Prop :=
  e.root.Reaches (valueOf bindings e.constants) state t reached

/-- The evaluation reaches a node that does what the word means, and the operands of the node have
these values. -/
def Expression.Applies [Shown α] (e : Expression σ α) (bindings : List (String × α)) (state : σ)
    (word : String × Meaning σ α) (operands : List α) : Prop :=
  ∃ s cs reached last, e.Reaches bindings state (.node s cs) reached ∧ s.Acts word.1 word.2 ∧
    word.2.Reads operands.length ∧
    (cs.mapM (Tree.evaluate (valueOf bindings e.constants))).run reached = (.ok operands, last)

/-- Where a word that is applied fails, the whole evaluation fails. -/
theorem Expression.Applies.fails [Shown α] {e : Expression σ α} {bindings : List (String × α)}
    {state : σ} {word : String × Meaning σ α} {operands : List α}
    (applies : e.Applies bindings state word operands) {cause : Failure}
    (failed : word.2.give word.1 operands = .fail cause) :
    ((e.evaluate bindings).run state).1 = .error cause := by
  obtain ⟨s, cs, reached, last, reaches, acts, reads, came⟩ := applies
  have strict := acts.isStrict reads
  rw [Effect.length_of_run_mapM came] at strict
  refine reaches.fails (Tree.Breaks.fails (.applied strict came ?_))
  rw [acts.apply_pure _ reads, failed]
  rfl

/- Orderly words. -/

namespace Meaning

theorem run_conclude_eq_ok_iff {label shown : String} {outcome : Outcome α} {value : α}
    {state last : σ} :
    ((conclude label shown outcome : Action σ α α).start []).run state = (.ok value, last) ↔
      outcome = .ok value ∧ state = last := by
  cases outcome with
  | ok result =>
    change (Except.ok result, state) = _ ↔ _
    simp
  | error refusal =>
    change (Except.error _, state) = _ ↔ _
    simp

theorem isOfWord_of_conclude {outcome : Outcome α} (orderly : outcome.IsOrderly)
    {label shown : String} {state : σ} {cause : Failure}
    (failed : (((conclude label shown outcome : Action σ α α).start []).run state).1 =
      .error cause) : cause.isOfWord = true := by
  cases orderly with
  | ok value => cases failed
  | refused holds =>
    cases failed
    exact holds.isOfWord label shown

/-- A word that reads its operands and is orderly with some number of them fails as words do. -/
theorem IsOrderly.isOfWord_give [Shown α] {meaning : Meaning σ α} {some_ : Nat}
    (orderly : meaning.IsOrderly some_) {operands : List α} (reads : meaning.Reads operands.length)
    {label : String} {state : σ} {cause : Failure}
    (failed : (((meaning.give label operands).start []).run state).1 = .error cause) :
    cause.isOfWord = true := by
  cases meaning with
  | same =>
    obtain ⟨x, rfl⟩ := List.length_eq_one_iff.mp reads
    cases failed
  | unary f =>
    obtain ⟨x, rfl⟩ := List.length_eq_one_iff.mp reads
    exact isOfWord_of_conclude (orderly.2 x) failed
  | binary f =>
    obtain ⟨x, y, rfl⟩ := List.length_eq_two.mp reads
    exact isOfWord_of_conclude (orderly.2 x y) failed
  | ternary f =>
    obtain ⟨x, y, z, rfl⟩ := List.length_eq_three.mp reads
    cases given : f x y z with
    | ok value =>
      simp only [give, given] at failed
      cases failed
    | error other =>
      simp only [give, given] at failed
      cases failed
      exact orderly.2 x y z _ given
  | aggregate f => exact isOfWord_of_conclude (orderly operands) failed
  | drawn draw => cases failed

theorem IsOrderly.stage_give [Shown α] {meaning : Meaning σ α} {some_ : Nat}
    (orderly : meaning.IsOrderly some_) {operands : List α} (reads : meaning.Reads operands.length)
    {label : String} {state : σ} {cause : Failure}
    (failed : (((meaning.give label operands).start []).run state).1 = .error cause) :
    cause.stage = .evaluation :=
  Failure.stage_of_isOfWord (orderly.isOfWord_give reads failed)

end Meaning

end InfixCalc
