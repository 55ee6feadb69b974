import InfixCalc.Proofs.Evaluation.Reached

/-!
# Values that are carried along

A property that every symbol of a tree hands on, from its operands to its value, holds of all values
that come up in an evaluation. A relation that every symbol hands on, from the operands of two
evaluations to their values, holds between what they come to.
-/

namespace InfixCalc

variable {σ α : Type}

/-- For operands with the property the symbol gives a value with the property. -/
structure Symbol.Preserves (values : String → Option α) (P : α → Prop) (count : Nat)
    (s : Symbol σ α) : Prop where
  plain : s.IsPlain count
  preserved : s.IsStrict count → ∀ {operands : List α} {state last : σ} {value : α},
    operands.length = count → (∀ x ∈ operands, P x) →
      (Tree.apply values s (operands.map pure)).run state = (.ok value, last) → P value

/-- For related operands the symbol gives related values. The second one depends on no state, and
changes none. -/
structure Symbol.Carries (values other : String → Option α) (R : α → α → Prop) (count : Nat)
    (s : Symbol σ α) : Prop where
  strict : s.IsStrict count
  carried : ∀ {operands images : List α} {state last : σ} {value : α}, operands.length = count →
    List.Forall₂ R operands images →
    (Tree.apply values s (operands.map pure)).run state = (.ok value, last) →
      ∃ image, R value image ∧ ∀ start,
        (Tree.apply other s (images.map pure)).run start = (.ok image, start)

namespace Tree

variable {values other : String → Option α} {P : α → Prop} {R : α → α → Prop}

/- Properties. -/

theorem run_mapM_preserved {cs : List (Tree (Symbol σ α))} {operands : List α} {state last : σ}
    (each : ∀ c ∈ cs, ∀ {state last : σ} {value : α},
      (c.evaluate values).run state = (.ok value, last) → P value)
    (came : (cs.mapM (evaluate values)).run state = (.ok operands, last)) :
    ∀ x ∈ operands, P x := by
  induction cs generalizing state operands with
  | nil =>
    cases came
    exact List.forall_mem_nil _
  | cons c cs ih =>
    obtain ⟨value, reached, others, first, rest, rfl⟩ := Effect.run_mapM_cons_eq_ok_iff.mp came
    exact List.forall_mem_cons.mpr ⟨each c List.mem_cons_self first,
      ih (fun d inside => each d (List.mem_cons_of_mem _ inside)) rest⟩

theorem All.preserved {t : Tree (Symbol σ α)} (preserves : t.All (Symbol.Preserves values P))
    {state last : σ} {value : α} (came : (t.evaluate values).run state = (.ok value, last)) :
    P value := by
  induction preserves generalizing state last value with
  | @node s cs here _ ih =>
    generalize count : cs.length = n at here
    cases here.plain with
    | strict strict =>
      subst count
      rw [evaluate_strict strict] at came
      obtain ⟨operands, reached, ran, applied⟩ := Effect.run_bind_eq_ok_iff.mp came
      exact here.preserved strict (Effect.length_of_run_mapM ran) (run_mapM_preserved ih ran)
        applied
    | branch b =>
      obtain ⟨c, cs, rfl⟩ := List.exists_cons_of_length_eq_add_one count
      rw [evaluate_branch] at came
      obtain ⟨_, asked, _, came⟩ := Effect.run_bind_eq_ok_iff.mp came
      obtain ⟨index, reached, selected, came⟩ := Effect.run_bind_eq_ok_iff.mp came
      have small : index < (c :: cs).length := lt_of_select selected
      rw [List.getElem?_eq_getElem small] at came
      exact ih _ (List.getElem_mem _) came

/-- Where an evaluation reaches a node, all operands of the node that have values have such. -/
theorem Reaches.preserved {t : Tree (Symbol σ α)} {s : Symbol σ α}
    {cs : List (Tree (Symbol σ α))} {operands : List α} {state reached last : σ}
    (reaches : t.Reaches values state (.node s cs) reached)
    (preserves : t.All (Symbol.Preserves values P))
    (came : (cs.mapM (evaluate values)).run reached = (.ok operands, last)) :
    ∀ x ∈ operands, P x := by
  cases reaches.all preserves with
  | node _ each => exact run_mapM_preserved (fun c inside => (each c inside).preserved) came

/- Relations. -/

theorem run_mapM_carried {cs : List (Tree (Symbol σ α))} {operands : List α} {state last : σ}
    (each : ∀ c ∈ cs, ∀ {state last : σ} {value : α},
      (c.evaluate values).run state = (.ok value, last) →
        ∃ image, R value image ∧ ∀ start, (c.evaluate other).run start = (.ok image, start))
    (came : (cs.mapM (evaluate values)).run state = (.ok operands, last)) :
    ∃ images, List.Forall₂ R operands images ∧ ∀ start,
      (cs.mapM (evaluate other)).run start = (.ok images, start) := by
  induction cs generalizing state operands with
  | nil =>
    cases came
    exact ⟨[], .nil, fun start => rfl⟩
  | cons c cs ih =>
    obtain ⟨value, reached, others, first, rest, rfl⟩ := Effect.run_mapM_cons_eq_ok_iff.mp came
    obtain ⟨image, related, runs⟩ := each c List.mem_cons_self first
    obtain ⟨images, relate, run⟩ := ih (fun d inside => each d (List.mem_cons_of_mem _ inside)) rest
    exact ⟨image :: images, .cons related relate, fun start =>
      Effect.run_mapM_cons_eq_ok_iff.mpr ⟨_, start, _, runs start, run start, rfl⟩⟩

theorem All.carried {t : Tree (Symbol σ α)} (carries : t.All (Symbol.Carries values other R))
    {state last : σ} {value : α} (came : (t.evaluate values).run state = (.ok value, last)) :
    ∃ image, R value image ∧ ∀ start, (t.evaluate other).run start = (.ok image, start) := by
  induction carries generalizing state last value with
  | @node s cs here _ ih =>
    rw [evaluate_strict here.strict] at came
    obtain ⟨operands, reached, ran, applied⟩ := Effect.run_bind_eq_ok_iff.mp came
    obtain ⟨images, relate, run⟩ := run_mapM_carried ih ran
    obtain ⟨image, related, applies⟩ :=
      here.carried (Effect.length_of_run_mapM ran) relate applied
    refine ⟨image, related, fun start => ?_⟩
    rw [evaluate_strict here.strict]
    exact Effect.run_bind_eq_ok_iff.mpr ⟨_, start, run start, applies start⟩

end Tree
end InfixCalc
