import InfixCalc.Action

/-!
# Running effects

An effect that runs from a state gives an outcome and the state that it leaves behind, also where
it fails: what has been done before a failure stays done.
-/

namespace InfixCalc

namespace Effect

variable {σ α β γ : Type}

theorem run_pure (value : α) (state : σ) :
    (pure value : Effect σ α).run state = (.ok value, state) := rfl

theorem run_throw (cause : Failure) (state : σ) :
    (throw cause : Effect σ α).run state = (.error cause, state) := rfl

theorem run_require (outcome : Except Failure α) (state : σ) :
    (require outcome : Effect σ α).run state = (outcome, state) := rfl

theorem run_get (state : σ) : (get : Effect σ σ).run state = (.ok state, state) :=
  rfl

theorem run_bind (first : Effect σ α) (next : α → Effect σ β) (state : σ) :
    (first >>= next).run state =
      match first.run state with
      | (.ok value, later) => (next value).run later
      | (.error cause, later) => (.error cause, later) := by
  rw [ExceptT.run_bind]
  cases ran : first.run state with
  | mk outcome later =>
    cases outcome with
    | ok value => simp [bind, StateT.bind, ran]
    | error cause =>
      simp only [bind, StateT.bind, ran]
      rfl

theorem run_bind_of_ok {first : Effect σ α} {state reached : σ} {value : α}
    (came : first.run state = (.ok value, reached)) (next : α → Effect σ β) :
    (first >>= next).run state = (next value).run reached := by
  rw [run_bind, came]

theorem run_bind_of_error {first : Effect σ α} {state reached : σ} {cause : Failure}
    (failed : first.run state = (.error cause, reached)) (next : α → Effect σ β) :
    (first >>= next).run state = (.error cause, reached) := by
  rw [run_bind, failed]

theorem run_bind_eq_ok_iff {first : Effect σ α} {next : α → Effect σ β} {state last : σ}
    {result : β} : (first >>= next).run state = (.ok result, last) ↔
      ∃ value reached, first.run state = (.ok value, reached) ∧
        (next value).run reached = (.ok result, last) := by
  rw [run_bind]
  cases ran : first.run state with
  | mk outcome reached =>
    cases outcome with
    | ok value => exact ⟨fun came => ⟨_, _, rfl, came⟩, fun ⟨_, _, rfl, came⟩ => came⟩
    | error cause => exact ⟨fun came => (nomatch came), fun ⟨_, _, other, _⟩ => nomatch other⟩

theorem run_bind_fails_iff {first : Effect σ α} {next : α → Effect σ β} {state : σ}
    {cause : Failure} : ((first >>= next).run state).1 = .error cause ↔
      (first.run state).1 = .error cause ∨
        ∃ value reached, first.run state = (.ok value, reached) ∧
          ((next value).run reached).1 = .error cause := by
  rw [run_bind]
  cases ran : first.run state with
  | mk outcome reached =>
    cases outcome with
    | ok value =>
      exact ⟨fun failed => .inr ⟨_, _, rfl, failed⟩,
        fun either => either.elim (fun never => nomatch never) fun ⟨_, _, rfl, failed⟩ => failed⟩
    | error other =>
      refine ⟨fun failed => .inl ?_, fun either =>
        either.elim (fun failed => ?_) fun ⟨_, _, never, _⟩ => nomatch never⟩
      · cases failed
        rfl
      · cases failed
        rfl

/-- Observing an effect never fails and leaves the state that the effect leaves. -/
theorem run_observing (effect : Effect σ α) (state : σ) :
    (observing effect).run state = (.ok (effect.run state).1, (effect.run state).2) := by
  have noted := run_bind effect (fun value => pure (Except.ok (ε := Failure) value)) state
  rw [observing, ExceptT.run_tryCatch]
  simp only [bind, StateT.bind] at noted ⊢
  rw [noted]
  cases ran : effect.run state with
  | mk outcome reached => cases outcome <;> rfl

/-- What follows an observed effect begins in the state that it leaves, with its outcome. -/
theorem run_observing_bind (effect : Effect σ α) (next : Except Failure α → Effect σ β)
    (state : σ) : (observing effect >>= next).run state =
      (next (effect.run state).1).run (effect.run state).2 := by
  rw [run_bind, run_observing]

/- One effect for each element of a list. -/

variable {f : γ → Effect σ α} {x : γ} {xs : List γ} {state : σ}

theorem run_mapM_cons_eq_ok_iff {values : List α} {last : σ} :
    ((x :: xs).mapM f).run state = (.ok values, last) ↔
      ∃ value reached others, (f x).run state = (.ok value, reached) ∧
        (xs.mapM f).run reached = (.ok others, last) ∧ values = value :: others := by
  rw [List.mapM_cons, run_bind_eq_ok_iff]
  simp only [run_bind_eq_ok_iff]
  constructor
  · rintro ⟨value, reached, first, others, _, rest, same⟩
    cases same
    exact ⟨value, reached, others, first, rest, rfl⟩
  · rintro ⟨value, reached, others, first, rest, rfl⟩
    exact ⟨value, reached, first, others, last, rest, rfl⟩

theorem length_of_run_mapM {values : List α} {last : σ}
    (came : (xs.mapM f).run state = (.ok values, last)) : values.length = xs.length := by
  induction xs generalizing state values with
  | nil =>
    cases came
    rfl
  | cons x xs ih =>
    obtain ⟨value, reached, others, _, rest, rfl⟩ := run_mapM_cons_eq_ok_iff.mp came
    rw [List.length_cons, List.length_cons, ih rest]

theorem run_mapM_cons_fails_iff {cause : Failure} :
    (((x :: xs).mapM f).run state).1 = .error cause ↔
      ((f x).run state).1 = .error cause ∨
        ∃ value reached, (f x).run state = (.ok value, reached) ∧
          ((xs.mapM f).run reached).1 = .error cause := by
  rw [List.mapM_cons, run_bind_fails_iff]
  simp only [run_bind_fails_iff]
  refine or_congr_right (exists_congr fun value => exists_congr fun reached =>
    and_congr_right fun _ => or_iff_left ?_)
  rintro ⟨_, _, _, never⟩
  cases never

end Effect
end InfixCalc
