import InfixCalc.Proofs.Frame.Formulas

/-!
# Frames in place

Formulas are assigned to a copy of a frame, column after column where the copy is. What comes of it
is what the assignment to a value gives, and all frames that were there before are as they were,
whether it comes to an end or fails on the way.
-/

namespace InfixCalc.FrameLibrary

/-- Frames, each at its address, and the state that evaluations share. -/
structure Store (F σ : Type) where
  frames : List F
  state : σ

/-- Work on a store, which may fail. It gets stuck where there is no frame at an address. -/
abbrev Work (F σ β : Type) := ExceptT Failure (StateT (Store F σ) Option) β

variable {A F S I K σ β γ : Type}

def read (address : Nat) : Work F σ F :=
  ExceptT.mk fun store => store.frames[address]?.map fun frame => (.ok frame, store)

/-- A new frame that is a copy of the one at the address. -/
def copyAt (frames : FrameLibrary A F S I K) (address : Nat) : Work F σ Nat :=
  ExceptT.mk fun store => store.frames[address]?.map fun frame =>
    (.ok store.frames.length, { store with frames := store.frames ++ [frames.copy frame] })

def setColumn (frames : FrameLibrary A F S I K) (address : Nat) (name : String) (series : S) :
    Work F σ Unit :=
  ExceptT.mk fun store => store.frames[address]?.map fun frame =>
    (.ok (), { store with
      frames := store.frames.set address (frames.insert frame (frames.label name) series) })

/-- An effect that does not look at frames. -/
def share (effect : Effect σ β) : Work F σ β :=
  ExceptT.mk fun store =>
    let (outcome, state) := effect.run store.state
    some (outcome, { store with state := state })

/-- Each formula is built, evaluated over the frame at the address as it is then, and told to the
log when its column has been set there. -/
def assignAllAt (frames : FrameLibrary A F S I K) (lib : ArrayLibrary A)
    (others : List (String × A)) :
    Builder σ A → Nat → List (String × String) → Work F σ Unit
  | _, _, [] => pure ()
  | b, address, (name, text) :: formulas =>
    let (built, b) := b.build text
    do
      let e ← share (require built)
      let frame ← read address
      let series ← share (frames.evaluate lib frame e others)
      setColumn frames address name series
      let _ ← share (require e.written)
      assignAllAt frames lib others b address formulas

/-- The address of a copy with the columns of the formulas. -/
def assignAt (frames : FrameLibrary A F S I K) (lib : ArrayLibrary A) (address : Nat)
    (b : Builder σ A) (formulas : Entries String) (others : List (String × A)) :
    Work F σ Nat := do
  let copy ← frames.copyAt address
  frames.assignAllAt lib others b copy formulas.toList
  return copy

/- What the steps do. -/

theorem run_bind (first : Work F σ β) (next : β → Work F σ γ) (store : Store F σ) :
    (first >>= next).run store = (first.run store).bind fun reached =>
      match reached.1 with
      | .ok value => (next value).run reached.2
      | .error cause => some (.error cause, reached.2) := by
  rw [ExceptT.run_bind]
  refine congrArg (Option.bind (first.run store)) (funext fun reached => ?_)
  obtain ⟨outcome, later⟩ := reached
  cases outcome <;> rfl

theorem run_bind_ok {first : Work F σ β} {store later : Store F σ} {value : β}
    (ran : first.run store = some (.ok value, later)) (next : β → Work F σ γ) :
    (first >>= next).run store = (next value).run later := by
  rw [run_bind, ran]
  rfl

theorem run_bind_error {first : Work F σ β} {store later : Store F σ} {cause : Failure}
    (ran : first.run store = some (.error cause, later)) (next : β → Work F σ γ) :
    (first >>= next).run store = some (.error cause, later) := by
  rw [run_bind, ran]
  rfl

variable {frames : FrameLibrary A F S I K} {lib : ArrayLibrary A} {stored : List F}
  {address : Nat} {frame : F}

theorem run_read (there : stored[address]? = some frame) (state : σ) :
    (read address).run ⟨stored, state⟩ = some (.ok frame, ⟨stored, state⟩) :=
  congrArg (Option.map _) there

theorem run_copyAt (there : stored[address]? = some frame) (state : σ) :
    (frames.copyAt address).run ⟨stored, state⟩ =
      some (.ok stored.length, ⟨stored ++ [frames.copy frame], state⟩) :=
  congrArg (Option.map _) there

theorem run_setColumn (there : stored[address]? = some frame) (name : String) (series : S)
    (state : σ) : (frames.setColumn address name series).run ⟨stored, state⟩ =
      some (.ok (), ⟨stored.set address (frames.insert frame (frames.label name) series),
        state⟩) :=
  congrArg (Option.map _) there

theorem run_share {effect : Effect σ β} {state later : σ} {outcome : Except Failure β}
    (ran : effect.run state = (outcome, later)) (stored : List F) :
    (share effect).run ⟨stored, state⟩ = some (outcome, ⟨stored, later⟩) := by
  rw [share, ExceptT.run_mk]
  simp only [ran]

theorem assignAllAt_eq (b : Builder σ A) (address : Nat) (name text : String)
    (formulas : List (String × String)) (others : List (String × A)) :
    frames.assignAllAt lib others b address ((name, text) :: formulas) = (do
      let e ← share (require (b.build text).1)
      let frame ← read address
      let series ← share (frames.evaluate lib frame e others)
      frames.setColumn address name series
      let _ ← share (require e.written)
      frames.assignAllAt lib others (b.build text).2 address formulas) := rfl

/-- With the frame in the last place, what is assigned there is what is assigned to the frame. -/
theorem run_assignAllAt (stored : List F) (frame : F) (b : Builder σ A)
    (formulas : List (String × String)) (others : List (String × A)) (state : σ) :
    ∃ copy, (frames.assignAllAt lib others b stored.length formulas).run
          ⟨stored ++ [frame], state⟩ =
        some (((frames.assignAll lib others b frame formulas).run state).1.map fun _ => (),
          ⟨stored ++ [copy], ((frames.assignAll lib others b frame formulas).run state).2⟩) ∧
      ∀ result, ((frames.assignAll lib others b frame formulas).run state).1 = .ok result →
        copy = result := by
  induction formulas generalizing b frame state with
  | nil =>
    refine ⟨frame, rfl, fun result came => ?_⟩
    cases came
    rfl
  | cons formula formulas ih =>
    obtain ⟨name, text⟩ := formula
    have there : (stored ++ [frame])[stored.length]? = some frame := List.getElem?_concat_length
    rw [assignAllAt_eq, assignAll_eq]
    cases built : (b.build text).1 with
    | error cause =>
      rw [run_bind_error (run_share (Effect.run_require _ _) _)]
      exact ⟨frame, rfl, fun result never => nomatch never⟩
    | ok e =>
      rw [run_bind_ok (run_share (Effect.run_require _ _) _), run_bind_ok (run_read there state),
        Effect.run_bind_of_ok (Effect.run_require _ _), Effect.run_bind]
      cases ran : (frames.evaluate lib frame e others).run state with
      | mk outcome later =>
        cases outcome with
        | error cause =>
          rw [run_bind_error (run_share ran _)]
          exact ⟨frame, rfl, fun result never => nomatch never⟩
        | ok series =>
          rw [run_bind_ok (run_share ran _), run_bind_ok (run_setColumn there name series later),
            List.set_append_right _ _ (Nat.le_refl _), Nat.sub_self, List.set_cons_zero]
          cases written : e.written with
          | error cause =>
            rw [run_bind_error (run_share (Effect.run_require _ _) _)]
            exact ⟨_, rfl, fun result never => nomatch never⟩
          | ok shown =>
            rw [run_bind_ok (run_share (Effect.run_require _ _) _)]
            exact ih _ _ _

/-- Formulas are assigned to a copy. It holds what they give, if they all give a column, and all
frames that were there before are as they were in any case. -/
theorem run_assignAt (there : stored[address]? = some frame) (b : Builder σ A)
    (formulas : Entries String) (others : List (String × A)) (state : σ) :
    ∃ copy, (frames.assignAt lib address b formulas others).run ⟨stored, state⟩ =
        some (((frames.assign lib frame b formulas others).run state).1.map fun _ =>
            stored.length,
          ⟨stored ++ [copy], ((frames.assign lib frame b formulas others).run state).2⟩) ∧
      ∀ result, ((frames.assign lib frame b formulas others).run state).1 = .ok result →
        copy = result := by
  obtain ⟨copy, ran, same⟩ :=
    run_assignAllAt stored (frames.copy frame) b formulas.toList others state
  refine ⟨copy, ?_, same⟩
  rw [assignAt, run_bind_ok (run_copyAt there state)]
  unfold assign
  generalize (frames.assignAll lib others b (frames.copy frame) formulas.toList).run state =
    outcome at ran
  obtain ⟨outcome | result, later⟩ := outcome
  · rw [run_bind_error ran]
    rfl
  · rw [run_bind_ok ran]
    rfl

end InfixCalc.FrameLibrary
