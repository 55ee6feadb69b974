import InfixCalc.Expression
import InfixCalc.Proofs.Effect
import InfixCalc.Proofs.Postorder

/-!
# What an evaluation enters

Every callback and every choice of a tree is made to write down where it stands as it is entered,
and to do then what it did before. An evaluation comes to the same with this record, and no place
is in the record twice, whatever the callbacks read and however often, as long as none of them reads
a parameter again that has failed.
-/

namespace InfixCalc

variable {σ α β γ : Type}

/-- The place of a node in a tree: the positions among the operands on the way up to the root. -/
abbrev Place := List Nat

namespace Action

/-- The action over a state that goes with a record, which it leaves as it is. -/
def recorded : Action σ α β → Action (σ × List Place) α β
  | .done value => .done value
  | .fail cause => .fail cause
  | .read index next => .read index fun outcome => (next outcome).recorded
  | .peek index next => .peek index fun value => (next value).recorded
  | .get next => .get fun both => (next both.1).recorded
  | .set state next => .get fun both => .set (state, both.2) next.recorded

/-- The action reads none of the failed parameters, and none again that fails when it is read, as an
action does that catches no failure. -/
inductive NeverRetries : List Nat → Action σ α β → Prop where
  | done {failed : List Nat} (value : β) : NeverRetries failed (.done value)
  | fail {failed : List Nat} (cause : Failure) : NeverRetries failed (.fail cause)
  | read {failed : List Nat} {index : Nat} {next : Except Failure α → Action σ α β} :
      index ∉ failed → (∀ value, NeverRetries failed (next (.ok value))) →
      (∀ cause, NeverRetries (index :: failed) (next (.error cause))) →
        NeverRetries failed (.read index next)
  | peek {failed : List Nat} {index : Nat} {next : Option α → Action σ α β} :
      (∀ value, NeverRetries failed (next value)) → NeverRetries failed (.peek index next)
  | get {failed : List Nat} {next : σ → Action σ α β} :
      (∀ state, NeverRetries failed (next state)) → NeverRetries failed (.get next)
  | set {failed : List Nat} {state : σ} {next : Action σ α β} :
      NeverRetries failed next → NeverRetries failed (.set state next)

/-- What passes a failure on does not retry. -/
theorem NeverRetries.parameter_bind {failed : List Nat} {index : Nat} {next : α → Action σ α β}
    (untried : index ∉ failed) (once : ∀ value, (next value).NeverRetries failed) :
    ((parameter index).bind next).NeverRetries failed :=
  .read untried once fun cause => .fail cause

/-- The action behind an entry in the record. -/
def entered (place : Place) (action : Action σ α β) : Action (σ × List Place) α β :=
  .get fun both => .set (both.1, both.2 ++ [place]) action.recorded

end Action

def Symbol.recorded (place : Place) : Symbol σ α → Symbol (σ × List Place) α
  | .operand value => .operand value
  | .variable label => .variable label
  | .operator op => .operator ⟨op.label, op.fixity, op.precedence,
      fun count => (op.body count).entered place, op.symbol⟩
  | .call (.function f) => .call (.function ⟨f.label, f.arity,
      fun count => (f.body count).entered place⟩)
  | .call (.branch b) => .call (.branch ⟨b.label, b.arity,
      fun value => (b.choice value).entered place⟩)

/-- Neither operators nor functions retry. A choice has no parameters. -/
def Symbol.NeverRetries : Symbol σ α → Prop
  | .operand _ | .variable _ | .call (.branch _) => True
  | .operator op => ∀ count, (op.body count).NeverRetries []
  | .call (.function f) => ∀ count, (f.body count).NeverRetries []

mutual

def Tree.recorded (place : Place) : Tree (Symbol σ α) → Tree (Symbol (σ × List Place) α)
  | .node s cs => .node (s.recorded place) (Tree.recordedAll place 0 cs)

def Tree.recordedAll (place : Place) (position : Nat) :
    List (Tree (Symbol σ α)) → List (Tree (Symbol (σ × List Place) α))
  | [] => []
  | c :: cs => Tree.recorded (position :: place) c :: Tree.recordedAll place (position + 1) cs

end

/-- The first effect does what the second one does and adds to the record places that it allows,
none of them twice. -/
def Records (allowed : Place → Prop) (recording : Effect (σ × List Place) β)
    (plain : Effect σ β) : Prop :=
  ∀ state record, ∃ added : List Place,
    recording.run (state, record) =
      ((plain.run state).1, (plain.run state).2, record ++ added) ∧
    added.Nodup ∧ ∀ place ∈ added, allowed place

namespace Records

theorem pure (value : β) (allowed : Place → Prop) :
    Records allowed (pure value) (pure value : Effect σ β) := by
  intro state record
  exact ⟨[], by simp [Effect.run_pure], .nil, by simp⟩

theorem throw (cause : Failure) (allowed : Place → Prop) :
    Records allowed (throw cause) (throw cause : Effect σ β) := by
  intro state record
  exact ⟨[], by simp [Effect.run_throw], .nil, by simp⟩

theorem mono {allowed more : Place → Prop} {recording : Effect (σ × List Place) β}
    {plain : Effect σ β} (records : Records allowed recording plain)
    (within : ∀ place, allowed place → more place) : Records more recording plain := by
  intro state record
  obtain ⟨added, same, once, inside⟩ := records state record
  exact ⟨added, same, once, fun place member => within place (inside place member)⟩

/-- What is recorded first and what is recorded later are different places. -/
theorem bind {first later allowed : Place → Prop} {recording : Effect (σ × List Place) β}
    {plain : Effect σ β} {recordingNext : β → Effect (σ × List Place) γ}
    {plainNext : β → Effect σ γ} (records : Records first recording plain)
    (next : ∀ value, Records later (recordingNext value) (plainNext value))
    (apart : ∀ place, first place → ¬ later place)
    (within : ∀ place, first place ∨ later place → allowed place) :
    Records allowed (recording >>= recordingNext) (plain >>= plainNext) := by
  intro state record
  obtain ⟨added, same, once, inside⟩ := records state record
  rw [Effect.run_bind, Effect.run_bind, same]
  cases ran : plain.run state with
  | mk outcome reached =>
    cases outcome with
    | error cause =>
      exact ⟨added, rfl, once, fun place member => within place (.inl (inside place member))⟩
    | ok value =>
      obtain ⟨more, sameNext, onceNext, insideNext⟩ := next value reached (record ++ added)
      refine ⟨added ++ more, ?_, ?_, ?_⟩
      · simp only
        rw [sameNext, List.append_assoc]
      · refine List.nodup_append.mpr ⟨once, onceNext, ?_⟩
        rintro place member _ memberNext rfl
        exact apart place (inside place member) (insideNext place memberNext)
      · intro place member
        rcases List.mem_append.mp member with here | there
        · exact within place (.inl (inside place here))
        · exact within place (.inr (insideNext place there))

theorem observing {allowed : Place → Prop} {recording : Effect (σ × List Place) β}
    {plain : Effect σ β} (records : Records allowed recording plain) :
    Records allowed (observing recording) (observing plain) := by
  intro state record
  obtain ⟨added, same, once, inside⟩ := records state record
  refine ⟨added, ?_, once, inside⟩
  rw [Effect.run_observing, Effect.run_observing, same]

theorem get {allowed : Place → Prop} {recordingNext : σ → Effect (σ × List Place) β}
    {plainNext : σ → Effect σ β}
    (next : ∀ state, Records allowed (recordingNext state) (plainNext state)) :
    Records allowed (MonadStateOf.get >>= fun both : σ × List Place => recordingNext both.1)
      (MonadStateOf.get >>= plainNext) :=
  fun state record => next state state record

theorem set {allowed : Place → Prop} {recordingNext : Effect (σ × List Place) β}
    {plainNext : Effect σ β} (state : σ) (next : Records allowed recordingNext plainNext) :
    Records allowed
      (MonadStateOf.get >>= fun both : σ × List Place =>
        MonadStateOf.set (state, both.2) >>= fun _ => recordingNext)
      (MonadStateOf.set state >>= fun _ => plainNext) :=
  fun _ record => next state record

/-- Entering an action records its place in front of what the action records. -/
theorem entered {allowed : Place → Prop} {recordings : List (Effect (σ × List Place) α)}
    {plains : List (Effect σ α)} {known : List (Option α)} {action : Action σ α β}
    (records : Records allowed (action.recorded.run recordings known) (action.run plains known))
    {place : Place} (fresh : ¬ allowed place) :
    Records (fun other => other = place ∨ allowed other)
      ((action.entered place).run recordings known) (action.run plains known) := by
  intro state record
  obtain ⟨added, same, once, inside⟩ := records state (record ++ [place])
  refine ⟨place :: added, ?_, ?_, ?_⟩
  · rw [List.append_cons]
    exact same
  · exact List.nodup_cons.mpr ⟨fun member => fresh (inside place member), once⟩
  · intro other member
    exact (List.mem_cons.mp member).imp_right (inside other)

end Records

/-- The places at a node and below it. -/
def Under (top place : Place) : Prop := top <:+ place

theorem Under.of_child {position : Nat} {top place : Place}
    (under : Under (position :: top) place) :
    Under top place :=
  (List.suffix_cons position top).trans under

theorem Under.same_child {i j : Nat} {top place : Place} (first : Under (i :: top) place)
    (second : Under (j :: top) place) : i = j := by
  have suffix := List.suffix_of_suffix_length_le first second (by simp)
  exact (List.cons.inj (suffix.eq_of_length (by simp))).1

theorem not_under_child (position : Nat) (top : Place) : ¬ Under (position :: top) top := by
  intro under
  have long := under.length_le
  rw [List.length_cons] at long
  omega

/-- The parameters of a node, each recording the places below its own. -/
structure Parameters (top : Place) (recordings : List (Effect (σ × List Place) α))
    (plains : List (Effect σ α)) : Prop where
  length : recordings.length = plains.length
  each : ∀ index recording plain, recordings[index]? = some recording →
    plains[index]? = some plain → Records (Under (index :: top)) recording plain

namespace Parameters

variable {top : Place} {recordings : List (Effect (σ × List Place) α)}
  {plains : List (Effect σ α)}

theorem cases_at (given : Parameters top recordings plains) (index : Nat) :
    recordings[index]? = none ∧ plains[index]? = none ∨
      ∃ recording plain, recordings[index]? = some recording ∧ plains[index]? = some plain ∧
        Records (Under (index :: top)) recording plain := by
  rcases Nat.lt_or_ge index plains.length with less | large
  · have lessToo : index < recordings.length := given.length ▸ less
    have first := List.getElem?_eq_getElem lessToo
    have second := List.getElem?_eq_getElem less
    exact .inr ⟨_, _, first, second, given.each index _ _ first second⟩
  · have largeToo : recordings.length ≤ index := given.length ▸ large
    exact .inl ⟨List.getElem?_eq_none largeToo, List.getElem?_eq_none large⟩

/-- What is still unread when a value has been kept was unread before, and is not that value. -/
theorem unread_of_set {known : List (Option α)} {index other : Nat} {value : α}
    (still : (known.set index (some value))[other]? = some none) :
    other ≠ index ∧ known[other]? = some none := by
  by_cases same : index = other
  · subst same
    rw [List.getElem?_set_self'] at still
    obtain ⟨_, _, never⟩ := Option.map_eq_some_iff.mp still
    cases never
  · rw [List.getElem?_set_ne same] at still
    exact ⟨Ne.symm same, still⟩

/-- An action that never retries records places below the parameters that have neither been read
before nor failed. -/
theorem run (given : Parameters top recordings plains) {failed : List Nat} {action : Action σ α β}
    (once : action.NeverRetries failed) (known : List (Option α))
    (full : known.length = plains.length) :
    Records
      (fun place => ∃ index, known[index]? = some none ∧ index ∉ failed ∧
        Under (index :: top) place)
      (action.recorded.run recordings known) (action.run plains known) := by
  induction once generalizing known with
  | done value => exact .pure value _
  | fail cause => exact .throw cause _
  | @read failed index next fresh _ _ ihOk ihError =>
    rw [Action.recorded, Action.run, Action.run]
    -- After a failure, too, nothing is recorded below the parameter that has just been read.
    have failing (cause : Failure) : Records
        (fun place => ∃ other, other ≠ index ∧ known[other]? = some none ∧ other ∉ failed ∧
          Under (other :: top) place)
        ((next (.error cause)).recorded.run recordings known)
        ((next (.error cause)).run plains known) := by
      refine (ihError cause known full).mono ?_
      rintro place ⟨other, still, untried, there⟩
      rw [List.mem_cons, not_or] at untried
      exact ⟨other, untried.1, still, untried.2, there⟩
    rcases given.cases_at index with
      ⟨noRecording, noPlain⟩ | ⟨recording, plain, first, second, records⟩
    · have unknown : known[index]? = none :=
        List.getElem?_eq_none (full ▸ List.getElem?_eq_none_iff.mp noPlain)
      simp only [unknown, noRecording, noPlain]
      exact (failing _).mono fun place ⟨other, _, there⟩ => ⟨other, there⟩
    · cases unread : known[index]? with
      | none =>
        have large := List.getElem?_eq_none_iff.mp unread
        have less := (List.getElem?_eq_some_iff.mp second).1
        omega
      | some state =>
        cases state with
        | some value => exact ihOk value known full
        | none =>
          simp only [first, second]
          have later (outcome : Except Failure α) : Records
              (fun place => ∃ other, other ≠ index ∧ known[other]? = some none ∧ other ∉ failed ∧
                Under (other :: top) place)
              ((next outcome).recorded.run recordings (Action.keep known index outcome))
              ((next outcome).run plains (Action.keep known index outcome)) := by
            cases outcome with
            | error cause => exact failing cause
            | ok value =>
              refine (ihOk value _ (by simpa using full)).mono ?_
              rintro place ⟨other, still, untried, there⟩
              obtain ⟨differs, before⟩ := unread_of_set still
              exact ⟨other, differs, before, untried, there⟩
          refine records.observing.bind later ?_ ?_
          · rintro place here ⟨other, differs, _, _, there⟩
            exact differs (there.same_child here)
          · rintro place (here | ⟨other, _, there⟩)
            · exact ⟨index, unread, fresh, here⟩
            · exact ⟨other, there⟩
  | @peek failed index next _ ih =>
    rw [Action.recorded, Action.run, Action.run]
    cases known[index]? with
    | none => exact .throw _ _
    | some state => exact ih state known full
  | get _ ih => exact .get fun state => ih state known full
  | set _ ih => exact .set _ (ih known full)

/-- A callback that is entered records its own place and places below its parameters. -/
theorem start (given : Parameters top recordings plains) {action : Action σ α β}
    (once : action.NeverRetries []) :
    Records (Under top) ((action.entered top).start recordings) (action.start plains) := by
  have unread : (recordings.map fun _ => (none : Option α)) = plains.map fun _ => none := by
    rw [List.map_const', List.map_const', given.length]
  unfold Action.start
  rw [unread]
  have records := given.run once (plains.map fun _ => none) (List.length_map _)
  refine (records.entered ?_).mono ?_
  · rintro ⟨index, _, _, under⟩
    exact not_under_child index top under
  · rintro place (rfl | ⟨index, _, _, under⟩)
    · exact List.suffix_rfl
    · exact under.of_child

end Parameters

theorem Tree.one_le_chosen {label : String} {count index : Nat} {selection : Selection}
    (chose : chosen label count selection = .ok index) : 1 ≤ index := by
  unfold chosen at chose
  split at chose
  · cases chose
  · split at chose
    · cases chose
      omega
    · split at chose <;> cases chose

theorem Tree.chosen_lt {label : String} {count index : Nat} {selection : Selection}
    (chose : chosen label count selection = .ok index) : index < count := by
  unfold chosen at chose
  split at chose
  · cases chose
  · split at chose
    · cases chose
      omega
    · split at chose <;> cases chose

theorem records_run_nil (action : Action σ α β) :
    Records (fun _ => False) (action.recorded.run [] []) (action.run [] []) := by
  induction action with
  | done value => exact .pure value _
  | fail cause => exact .throw cause _
  | read index next ih => exact ih (.error .missingParameter)
  | peek index next ih => exact .throw _ _
  | get next ih => exact .get ih
  | set state next ih => exact .set state ih

/-- The choice of a branch has no parameters, so it records its own place only. -/
theorem records_choice (top : Place) (action : Action σ α β) :
    Records (fun place => place = top) ((action.entered top).start []) (action.start []) :=
  ((records_run_nil action).entered not_false).mono fun _ either => either.resolve_right not_false

namespace Tree

theorem evaluateAll_eq_map (values : String → Option α) (cs : List (Tree (Symbol σ α))) :
    evaluateAll values cs = cs.map (evaluate values) := by
  induction cs with
  | nil => rfl
  | cons c cs ih => rw [evaluateAll, ih, List.map_cons]

/-- The parameter that a branch takes for what its choice has given. -/
def taken (label : String) (parameters : List (Effect σ α)) (selection : Selection) :
    Effect σ α :=
  match chosen label parameters.length selection with
  | .error cause => throw cause
  | .ok index =>
    match parameters[index]? with
    | some parameter => parameter
    | none => throw .missingParameter

theorem apply_branch (values : String → Option α) (b : Branch σ α) (selector : Effect σ α)
    (others : List (Effect σ α)) :
    apply values (.call (.branch b)) (selector :: others) =
      selector >>= fun value => (b.choice value).start [] >>=
        taken b.label (selector :: others) := rfl

end Tree

namespace Parameters

variable {top : Place} {recordings : List (Effect (σ × List Place) α)}
  {plains : List (Effect σ α)}

theorem taken (given : Parameters top recordings plains) (label : String)
    (selection : Selection) :
    Records (fun place => ∃ index, 1 ≤ index ∧ Under (index :: top) place)
      (Tree.taken label recordings selection) (Tree.taken label plains selection) := by
  unfold Tree.taken
  rw [given.length]
  cases chose : Tree.chosen label plains.length selection with
  | error cause => exact .throw cause _
  | ok index =>
    rcases given.cases_at index with ⟨no, noToo⟩ | ⟨recording, plain, found, foundToo, records⟩
    · simp only [no, noToo]
      exact .throw _ _
    · simp only [found, foundToo]
      exact records.mono fun place under => ⟨index, Tree.one_le_chosen chose, under⟩

theorem choose (given : Parameters top recordings plains) (label : String)
    (action : Action σ α Selection) :
    Records (fun place => place = top ∨ ∃ index, 1 ≤ index ∧ Under (index :: top) place)
      ((action.entered top).start [] >>= Tree.taken label recordings)
      (action.start [] >>= Tree.taken label plains) := by
  refine (records_choice top action).bind (given.taken label) ?_ fun _ either => either
  rintro place rfl ⟨index, _, under⟩
  exact not_under_child index _ under

/-- A branch enters its selector, then its choice, then one of the other parameters. -/
theorem branch (given : Parameters top recordings plains) (values : String → Option α)
    (b : Branch σ α) :
    Records (Under top)
      (Tree.apply values (Symbol.recorded top (.call (.branch b))) recordings)
      (Tree.apply values (.call (.branch b)) plains) := by
  rw [Symbol.recorded]
  rcases recordings with _ | ⟨recording, others⟩
  · obtain rfl := List.length_eq_zero_iff.mp given.length.symm
    exact .throw _ _
  · rcases plains with _ | ⟨plain, othersPlain⟩
    · cases given.length
    · rw [Tree.apply_branch, Tree.apply_branch]
      have selector := given.each 0 recording plain rfl rfl
      refine selector.bind (fun value => given.choose b.label (b.choice value)) ?_ ?_
      · rintro place under (rfl | ⟨index, positive, other⟩)
        · exact not_under_child 0 _ under
        · have same := under.same_child other
          omega
      · rintro place (under | rfl | ⟨index, _, under⟩)
        · exact under.of_child
        · exact List.suffix_rfl
        · exact under.of_child

theorem apply (given : Parameters top recordings plains) (values : String → Option α)
    {s : Symbol σ α} (once : s.NeverRetries) :
    Records (Under top) (Tree.apply values (s.recorded top) recordings)
      (Tree.apply values s plains) := by
  cases s with
  | operand value => exact .pure value _
  | «variable» label =>
    rw [Symbol.recorded, Tree.apply, Tree.apply]
    cases values label with
    | some value => exact .pure value _
    | none => exact .throw _ _
  | operator op =>
    rw [Symbol.recorded, Tree.apply, Tree.apply, given.length]
    exact given.start (once plains.length)
  | call callable =>
    cases callable with
    | function f =>
      rw [Symbol.recorded, Tree.apply, Tree.apply, given.length]
      exact given.start (once plains.length)
    | branch b => exact given.branch values b

end Parameters

namespace Tree

theorem records_evaluateAll (values : String → Option α) (top : Place) (position : Nat)
    {cs : List (Tree (Symbol σ α))}
    (each : ∀ c ∈ cs, ∀ place,
      Records (Under place) ((c.recorded place).evaluate values) (c.evaluate values)) :
    (evaluateAll values (recordedAll top position cs)).length = (evaluateAll values cs).length ∧
    ∀ index recording plain,
      (evaluateAll values (recordedAll top position cs))[index]? = some recording →
      (evaluateAll values cs)[index]? = some plain →
        Records (Under ((position + index) :: top)) recording plain := by
  induction cs generalizing position with
  | nil => exact ⟨rfl, fun _ _ _ never => nomatch never⟩
  | cons c cs ih =>
    obtain ⟨length, others⟩ := ih (position + 1) fun d member =>
      each d (List.mem_cons_of_mem _ member)
    rw [recordedAll, evaluateAll, evaluateAll]
    refine ⟨congrArg Nat.succ length, ?_⟩
    intro index recording plain found foundToo
    cases index with
    | zero =>
      cases found
      cases foundToo
      exact each c List.mem_cons_self (position :: top)
    | succ index =>
      have records := others index recording plain found foundToo
      rwa [Nat.add_right_comm] at records

theorem records_evaluate (values : String → Option α) {t : Tree (Symbol σ α)}
    (once : ∀ s ∈ t.postorder, s.NeverRetries) (place : Place) :
    Records (Under place) ((t.recorded place).evaluate values) (t.evaluate values) := by
  induction t generalizing place with
  | node s cs ih =>
    rw [recorded, evaluate, evaluate]
    have below (c : Tree (Symbol σ α)) (child : c ∈ cs) (place : Place) :=
      ih c child
        (fun other inside => once other (mem_postorder.mpr (.inl ⟨c, child, inside⟩))) place
    obtain ⟨length, each⟩ := records_evaluateAll values place 0 below
    have given : Parameters place (evaluateAll values (recordedAll place 0 cs))
        (evaluateAll values cs) := by
      refine ⟨length, ?_⟩
      intro index recording plain found foundToo
      have records := each index recording plain found foundToo
      rwa [Nat.zero_add] at records
    exact given.apply values (once s (mem_postorder.mpr (.inr rfl)))

end Tree

end InfixCalc
