import InfixCalc.Proofs.Evaluation.Recorded

/-!
# Watched evaluations

Every node of a tree is made to write down when it is entered and with which value it is left, and
every branch what its choice is asked and gives. An evaluation comes to the same with this log. What
a node does is told as a course of steps: reads of parameters, each evaluated until it has a value,
and the state handed on from one to the next. Whatever holds of such courses holds of every
evaluation.
-/

namespace InfixCalc

variable {σ α β γ ρ : Type}

/-- What an evaluation does, and the place of the node that does it. -/
inductive Event (α : Type) where
  | entered (place : Place)
  | left (place : Place) (value : α)
  | asked (place : Place) (value : α)
  | chose (place : Place) (selection : Selection)
  deriving DecidableEq, Repr

def Event.place : Event α → Place
  | .entered place | .left place _ | .asked place _ | .chose place _ => place

abbrev Log (α : Type) := List (Event α)

namespace Action

/-- The action over a state that goes with something else, which it leaves as it is. -/
def beside : Action σ α β → Action (σ × ρ) α β
  | .done value => .done value
  | .fail cause => .fail cause
  | .read index next => .read index fun outcome => (next outcome).beside
  | .peek index next => .peek index fun value => (next value).beside
  | .get next => .get fun both => (next both.1).beside
  | .set state next => .get fun both => .set (state, both.2) next.beside

def note (event : Event α) (next : Action (σ × Log α) α β) : Action (σ × Log α) α β :=
  .get fun both => .set (both.1, both.2 ++ [event]) next

end Action

def Symbol.watched (place : Place) : Symbol σ α → Symbol (σ × Log α) α
  | .operand value => .operand value
  | .variable label => .variable label
  | .operator op => .operator ⟨op.label, op.fixity, op.precedence,
      fun count => (op.body count).beside, op.symbol⟩
  | .call (.function f) => .call (.function ⟨f.label, f.arity, fun count => (f.body count).beside⟩)
  | .call (.branch b) => .call (.branch ⟨b.label, b.arity, fun value =>
      .note (.asked place value) ((b.choice value).beside.bind fun selection =>
        .note (.chose place selection) (.done selection))⟩)

/-- A call that gives its only parameter and notes when it begins and when it ends. -/
def Symbol.watch (place : Place) : Symbol (σ × Log α) α :=
  .call (.function ⟨"", .exactly 1, fun _ =>
    .note (.entered place) ((Action.parameter 0).bind fun value =>
      .note (.left place value) (.done value))⟩)

mutual

def Tree.watched (place : Place) : Tree (Symbol σ α) → Tree (Symbol (σ × Log α) α)
  | .node s cs => .node (.watch place) [.node (s.watched place) (Tree.watchedAll place 0 cs)]

def Tree.watchedAll (place : Place) (position : Nat) :
    List (Tree (Symbol σ α)) → List (Tree (Symbol (σ × Log α) α))
  | [] => []
  | c :: cs => Tree.watched (position :: place) c :: Tree.watchedAll place (position + 1) cs

end

/-- A claim about the state that an effect begins in, what it comes to, and what it logs. -/
abbrev Claim (σ α β : Type) := σ → Except Failure β × σ → Log α → Prop

/-- The first effect does what the second one does, and its log bears out the claim. -/
def Watches (claim : Claim σ α β) (watching : Effect (σ × Log α) β) (plain : Effect σ β) : Prop :=
  ∀ state log, ∃ added : Log α,
    watching.run (state, log) = ((plain.run state).1, (plain.run state).2, log ++ added) ∧
      claim state (plain.run state) added

namespace Watches

variable {claim : Claim σ α β}

theorem pure {value : β} (holds : ∀ state, claim state (.ok value, state) []) :
    Watches claim (pure value) (pure value) := by
  intro state log
  exact ⟨[], by rw [Effect.run_pure, Effect.run_pure, List.append_nil], holds state⟩

theorem throw {cause : Failure} (holds : ∀ state, claim state (.error cause, state) []) :
    Watches claim (throw cause) (throw cause) := by
  intro state log
  exact ⟨[], by rw [Effect.run_throw, Effect.run_throw, List.append_nil], holds state⟩

theorem mono {weaker : Claim σ α β} {watching : Effect (σ × Log α) β} {plain : Effect σ β}
    (watches : Watches claim watching plain)
    (holds : ∀ state result log, claim state result log → weaker state result log) :
    Watches weaker watching plain := by
  intro state log
  obtain ⟨added, same, claimed⟩ := watches state log
  exact ⟨added, same, holds state _ added claimed⟩

/-- What is logged first stands before what is logged later, which begins in the state reached. -/
theorem bind {both : Claim σ α γ} {later : β → Claim σ α γ} {watching : Effect (σ × Log α) β}
    {plain : Effect σ β} {watchingNext : β → Effect (σ × Log α) γ} {plainNext : β → Effect σ γ}
    (watches : Watches claim watching plain)
    (next : ∀ value, Watches (later value) (watchingNext value) (plainNext value))
    (stops : ∀ state cause reached log, claim state (.error cause, reached) log →
      both state (.error cause, reached) log)
    (goesOn : ∀ state value reached result first second, claim state (.ok value, reached) first →
      later value reached result second → both state result (first ++ second)) :
    Watches both (watching >>= watchingNext) (plain >>= plainNext) := by
  intro state log
  obtain ⟨added, same, claimed⟩ := watches state log
  rw [Effect.run_bind, Effect.run_bind, same]
  cases ran : plain.run state with
  | mk outcome reached =>
    rw [ran] at claimed
    cases outcome with
    | error cause => exact ⟨added, rfl, stops state cause reached added claimed⟩
    | ok value =>
      obtain ⟨more, sameNext, claimedNext⟩ := next value reached (log ++ added)
      refine ⟨added ++ more, ?_, goesOn state value reached _ added more claimed claimedNext⟩
      simp only
      rw [sameNext, List.append_assoc]

/-- A failure that is observed is an outcome like others. -/
theorem observe {both : Claim σ α γ} {later : Except Failure β → Claim σ α γ}
    {watching : Effect (σ × Log α) β} {plain : Effect σ β}
    {watchingNext : Except Failure β → Effect (σ × Log α) γ}
    {plainNext : Except Failure β → Effect σ γ} (watches : Watches claim watching plain)
    (next : ∀ outcome, Watches (later outcome) (watchingNext outcome) (plainNext outcome))
    (goesOn : ∀ state outcome reached result first second, claim state (outcome, reached) first →
      later outcome reached result second → both state result (first ++ second)) :
    Watches both (observing watching >>= watchingNext) (observing plain >>= plainNext) := by
  intro state log
  obtain ⟨added, same, claimed⟩ := watches state log
  rw [Effect.run_observing_bind, Effect.run_observing_bind, same]
  cases ran : plain.run state with
  | mk outcome reached =>
    rw [ran] at claimed
    obtain ⟨more, sameNext, claimedNext⟩ := next outcome reached (log ++ added)
    refine ⟨added ++ more, ?_, goesOn state outcome reached _ added more claimed claimedNext⟩
    simp only
    rw [sameNext, List.append_assoc]

end Watches

/-- The parameters of a node, each with a claim of its own. -/
structure WatchedParameters (claims : Nat → Claim σ α α) (watchings : List (Effect (σ × Log α) α))
    (plains : List (Effect σ α)) : Prop where
  length : watchings.length = plains.length
  each : ∀ index watching plain, watchings[index]? = some watching →
    plains[index]? = some plain → Watches (claims index) watching plain

namespace Action

/-- The steps of an action that reads parameters of which claims hold; `known` holds the values that
it has read so far. -/
inductive Course (claims : Nat → Claim σ α α) :
    List (Option α) → Action σ α β → σ → Except Failure β × σ → Log α → Prop where
  | done {known : List (Option α)} {value : β} {state : σ} :
      Course claims known (.done value) state (.ok value, state) []
  | fail {known : List (Option α)} {cause : Failure} {state : σ} :
      Course claims known (.fail cause) state (.error cause, state) []
  | again {known : List (Option α)} {index : Nat} {value : α}
      {next : Except Failure α → Action σ α β} {state : σ} {result : Except Failure β × σ}
      {log : Log α} :
      known[index]? = some (some value) → Course claims known (next (.ok value)) state result log →
        Course claims known (.read index next) state result log
  | missing {known : List (Option α)} {index : Nat} {next : Except Failure α → Action σ α β}
      {state : σ} {result : Except Failure β × σ} {log : Log α} :
      known[index]? = none →
      Course claims known (next (.error .missingParameter)) state result log →
        Course claims known (.read index next) state result log
  | fresh {known : List (Option α)} {index : Nat} {outcome : Except Failure α}
      {next : Except Failure α → Action σ α β} {state reached : σ}
      {result : Except Failure β × σ} {log later : Log α} :
      known[index]? = some none → claims index state (outcome, reached) log →
      Course claims (keep known index outcome) (next outcome) reached result later →
        Course claims known (.read index next) state result (log ++ later)
  | unseen {known : List (Option α)} {index : Nat} {next : Option α → Action σ α β} {state : σ} :
      known[index]? = none →
        Course claims known (.peek index next) state (.error .missingParameter, state) []
  | seen {known : List (Option α)} {index : Nat} {value : Option α}
      {next : Option α → Action σ α β} {state : σ} {result : Except Failure β × σ} {log : Log α} :
      known[index]? = some value → Course claims known (next value) state result log →
        Course claims known (.peek index next) state result log
  | get {known : List (Option α)} {next : σ → Action σ α β} {state : σ}
      {result : Except Failure β × σ} {log : Log α} :
      Course claims known (next state) state result log →
        Course claims known (.get next) state result log
  | set {known : List (Option α)} {new : σ} {next : Action σ α β} {state : σ}
      {result : Except Failure β × σ} {log : Log α} :
      Course claims known next new result log →
        Course claims known (.set new next) state result log

end Action

namespace WatchedParameters

variable {claims : Nat → Claim σ α α} {watchings : List (Effect (σ × Log α) α)}
  {plains : List (Effect σ α)} (given : WatchedParameters claims watchings plains)
include given

theorem cases_at (index : Nat) :
    watchings[index]? = none ∧ plains[index]? = none ∨
      ∃ watching plain, watchings[index]? = some watching ∧ plains[index]? = some plain ∧
        Watches (claims index) watching plain := by
  cases found : plains[index]? with
  | none =>
    have large := given.length ▸ List.getElem?_eq_none_iff.mp found
    exact .inl ⟨List.getElem?_eq_none large, rfl⟩
  | some plain =>
    have less := given.length ▸ (List.getElem?_eq_some_iff.mp found).1
    have there := List.getElem?_eq_getElem less
    exact .inr ⟨_, plain, there, rfl, given.each index _ plain there found⟩

/-- An action takes a course over its parameters. -/
theorem course (action : Action σ α β) (known : List (Option α))
    (full : known.length = plains.length) :
    Watches (action.Course claims known) (action.beside.run watchings known)
      (action.run plains known) := by
  induction action generalizing known with
  | done value => exact .pure fun _ => .done
  | fail cause => exact .throw fun _ => .fail
  | read index next ih =>
    rw [Action.beside, Action.run, Action.run]
    cases unread : known[index]? with
    | none =>
      rcases given.cases_at index with ⟨noWatching, noPlain⟩ | ⟨_, _, _, found, _⟩
      · simp only [noWatching, noPlain]
        exact (ih (.error .missingParameter) known full).mono fun _ _ _ => .missing unread
      · have large := List.getElem?_eq_none_iff.mp unread
        have less := (List.getElem?_eq_some_iff.mp found).1
        omega
    | some value =>
      cases value with
      | some value => exact (ih (.ok value) known full).mono fun _ _ _ => .again unread
      | none =>
        rcases given.cases_at index with ⟨_, noPlain⟩ | ⟨watching, plain, there, found, watches⟩
        · have less := (List.getElem?_eq_some_iff.mp unread).1
          have large := List.getElem?_eq_none_iff.mp noPlain
          omega
        · simp only [there, found]
          have next (outcome : Except Failure α) :=
            ih outcome (Action.keep known index outcome)
              ((Action.length_keep known index outcome).trans full)
          exact watches.observe next fun _ _ _ _ _ _ => .fresh unread
  | peek index next ih =>
    rw [Action.beside, Action.run, Action.run]
    cases seen : known[index]? with
    | none => exact .throw fun _ => .unseen seen
    | some value => exact (ih value known full).mono fun _ _ _ => .seen seen
  | get next ih =>
    intro state log
    obtain ⟨added, same, course⟩ := ih state known full state log
    exact ⟨added, same, .get course⟩
  | set new next ih =>
    intro state log
    obtain ⟨added, same, course⟩ := ih known full new log
    exact ⟨added, same, .set course⟩

theorem course_start (action : Action σ α β) :
    Watches (action.Course claims (plains.map fun _ => none)) (action.beside.start watchings)
      (action.start plains) := by
  have unread : (watchings.map fun _ => (none : Option α)) = plains.map fun _ => none := by
    rw [List.map_const', List.map_const', given.length]
  unfold Action.start
  rw [unread]
  exact given.course action _ (List.length_map _)

end WatchedParameters

/- A choice has no parameters to read, so only what it is asked and what it gives is logged. -/

namespace Action

theorem run_beside_nil (action : Action σ α β) (state : σ) (other : ρ) :
    (action.beside.run [] []).run (state, other) =
      (((action.run [] []).run state).1, ((action.run [] []).run state).2, other) := by
  induction action generalizing state with
  | done value => rfl
  | fail cause => rfl
  | read index next ih => exact ih (.error .missingParameter) state
  | peek index next ih => rfl
  | get next ih => exact ih state state
  | set new next ih => exact ih new

theorem run_bind_nil (action : Action σ α β) (next : β → Action σ α γ) :
    (action.bind next).run [] [] = action.run [] [] >>= fun value => (next value).run [] [] := by
  funext state
  induction action generalizing state with
  | done value => rfl
  | fail cause => rfl
  | read index further ih => exact ih (.error .missingParameter) state
  | peek index further ih => rfl
  | get further ih => exact ih state state
  | set new further ih => exact ih new

end Action

/-- A choice is asked with a value and gives a selection, unless it fails. -/
inductive Branch.Asked (b : Branch σ α) (place : Place) (value : α) :
    σ → Except Failure Selection × σ → Log α → Prop where
  | failed {state reached : σ} {cause : Failure} :
      ((b.choice value).start []).run state = (.error cause, reached) →
        Asked b place value state (.error cause, reached) [.asked place value]
  | gave {state reached : σ} {selection : Selection} :
      ((b.choice value).start []).run state = (.ok selection, reached) →
        Asked b place value state (.ok selection, reached)
          [.asked place value, .chose place selection]

theorem Branch.asked (b : Branch σ α) (place : Place) (value : α) :
    Watches (b.Asked place value)
      ((Action.note (.asked place value) ((b.choice value).beside.bind fun selection =>
        .note (.chose place selection) (.done selection))).start [])
      ((b.choice value).start []) := by
  intro state log
  let noted (selection : Selection) : Action (σ × Log α) α Selection :=
    .note (.chose place selection) (.done selection)
  have bound : ((b.choice value).beside.bind noted).run [] [] =
      (b.choice value).beside.run [] [] >>= fun selection => (noted selection).run [] [] :=
    Action.run_bind_nil _ noted
  have ran : ((Action.note (.asked place value) ((b.choice value).beside.bind noted)).start []).run
      (state, log) = (((b.choice value).beside.bind noted).run [] []).run
        (state, log ++ [.asked place value]) := rfl
  rw [ran, bound, Effect.run_bind, Action.run_beside_nil]
  have plain : ((b.choice value).run [] []).run state = ((b.choice value).start []).run state := rfl
  rw [plain]
  cases chose : ((b.choice value).start []).run state with
  | mk outcome reached =>
    cases outcome with
    | error cause => exact ⟨_, rfl, .failed chose⟩
    | ok selection =>
      refine ⟨_, ?_, .gave chose⟩
      exact congrArg (fun further => (Except.ok selection, reached, further))
        (List.append_assoc log [.asked place value] [.chose place selection])

/-- The steps of a symbol at a place over as many parameters, of which claims hold. -/
inductive Symbol.Course (values : String → Option α) (claims : Nat → Claim σ α α) (place : Place)
    (count : Nat) : Symbol σ α → σ → Except Failure α × σ → Log α → Prop where
  | operand {value : α} {state : σ} :
      Course values claims place count (.operand value) state (.ok value, state) []
  | known {label : String} {value : α} {state : σ} :
      values label = some value →
        Course values claims place count (.variable label) state (.ok value, state) []
  | unknown {label : String} {state : σ} :
      values label = none → Course values claims place count (.variable label) state
        (.error (.unknownVariable label), state) []
  | operator {op : Operator σ α} {state : σ} {result : Except Failure α × σ} {log : Log α} :
      (op.body count).Course claims (List.replicate count none) state result log →
        Course values claims place count (.operator op) state result log
  | function {f : Function σ α} {state : σ} {result : Except Failure α × σ} {log : Log α} :
      (f.body count).Course claims (List.replicate count none) state result log →
        Course values claims place count (.call (.function f)) state result log
  | bare {b : Branch σ α} {state : σ} :
      count = 0 → Course values claims place count (.call (.branch b)) state
        (.error .missingParameter, state) []
  | stopped {b : Branch σ α} {state reached : σ} {cause : Failure} {log : Log α} :
      0 < count → claims 0 state (.error cause, reached) log →
        Course values claims place count (.call (.branch b)) state (.error cause, reached) log
  | refused {b : Branch σ α} {state asked reached : σ} {value : α} {cause : Failure}
      {log choice : Log α} :
      0 < count → claims 0 state (.ok value, asked) log →
      b.Asked place value asked (.error cause, reached) choice →
        Course values claims place count (.call (.branch b)) state (.error cause, reached)
          (log ++ choice)
  | astray {b : Branch σ α} {state asked reached : σ} {value : α} {selection : Selection}
      {cause : Failure} {log choice : Log α} :
      0 < count → claims 0 state (.ok value, asked) log →
      b.Asked place value asked (.ok selection, reached) choice →
      Tree.chosen b.label count selection = .error cause →
        Course values claims place count (.call (.branch b)) state (.error cause, reached)
          (log ++ choice)
  | chosen {b : Branch σ α} {state asked reached : σ} {value : α} {selection : Selection}
      {index : Nat} {result : Except Failure α × σ} {log choice last : Log α} :
      0 < count → claims 0 state (.ok value, asked) log →
      b.Asked place value asked (.ok selection, reached) choice →
      Tree.chosen b.label count selection = .ok index → claims index reached result last →
        Course values claims place count (.call (.branch b)) state result (log ++ (choice ++ last))

namespace WatchedParameters

variable {claims : Nat → Claim σ α α} {watchings : List (Effect (σ × Log α) α)}
  {plains : List (Effect σ α)} (given : WatchedParameters claims watchings plains)
include given

theorem taken (label : String) (selection : Selection) :
    Watches (fun state result log =>
        (∃ cause, Tree.chosen label plains.length selection = .error cause ∧
          result = (.error cause, state) ∧ log = []) ∨
        ∃ index, Tree.chosen label plains.length selection = .ok index ∧
          claims index state result log)
      (Tree.taken label watchings selection) (Tree.taken label plains selection) := by
  unfold Tree.taken
  rw [given.length]
  cases chose : Tree.chosen label plains.length selection with
  | error cause => exact .throw fun _ => .inl ⟨cause, rfl, rfl, rfl⟩
  | ok index =>
    rcases given.cases_at index with ⟨_, noPlain⟩ | ⟨watching, plain, there, found, watches⟩
    · have less := Tree.chosen_lt chose
      have large := List.getElem?_eq_none_iff.mp noPlain
      omega
    · simp only [there, found]
      exact watches.mono fun _ _ _ claimed => .inr ⟨index, rfl, claimed⟩

theorem branch (values : String → Option α) (place : Place) (b : Branch σ α) :
    Watches (Symbol.Course values claims place plains.length (.call (.branch b)))
      (Tree.apply values (Symbol.watched place (.call (.branch b))) watchings)
      (Tree.apply values (.call (.branch b)) plains) := by
  rw [Symbol.watched]
  rcases watchings with _ | ⟨watching, others⟩
  · obtain rfl := List.length_eq_zero_iff.mp given.length.symm
    exact .throw fun _ => .bare rfl
  · rcases plains with _ | ⟨plain, othersPlain⟩
    · cases given.length
    · rw [Tree.apply_branch, Tree.apply_branch]
      have positive : 0 < (plain :: othersPlain).length := Nat.succ_pos _
      have selector := given.each 0 watching plain rfl rfl
      have chosen (value : α) : Watches (fun state result log =>
          (∃ cause reached, result = (.error cause, reached) ∧
            b.Asked place value state (.error cause, reached) log) ∨
          ∃ selection reached choice last, log = choice ++ last ∧
            b.Asked place value state (.ok selection, reached) choice ∧
            ((∃ cause, Tree.chosen b.label (plain :: othersPlain).length selection = .error cause ∧
              result = (.error cause, reached) ∧ last = []) ∨
            ∃ index, Tree.chosen b.label (plain :: othersPlain).length selection = .ok index ∧
              claims index reached result last)) _ _ := (b.asked place value).bind
        (given.taken b.label)
        (fun _ cause reached _ asked => .inl ⟨cause, reached, rfl, asked⟩)
        (fun _ selection reached _ choice last asked took =>
          .inr ⟨selection, reached, choice, last, rfl, asked, took⟩)
      refine selector.bind chosen ?_ ?_
      · exact fun _ _ _ _ claimed => .stopped positive claimed
      · rintro state value asked result log _ claimed
          (⟨cause, reached, rfl, failed⟩ | ⟨selection, reached, choice, last, rfl, gave, took⟩)
        · exact .refused positive claimed failed
        · rcases took with ⟨cause, chose, rfl, rfl⟩ | ⟨index, chose, claimedLast⟩
          · rw [List.append_nil]
            exact .astray positive claimed gave chose
          · exact .chosen positive claimed gave chose claimedLast

theorem apply (values : String → Option α) (place : Place) (s : Symbol σ α) :
    Watches (s.Course values claims place plains.length)
      (Tree.apply values (s.watched place) watchings) (Tree.apply values s plains) := by
  have unread : (plains.map fun _ => (none : Option α)) = List.replicate plains.length none :=
    List.map_const'
  cases s with
  | operand value => exact .pure fun _ => .operand
  | «variable» label =>
    rw [Symbol.watched, Tree.apply, Tree.apply]
    cases found : values label with
    | some value => exact .pure fun _ => .known found
    | none => exact .throw fun _ => .unknown found
  | operator op =>
    rw [Symbol.watched, Tree.apply, Tree.apply, given.length]
    exact (given.course_start (op.body plains.length)).mono fun _ _ _ course =>
      .operator (unread ▸ course)
  | call callable =>
    cases callable with
    | function f =>
      rw [Symbol.watched, Tree.apply, Tree.apply, given.length]
      exact (given.course_start (f.body plains.length)).mono fun _ _ _ course =>
        .function (unread ▸ course)
    | branch b => exact given.branch values place b

end WatchedParameters

/-- How the log of a node ends: with the value that the node is left with. -/
def ending (place : Place) : Except Failure α → Log α
  | .ok value => [.left place value]
  | .error _ => []

theorem Watches.visit {claim : Claim σ α α} {watching : Effect (σ × Log α) α} {plain : Effect σ α}
    (watches : Watches claim watching plain) (values : String → Option α) (place : Place) :
    Watches (fun state result log => ∃ inner, claim state result inner ∧
        log = .entered place :: (inner ++ ending place result.1))
      (Tree.apply values (.watch place) [watching]) plain := by
  intro state log
  obtain ⟨inner, same, claimed⟩ := watches state (log ++ [.entered place])
  have ran : (Tree.apply values (.watch place) [watching]).run (state, log) =
      (observing watching >>= fun outcome => Action.run [watching] (Action.keep [none] 0 outcome)
        ((Action.ofExcept outcome).bind fun value =>
          .note (.left place value) (.done value))).run (state, log ++ [.entered place]) := rfl
  refine ⟨_, ?_, inner, claimed, rfl⟩
  rw [ran, Effect.run_observing_bind, same]
  cases plain.run state with
  | mk outcome reached =>
    cases outcome with
    | error cause =>
      refine congrArg (fun further => (Except.error cause, reached, further)) ?_
      simp [ending]
    | ok value =>
      refine congrArg (fun further => (Except.ok value, reached, further)) ?_
      simp [ending]

namespace Tree

/-- A claim about trees and their places that holds of a node whenever it holds of the children
holds of every evaluation. -/
theorem watches {values : String → Option α} (claim : Tree (Symbol σ α) → Place → Claim σ α α)
    (node : ∀ (s : Symbol σ α) (cs : List (Tree (Symbol σ α))) (place : Place) (state : σ)
      (result : Except Failure α × σ) (inner : Log α),
      s.Course values (fun index state result log =>
          ∃ c, cs[index]? = some c ∧ claim c (index :: place) state result log)
        place cs.length state result inner →
      claim (.node s cs) place state result (.entered place :: (inner ++ ending place result.1)))
    (t : Tree (Symbol σ α)) (place : Place) :
    Watches (claim t place) ((t.watched place).evaluate values) (t.evaluate values) := by
  induction t generalizing place with
  | node s cs ih =>
    have children (ds : List (Tree (Symbol σ α))) (position : Nat) (inside : ∀ d ∈ ds, d ∈ cs) :
        (evaluateAll values (watchedAll place position ds)).length =
          (evaluateAll values ds).length ∧ (evaluateAll values ds).length = ds.length ∧
        ∀ index watching plain,
          (evaluateAll values (watchedAll place position ds))[index]? = some watching →
          (evaluateAll values ds)[index]? = some plain →
            Watches (fun state result log => ∃ d, ds[index]? = some d ∧
              claim d ((position + index) :: place) state result log) watching plain := by
      induction ds generalizing position with
      | nil => exact ⟨rfl, rfl, fun _ _ _ never => nomatch never⟩
      | cons d ds others =>
        obtain ⟨length, count, each⟩ :=
          others (position + 1) fun e member => inside e (List.mem_cons_of_mem _ member)
        rw [watchedAll, evaluateAll, evaluateAll]
        refine ⟨congrArg Nat.succ length, congrArg Nat.succ count, ?_⟩
        intro index watching plain there found
        cases index with
        | zero =>
          cases there
          cases found
          exact (ih d (inside d List.mem_cons_self) (position :: place)).mono
            fun _ _ _ claimed => ⟨d, rfl, claimed⟩
        | succ index =>
          have watches := each index watching plain there found
          rwa [Nat.add_right_comm] at watches
    obtain ⟨length, count, each⟩ := children cs 0 fun _ member => member
    have given : WatchedParameters (fun index state result log =>
          ∃ c, cs[index]? = some c ∧ claim c (index :: place) state result log)
        (evaluateAll values (watchedAll place 0 cs)) (evaluateAll values cs) := by
      refine ⟨length, fun index watching plain there found => ?_⟩
      have watches := each index watching plain there found
      rwa [Nat.zero_add] at watches
    have course := given.apply values place s
    rw [count] at course
    refine (course.visit values place).mono ?_
    rintro state result log ⟨inner, steps, rfl⟩
    exact node s cs place state result inner steps

end Tree

end InfixCalc
