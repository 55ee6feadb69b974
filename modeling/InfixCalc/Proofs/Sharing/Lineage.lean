import InfixCalc.Proofs.Sharing.Session

/-!
# Lineages

The lineage of a builder is the part of a session that has made it what it is. Whatever else has
been asked leaves no trace in its answers, and none in the expressions that have been built.
-/

namespace InfixCalc.Sharing

variable {σ α : Type}

/-- Whether a name has a builder after the requests, of which the latest comes first, in a session
that begins with a builder of the first name. -/
def isBound (first : String) : List (Request σ α) → String → Bool
  | [], name => name == first
  | .copy source target :: earlier, name =>
    (target == name && isBound first earlier source) || isBound first earlier name
  | .call _ _ :: earlier, name | .evaluate _ _ :: earlier, name => isBound first earlier name

/-- The requests that have made the builder of a name what it is: the calls to it and, before it was
copied, those to the builder that it was copied from. -/
def lineage (first : String) : List (Request σ α) → String → List (Request σ α)
  | [], _ => []
  | .call other call :: earlier, name =>
    if other = name then .call other call :: lineage first earlier name
    else lineage first earlier name
  | .evaluate _ _ :: earlier, name => lineage first earlier name
  | .copy source target :: earlier, name =>
    -- The name stands for a new builder now, so what it stood for before does not count.
    if target = name ∧ isBound first earlier source then
      .copy source target :: lineage first earlier source
    else lineage first earlier name

theorem isSome_after (first : String) (b : Builder σ α) (requests : List (Request σ α))
    (name : String) :
    ((World.single first b).after requests name).isSome = isBound first requests name := by
  induction requests generalizing name with
  | nil =>
    rw [World.after, World.single, isBound]
    split <;> simp_all
  | cons request earlier ih =>
    rw [World.after]
    cases request with
    | call other call =>
      rw [World.next_call, isBound, ← ih]
      split
      · rw [Option.isSome_map]
      · rfl
    | evaluate place bindings => exact ih name
    | copy source target =>
      rw [World.next_copy, isBound, ← ih, ← ih]
      by_cases same : name = target
      · rw [if_pos same, Option.isSome_or, Option.isSome_map, same, beq_self_eq_true,
          Bool.true_and]
      · rw [if_neg same, beq_eq_false_iff_ne.mpr (Ne.symm same), Bool.false_and, Bool.false_or]

/-- The builder of a name is what its lineage alone would have made it. -/
theorem after_lineage (first : String) (b : Builder σ α) (requests : List (Request σ α))
    (name : String) :
    (World.single first b).after (lineage first requests name) name =
      (World.single first b).after requests name := by
  induction requests generalizing name with
  | nil => rfl
  | cons request earlier ih =>
    cases request with
    | call other call =>
      rw [lineage, World.after, World.next_call]
      split
      · rename_i same
        rw [World.after, World.next_call, ih]
      · rename_i apart
        rw [ih, if_neg (Ne.symm apart)]
    | evaluate place bindings => exact ih name
    | copy source target =>
      have bound := isSome_after first b earlier source
      rw [lineage, World.after, World.next_copy, ← bound]
      by_cases same : target = name
      · subst same
        cases copied : (World.single first b).after earlier source with
        | none => simp [ih]
        | some c => simp [World.after, World.next_copy, ih, copied]
      · rw [if_neg fun both => same both.1, if_neg (Ne.symm same), ih]

/- Builders whose callbacks use no state. -/

theorem isStateless_after {w : World σ α} (stateless : ∀ name b, w name = some b → b.IsStateless)
    {requests : List (Request σ α)} (bring : ∀ request ∈ requests, request.IsStateless) :
    ∀ name b, w.after requests name = some b → b.IsStateless := by
  induction requests with
  | nil => exact stateless
  | cons request earlier ih =>
    obtain ⟨brings, bring⟩ := List.forall_mem_cons.mp bring
    have ih := ih bring
    intro name b given
    cases request with
    | call other call =>
      rw [World.after, World.next_call] at given
      split at given
      · obtain ⟨c, found, rfl⟩ := Option.map_eq_some_iff.mp given
        exact isStateless_next (ih name c found) brings
      · exact ih name b given
    | evaluate place bindings => exact ih name b given
    | copy source target =>
      rw [World.after, World.next_copy] at given
      split at given
      · rcases Option.or_eq_some_iff.mp given with copied | ⟨_, old⟩
        · obtain ⟨c, found, rfl⟩ := Option.map_eq_some_iff.mp copied
          exact (ih source c found).copy
        · exact ih name b old
      · exact ih name b given

theorem reply_eq {b : Builder σ α} (stateless : b.IsStateless) (call : Call σ α)
    (first second : σ) : call.reply b first = call.reply b second := by
  cases call with
  | edit edit => rfl
  | tokenize text => rfl
  | build text => rfl
  | calculate text bindings =>
    rw [Call.reply, Call.reply]
    cases built : (b.build text).1 with
    | error cause => rfl
    | ok e =>
      have same := (stateless.evaluate built bindings).run_eq first second
      simp only [bind, Except.bind]
      rw [same]

theorem World.reply_eq {w u : World σ α} {name : String} (same : w name = u name)
    (stateless : ∀ b, w name = some b → b.IsStateless) (call : Call σ α) (first second : σ) :
    w.reply first name call = u.reply second name call := by
  rw [World.reply, World.reply, ← same]
  cases given : w name with
  | none => rfl
  | some b => exact Sharing.reply_eq (stateless b given) call first second

theorem isStateless_single (config : Config α) {v : Vocabulary σ α} (reachable : v.Reachable)
    (stateless : v.IsStateless) (size : Option Nat) (first : String) :
    ∀ name b, World.single first (Builder.new config v size 0) name = some b → b.IsStateless := by
  intro name b given
  rw [World.single] at given
  split at given
  · cases given
    exact ⟨Builder.consistent_new config reachable.regular size 0, stateless⟩
  · cases given

/- What stays. -/

variable {s : Session σ α} {w : World σ α} {parts : String → Parts}

/-- An expression that has been built gives one outcome for the same bindings, whatever is asked
afterwards. -/
theorem Mirrors.evaluate (mirrors : Mirrors s w parts) {earlier : List (Request σ α)}
    (stateless : ∀ name b, w.after earlier name = some b → b.IsStateless) {name text : String}
    {place : Address} {e : Expression σ α}
    (built : s.answer earlier (.call name (.build text)) = some (.built (.ok (place, e))))
    (later : List (Request σ α)) (bindings : List (String × α)) (chance : σ) :
    s.answer (later ++ .call name (.build text) :: earlier) (.evaluate place bindings) =
      some (.value ((e.evaluate bindings).run chance).1) := by
  obtain ⟨reached, parts, ran, mirrors, _⟩ := mirrors.after earlier
  cases given : w.after earlier name with
  | none =>
    rw [Session.answer_eq ran (mirrors.serve_of_none given _)] at built
    cases built
  | some b =>
    obtain ⟨reply, next, served, serves, onward⟩ := mirrors.call given (.build text)
    rw [Session.answer_eq ran served] at built
    cases built
    have answers : Except.ok e = (b.build text).1.map Expression.unstamped :=
      Reply.built.inj serves.answers
    obtain ⟨source, same, rfl⟩ := map_eq_ok_iff.mp answers.symm
    -- Expressions are fixed, so this one is where it was made after all later requests.
    have found := serves.places place _ rfl
    obtain ⟨last, _, ranOn, _, kept⟩ := onward.after later
    have there := kept place _ found trivial
    have after : s.after (later ++ .call name (.build text) :: earlier) = some last := by
      rw [Session.after_append, Session.after_cons ran served]
      exact ranOn
    have evaluated : last.serve (.evaluate place bindings) =
        some (.value ((source.evaluate bindings).run last.state).1,
          { last with state := ((source.evaluate bindings).run last.state).2 }) := by
      rw [Session.serve, there]
      rfl
    rw [Session.answer_eq after evaluated,
      ((stateless name b given).evaluate same bindings).run_eq last.state chance]
    rfl

/-- What a builder answers is what it answers outside of the session, and it depends on the requests
in its lineage only. -/
theorem Mirrors.answer_eq {first : String} {b : Builder σ α}
    (mirrors : Mirrors s (World.single first b) parts) {earlier : List (Request σ α)}
    (stateless : ∀ name c, (World.single first b).after earlier name = some c → c.IsStateless)
    (state : σ) (name : String) (call : Call σ α) :
    (s.answer earlier (.call name call)).map (·.map Prod.snd) =
        some (((World.single first b).after earlier).reply state name call) ∧
      (s.answer (lineage first earlier name) (.call name call)).map (·.map Prod.snd) =
        (s.answer earlier (.call name call)).map (·.map Prod.snd) := by
  obtain ⟨reached, reply, _, answered, same⟩ := mirrors.answer earlier name call
  obtain ⟨other, alone, _, answeredAlone, sameAlone⟩ :=
    mirrors.answer (lineage first earlier name) name call
  have outside := World.reply_eq rfl (stateless name) call reached.state state
  have inLineage := World.reply_eq (after_lineage first b earlier name).symm (stateless name) call
    reached.state other.state
  rw [answered, answeredAlone, Option.map_some, Option.map_some, same, sameAlone]
  exact ⟨congrArg some outside, congrArg some inLineage.symm⟩

/-- In a session with a builder, its copies and theirs, over callbacks that use no state, every
request is answered. An expression that has been built gives one outcome for the same bindings at
all later times, whatever is asked in between. A builder answers as it does on its own, and as it
does where the requests are left out that are not in its lineage. -/
theorem session_isolates (config : Config α) {v : Vocabulary σ α} (reachable : v.Reachable)
    (stateless : v.IsStateless) (size : Option Nat) (first : String) (state : σ) :
    ∃ s, Session.start config v size first state = some s ∧
      ∀ earlier : List (Request σ α), (∀ request ∈ earlier, request.IsStateless) →
        (∀ request, ∃ reply, s.answer earlier request = some reply) ∧
        (∀ name text place e,
          s.answer earlier (.call name (.build text)) = some (.built (.ok (place, e))) →
            ∀ later bindings chance,
              s.answer (later ++ .call name (.build text) :: earlier) (.evaluate place bindings) =
                some (.value ((e.evaluate bindings).run chance).1)) ∧
        ∀ name call,
          (s.answer earlier (.call name call)).map (·.map Prod.snd) =
            some (((World.single first (.new config v size 0)).after earlier).reply state name
              call) ∧
          (s.answer (lineage first earlier name) (.call name call)).map (·.map Prod.snd) =
            (s.answer earlier (.call name call)).map (·.map Prod.snd) := by
  obtain ⟨s, parts, started, mirrors⟩ := exists_start config v size first state
  refine ⟨s, started, fun earlier bring => ?_⟩
  have steady := isStateless_after
    (isStateless_single config reachable stateless size first) bring
  refine ⟨?_, ?_, ?_⟩
  · intro request
    obtain ⟨reached, parts, ran, mirrors, _⟩ := mirrors.after earlier
    obtain ⟨reply, next, _, _, served, _⟩ := mirrors.serve request
    exact ⟨reply, Session.answer_eq ran served⟩
  · exact fun name text place e built later bindings chance =>
      mirrors.evaluate steady built later bindings chance
  · exact fun name call => mirrors.answer_eq steady state name call

/- A builder and a copy of it, of which the first loses its only word. -/

def double : Operator Unit Nat where
  label := "double"
  fixity := .before
  precedence := 3
  body _ := (Action.parameter 0).bind fun value => .done (value + value)
  symbol := none

def doubling : Vocabulary Unit Nat := Vocabulary.empty.putOperator double

def doubled : Phrase Unit Nat := .before double (.operand 2)

theorem reachable_doubling : doubling.Reachable := by
  have added : Vocabulary.empty.addOperator "double" "PREFIX" (.whole 3) double.body =
      .ok (double, doubling) := rfl
  exact .change .empty (.addOperator added)

theorem isStateless_doubling : doubling.IsStateless :=
  Vocabulary.keeps_empty.putOperator fun _ => (Action.IsStateless.parameter 0).bind fun value =>
    .done (value + value)

theorem sound_doubled : doubled.Sound :=
  ⟨.before rfl (.operand 2), .before (List.forall_mem_nil _) (fun never => nomatch never)
    (.operand 2)⟩

theorem root_doubled :
    (Scanner.make doubling plainConfig).root none "double 2" = .ok doubled.tree := by
  have ready : (Scanner.make doubling plainConfig).Ready :=
    ⟨(Config.standard_eq_ok standard_plainConfig).1, rfl, reachable_doubling.regular⟩
  have found : doubling.before.get? "double" = some double := rfl
  have two : (Scanner.make doubling plainConfig).Yields "2" (.operand 2) :=
    ready.yields_operand (by cbv)
  have yields := ready.yields_before rfl found (by decide) two
  have joined : "double" ++ " " ++ "2" = "double 2" := by decide +kernel
  rw [joined] at yields
  have assembled := Tree.parse_eq_ok_iff.mpr
    ⟨⟨doubled, rfl, sound_doubled, rfl⟩, within_none _, within_none _⟩
  exact bind_eq_ok_iff.mpr ⟨doubled.tokens, ready.scan_eq_ok sound_doubled.1 yields, assembled⟩

/-- The first builder loses its word after it has been copied. -/
def partingRequests : List (Request Unit Nat) :=
  [.call "first" (.edit (.removeOperator "double" none)), .copy "first" "second"]

/-- The copy still builds the text, and the expression keeps its value. -/
theorem session_isolates_parting :
    ∃ s place e, Session.start plainConfig doubling (some 2) "first" () = some s ∧
      s.answer partingRequests (.call "second" (.build "double 2")) =
        some (.built (.ok (place, e))) ∧
      e.root = doubled.tree ∧
      (∀ later, s.answer (later ++ .call "second" (.build "double 2") :: partingRequests)
        (.evaluate place []) = some (.value (.ok 4))) ∧
      (s.answer [.copy "first" "second"] (.call "second" (.tokenize "double 2"))).map
          (·.map Prod.snd) =
        (s.answer partingRequests (.call "second" (.tokenize "double 2"))).map
          (·.map Prod.snd) := by
  obtain ⟨s, started, served⟩ := session_isolates plainConfig reachable_doubling
    isStateless_doubling (some 2) "first" ()
  obtain ⟨answered, stays, outside⟩ := served partingRequests (by
    simp [partingRequests, Request.IsStateless, Call.IsStateless, Vocabulary.Edit.IsStateless])
  have made := (Builder.consistent_new plainConfig reachable_doubling.regular (some 2) 0).copy
  have read : (Scanner.make doubling.copy plainConfig).root none "double 2" = .ok doubled.tree := by
    rw [Scanner.root_copy, root_doubled]
  obtain ⟨e, built, root⟩ := (made.build "double 2").complete _ read ⟨_, rfl⟩
  have replied : World.reply ((World.single "first" (.new plainConfig doubling (some 2) 0)).after
      partingRequests) () "second" (.build "double 2") = .built (.ok e.unstamped) := by
    change Reply.built (((Builder.new plainConfig doubling (some 2) 0).copy.build "double 2").1.map
      Expression.unstamped) = _
    rw [built]
    rfl
  obtain ⟨reply, given⟩ := answered (.call "second" (.build "double 2"))
  have same := (outside "second" (.build "double 2")).1
  rw [given, replied] at same
  obtain ⟨place, rfl⟩ := Reply.exists_place (Option.some.inj same)
  refine ⟨s, place, e.unstamped, started, given, root, fun later => ?_, ?_⟩
  · rw [stays "second" "double 2" place _ given later [] (), Expression.evaluate,
      Expression.unstamped, root]
    rfl
  · exact (outside "second" (.tokenize "double 2")).2

end InfixCalc.Sharing
