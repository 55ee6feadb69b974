import InfixCalc.Proofs.Sharing.Builder
import InfixCalc.Proofs.Vocabulary.Stateless

/-!
# Builders and their copies in one session

A session keeps builders under names, all of them on one heap, and serves calls to them, copies of
them and evaluations of expressions that have been built. It answers as builders do that share
nothing. So what a builder answers depends on the requests in its lineage only, and an expression
gives the same outcome at all times.
-/

namespace InfixCalc

variable {σ α ε δ : Type}

namespace Builder

/-- A consistent builder with no callback that uses the shared state. -/
structure IsStateless (b : Builder σ α) : Prop where
  consistent : b.Consistent
  vocabulary : b.vocabulary.IsStateless

variable {b : Builder σ α} (stateless : b.IsStateless)
include stateless

theorem IsStateless.evaluate {text : String} {e : Expression σ α} (built : (b.build text).1 = .ok e)
    (bindings : List (String × α)) : (e.evaluate bindings).IsStateless := by
  have read := ((stateless.consistent.build text).sound e built).root
  exact Tree.stateless_evaluate _ (stateless.vocabulary.root read)

theorem IsStateless.build (text : String) : (b.build text).2.IsStateless := by
  have spec := stateless.consistent.build text
  exact ⟨spec.consistent, spec.vocabulary ▸ stateless.vocabulary⟩

theorem IsStateless.edit {edit : Vocabulary.Edit σ α} (brings : edit.IsStateless) :
    IsStateless { b with vocabulary := (edit.perform.run b.vocabulary).2 } :=
  ⟨stateless.consistent.edit edit, stateless.vocabulary.perform brings⟩

theorem IsStateless.copy : b.copy.IsStateless :=
  ⟨stateless.consistent.copy, stateless.vocabulary.withConstants _ _⟩

end Builder

namespace Sharing

/-- What is asked of a builder. -/
inductive Call (σ α : Type) where
  | edit (edit : Vocabulary.Edit σ α)
  | tokenize (text : String)
  | build (text : String)
  | calculate (text : String) (bindings : List (String × α))

/-- A call to the builder of a name, an evaluation of the expression at an address, or a copy of the
builder of one name under another. -/
inductive Request (σ α : Type) where
  | call (name : String) (call : Call σ α)
  | evaluate (place : Address) (bindings : List (String × α))
  | copy (source target : String)

/-- A reply, where `ε` tells what is told of an expression that has been built. -/
inductive Reply (σ α ε : Type) where
  | edited (answer : Except Failure (Vocabulary.Answer σ α))
  | tokens (tokens : Except Failure (List (Token σ α)))
  | built (built : Except Failure ε)
  | value (outcome : Except Failure α)
  | nothing

def Reply.map (f : ε → δ) : Reply σ α ε → Reply σ α δ
  | .edited given => .edited given
  | .tokens given => .tokens given
  | .built given => .built (given.map f)
  | .value given => .value given
  | .nothing => .nothing

theorem Reply.exists_place {reply : Reply σ α (Address × ε)} {e : ε}
    (told : reply.map Prod.snd = .built (.ok e)) :
    ∃ place, reply = .built (.ok (place, e)) := by
  cases reply with
  | built built =>
    obtain ⟨⟨place, _⟩, rfl, rfl⟩ := map_eq_ok_iff.mp (Reply.built.inj told)
    exact ⟨place, rfl⟩
  | _ => cases told

/-- The objects, the builders by their names, the latest name first, and the state that callbacks
share. -/
structure Session (σ α : Type) where
  heap : Heap σ α
  names : List (String × Address)
  state : σ

namespace Session

/-- A session with one builder. -/
def start (config : Config α) (v : Vocabulary σ α) (size : Option Nat) (name : String) (state : σ) :
    Option (Session σ α) := do
  let (address, heap) ← (create config v size).run []
  return ⟨heap, [(name, address)], state⟩

def call (s : Session σ α) (address : Address) :
    Call σ α → Option (Reply σ α (Address × Expression σ α) × Session σ α)
  | .edit edit => do
    let (answer, heap) ← (Sharing.edit address edit).run s.heap
    return (.edited answer, { s with heap := heap })
  | .tokenize text => do
    let (tokens, heap) ← (Sharing.tokenize address text).run s.heap
    return (.tokens tokens, { s with heap := heap })
  | .build text => do
    let (built, heap) ← (Sharing.build address text).run s.heap
    return (.built built, { s with heap := heap })
  | .calculate text bindings => do
    let (built, heap) ← (Sharing.build address text).run s.heap
    match built with
    | .error cause => return (.value (.error cause), { s with heap := heap })
    | .ok (_, e) =>
      let (outcome, state) := (e.evaluate bindings).run s.state
      return (.value outcome, { s with heap := heap, state := state })

/-- Serve a request. Nothing comes of one that mentions a name or an address where nothing is. -/
def serve (s : Session σ α) :
    Request σ α → Option (Reply σ α (Address × Expression σ α) × Session σ α)
  | .call name call =>
    match s.names.lookup name with
    | none => some (.nothing, s)
    | some address => s.call address call
  | .evaluate place bindings =>
    match s.heap[place]? with
    | some (.expression e) =>
      let (outcome, state) := (e.evaluate bindings).run s.state
      some (.value outcome, { s with state := state })
    | _ => some (.nothing, s)
  | .copy source target =>
    match s.names.lookup source with
    | none => some (.nothing, s)
    | some address => do
      let (made, heap) ← (Sharing.copy address).run s.heap
      return (.nothing, { s with heap := heap, names := (target, made) :: s.names })

/-- The session after requests, of which the latest comes first. -/
def after (s : Session σ α) : List (Request σ α) → Option (Session σ α)
  | [] => some s
  | request :: earlier => do
    let reached ← s.after earlier
    let (_, next) ← reached.serve request
    return next

/-- The reply to a request that follows earlier ones. -/
def answer (s : Session σ α) (earlier : List (Request σ α)) (request : Request σ α) :
    Option (Reply σ α (Address × Expression σ α)) := do
  let reached ← s.after earlier
  let (reply, _) ← reached.serve request
  return reply

variable {s reached next : Session σ α} {earlier : List (Request σ α)} {request : Request σ α}
  {reply : Reply σ α (Address × Expression σ α)}

theorem after_cons (ran : s.after earlier = some reached)
    (served : reached.serve request = some (reply, next)) :
    s.after (request :: earlier) = some next := by
  rw [after, ran]
  simp only [Option.bind_eq_bind, Option.bind_some, served]
  rfl

theorem answer_eq (ran : s.after earlier = some reached)
    (served : reached.serve request = some (reply, next)) :
    s.answer earlier request = some reply := by
  rw [answer, ran]
  simp only [Option.bind_eq_bind, Option.bind_some, served]
  rfl

theorem after_append (s : Session σ α) (later earlier : List (Request σ α)) :
    s.after (later ++ earlier) = (s.after earlier).bind fun reached => reached.after later := by
  induction later with
  | nil => exact (Option.bind_fun_some (s.after earlier)).symm
  | cons request later ih =>
    rw [List.cons_append, after, ih]
    cases s.after earlier with
    | none => rfl
    | some reached => rfl

end Session

/- Builders that share nothing. -/

namespace Call

def reply (b : Builder σ α) (state : σ) : Call σ α → Reply σ α (Expression σ α)
  | .edit change => .edited (change.perform.run b.vocabulary).1
  | .tokenize text => .tokens (b.tokenize text).1
  | .build text => .built ((b.build text).1.map Expression.unstamped)
  | .calculate text bindings =>
    .value ((b.build text).1 >>= fun e => ((e.evaluate bindings).run state).1)

def next (b : Builder σ α) : Call σ α → Builder σ α
  | .edit change => { b with vocabulary := (change.perform.run b.vocabulary).2 }
  | .tokenize text => (b.tokenize text).2
  | .build text | .calculate text _ => (b.build text).2

/-- The call brings in no callback that uses the shared state. -/
def IsStateless : Call σ α → Prop
  | .edit change => change.IsStateless
  | _ => True

end Call

def Request.IsStateless : Request σ α → Prop
  | .call _ asked => asked.IsStateless
  | _ => True

/-- Builders by their names, each on its own. -/
abbrev World (σ α : Type) := String → Option (Builder σ α)

namespace World

def single (name : String) (b : Builder σ α) : World σ α :=
  fun other => if other = name then some b else none

def next (w : World σ α) : Request σ α → World σ α
  | .call name call => fun other => if other = name then (w other).map (call.next ·) else w other
  | .evaluate _ _ => w
  | .copy source target => fun other =>
    if other = target then ((w source).map Builder.copy).or (w other) else w other

theorem next_call (w : World σ α) (name other : String) (call : Call σ α) :
    w.next (.call name call) other =
      if other = name then (w other).map (call.next ·) else w other := rfl

theorem next_copy (w : World σ α) (source target other : String) :
    w.next (.copy source target) other =
      if other = target then ((w source).map Builder.copy).or (w other) else w other := rfl

theorem next_call_of_none {w : World σ α} {name : String} (free : w name = none)
    (call : Call σ α) : w.next (.call name call) = w := by
  funext other
  rw [next_call]
  split
  · rename_i same
    rw [same, free]
    rfl
  · rfl

theorem next_copy_of_none {w : World σ α} {source : String} (free : w source = none)
    (target : String) : w.next (.copy source target) = w := by
  funext other
  rw [next_copy, free]
  exact ite_self _

def after (w : World σ α) : List (Request σ α) → World σ α
  | [] => w
  | request :: earlier => (w.after earlier).next request

def reply (w : World σ α) (state : σ) (name : String) (call : Call σ α) :
    Reply σ α (Expression σ α) :=
  match w name with
  | none => .nothing
  | some b => call.reply b state

end World

/- A call to a builder on the heap. -/

variable {b : Builder σ α}

theorem isStateless_next (stateless : b.IsStateless) {call : Call σ α} (brings : call.IsStateless) :
    (call.next b).IsStateless := by
  cases call with
  | edit edit => exact stateless.edit brings
  | tokenize text => exact ⟨stateless.consistent.remember, stateless.vocabulary⟩
  | build text => exact stateless.build text
  | calculate text bindings => exact stateless.build text

/-- A call is answered as the builder answers it. It changes objects of the builder only, and a
built expression is at the address that comes with it. -/
structure Serves (s : Session σ α) (p : Parts) (b : Builder σ α) (call : Call σ α)
    (reply : Reply σ α (Address × Expression σ α)) (next : Session σ α) : Prop where
  names : next.names = s.names
  shows : Shows next.heap p (call.next b)
  follows : Follows p.own s.heap next.heap
  answers : reply.map Prod.snd = call.reply b s.state
  places : ∀ place e, reply = .built (.ok (place, e)) → next.heap[place]? = some (.expression e)

theorem Shows.serves {s : Session σ α} {p : Parts} (shows : Shows s.heap p b) (call : Call σ α) :
    ∃ reply next, s.call p.builder call = some (reply, next) ∧ Serves s p b call reply next := by
  cases call with
  | edit edit =>
    obtain ⟨_, heap, ran, shown, follows, rfl⟩ := shows.runs_edit edit
    refine ⟨.edited _, { s with heap := heap }, ?_, rfl, shown, follows, rfl,
      fun _ _ never => nomatch never⟩
    rw [Session.call, ran]
    rfl
  | tokenize text =>
    obtain ⟨_, heap, ran, shown, follows, rfl⟩ := shows.runs_tokenize text
    refine ⟨.tokens _, { s with heap := heap }, ?_, rfl, shown, follows, rfl,
      fun _ _ never => nomatch never⟩
    rw [Session.call, ran]
    rfl
  | build text =>
    obtain ⟨built, heap, ran, shown, follows, same, places⟩ := shows.runs_build text
    refine ⟨.built built, { s with heap := heap }, ?_, rfl, shown, follows, congrArg _ same, ?_⟩
    · rw [Session.call, ran]
      rfl
    · intro place e given
      exact places place e (Reply.built.inj given)
  | calculate text bindings =>
    obtain ⟨built, heap, ran, shown, follows, same, places⟩ := shows.runs_build text
    cases theirs : (b.build text).1 with
    | error cause =>
      rw [theirs] at same
      cases built with
      | ok found => cases same
      | error other =>
        cases same
        refine ⟨.value (.error cause), { s with heap := heap }, ?_, rfl, shown, follows, ?_,
          fun _ _ never => nomatch never⟩
        · rw [Session.call, ran]
          rfl
        · rw [Call.reply, theirs]
          rfl
    | ok e =>
      rw [theirs] at same
      cases built with
      | error other => cases same
      | ok found =>
        obtain ⟨place, _⟩ := found
        cases same
        refine ⟨.value ((e.evaluate bindings).run s.state).1,
          { s with heap := heap, state := ((e.evaluate bindings).run s.state).2 }, ?_, rfl, shown,
          follows, ?_, fun _ _ never => nomatch never⟩
        · rw [Session.call, ran]
          rfl
        · rw [Call.reply, theirs]
          rfl

/- A session and the builders in it. -/

/-- The builders of a session, each at its own addresses. -/
structure Mirrors (s : Session σ α) (w : World σ α) (parts : String → Parts) : Prop where
  names : ∀ name, s.names.lookup name = (w name).map fun _ => (parts name).builder
  shows : ∀ name b, w name = some b → Shows s.heap (parts name) b
  apart : ∀ m n, m ≠ n → (w m).isSome → (w n).isSome →
    ∀ place ∈ (parts m).own, place ∉ (parts n).own

variable {s : Session σ α} {w : World σ α} {parts : String → Parts}

theorem Mirrors.lookup_of_some (mirrors : Mirrors s w parts) {name : String}
    (given : w name = some b) : s.names.lookup name = some (parts name).builder := by
  rw [mirrors.names, given]
  rfl

theorem Mirrors.lookup_of_none (mirrors : Mirrors s w parts) {name : String}
    (free : w name = none) : s.names.lookup name = none := by
  rw [mirrors.names, free]
  rfl

theorem Mirrors.serve_of_none (mirrors : Mirrors s w parts) {name : String} (free : w name = none)
    (call : Call σ α) : s.serve (.call name call) = some (.nothing, s) := by
  simp only [Session.serve, mirrors.lookup_of_none free]

theorem Mirrors.call (mirrors : Mirrors s w parts) {name : String} (given : w name = some b)
    (call : Call σ α) :
    ∃ reply next, s.serve (.call name call) = some (reply, next) ∧
      Serves s (parts name) b call reply next ∧ Mirrors next (w.next (.call name call)) parts := by
  obtain ⟨reply, next, ran, serves⟩ := (mirrors.shows name b given).serves call
  refine ⟨reply, next, ?_, serves, ?_, ?_, ?_⟩
  · simp only [Session.serve, mirrors.lookup_of_some given]
    exact ran
  · intro other
    rw [serves.names, mirrors.names, World.next_call]
    split
    · rw [Option.map_map]
      rfl
    · rfl
  · intro other c found
    rw [World.next_call] at found
    split at found
    · rename_i same
      subst same
      rw [given] at found
      cases found
      exact serves.shows
    · rename_i different
      refine (mirrors.shows other c found).follows serves.follows ?_
      exact mirrors.apart other name different (by rw [found]; rfl) (by rw [given]; rfl)
  · have still (other : String) (bound : (w.next (.call name call) other).isSome) :
        (w other).isSome := by
      rw [World.next_call] at bound
      split at bound
      · rwa [Option.isSome_map] at bound
      · exact bound
    exact fun m n different first second =>
      mirrors.apart m n different (still m first) (still n second)

theorem Shows.lt_length {heap : Heap σ α} {p : Parts} (shows : Shows heap p b) {place : Address}
    (member : place ∈ p.own) : place < heap.length := by
  obtain ⟨_, dictionary, ⟨_, builder, _⟩, cache⟩ := shows
  rcases List.mem_cons.mp member with rfl | member
  · exact (List.getElem?_eq_some_iff.mp builder).1
  · rcases List.mem_append.mp member with given | member
    · obtain ⟨stored, found⟩ := Caches.exists_stored cache (Option.mem_toList.mp given)
      exact (List.getElem?_eq_some_iff.mp found).1
    · exact lt_length_of_stores dictionary member

theorem Mirrors.copy (mirrors : Mirrors s w parts) {source : String} (given : w source = some b)
    (target : String) :
    ∃ next parts, s.serve (.copy source target) = some (.nothing, next) ∧
      Mirrors next (w.next (.copy source target)) parts ∧ Follows [] s.heap next.heap := by
  obtain ⟨q, heap, ran, shown, follows, fresh⟩ := (mirrors.shows source b given).makes_copy
  have becomes (name : String) : w.next (.copy source target) name =
      if name = target then some b.copy else w name := by
    rw [World.next_copy, given]
    rfl
  -- What other builders have lies below the end of the heap, and the copy lies past it.
  have old (name : String) (place : Address) (member : place ∈ (parts name).own)
      (bound : (w name).isSome) : place ∉ q.own := by
    intro inside
    obtain ⟨c, found⟩ := Option.isSome_iff_exists.mp bound
    have below := (mirrors.shows name c found).lt_length member
    exact absurd (fresh place inside) (Nat.not_le.mpr below)
  refine ⟨{ s with heap := heap, names := (target, q.builder) :: s.names },
    fun name => if name = target then q else parts name, ?_, ⟨?_, ?_, ?_⟩, follows⟩
  · simp only [Session.serve, mirrors.lookup_of_some given]
    rw [ran]
    rfl
  · intro name
    rw [becomes, List.lookup_cons]
    by_cases same : name = target
    · simp [same]
    · simp [same, beq_eq_false_iff_ne.mpr same, mirrors.names]
  · intro name c found
    rw [becomes] at found
    simp only
    split at found
    · rename_i same
      cases found
      rw [if_pos same]
      exact shown
    · rename_i different
      rw [if_neg different]
      exact (mirrors.shows name c found).follows follows fun _ _ => List.not_mem_nil
  · intro m n different first second place member
    rw [becomes] at first second
    by_cases left : m = target
    · have right : n ≠ target := fun same => different (left.trans same.symm)
      rw [if_pos left] at member
      rw [if_neg right] at second ⊢
      exact fun inside => old n place inside second member
    · rw [if_neg left] at first member
      by_cases right : n = target
      · rw [if_pos right]
        exact old m place member first
      · rw [if_neg right] at second ⊢
        exact mirrors.apart m n different first second place member

/-- One request: the session has a reply, and its builders become what they would become without
it. Nothing that is fixed changes. -/
theorem Mirrors.serve (mirrors : Mirrors s w parts) (request : Request σ α) :
    ∃ reply next parts own, s.serve request = some (reply, next) ∧
      Mirrors next (w.next request) parts ∧ Follows own s.heap next.heap := by
  cases request with
  | call name call =>
    cases given : w name with
    | none =>
      refine ⟨.nothing, s, parts, [], mirrors.serve_of_none given call, ?_, .refl _ _⟩
      rw [World.next_call_of_none given]
      exact mirrors
    | some b =>
      obtain ⟨reply, next, ran, serves, onward⟩ := mirrors.call given call
      exact ⟨reply, next, parts, _, ran, onward, serves.follows⟩
  | evaluate place bindings =>
    obtain ⟨reply, state, ran⟩ : ∃ reply state, s.serve (.evaluate place bindings) =
        some (reply, { s with state := state }) := by
      simp only [Session.serve]
      split
      · exact ⟨_, _, rfl⟩
      · exact ⟨_, s.state, rfl⟩
    exact ⟨reply, _, parts, [], ran, ⟨mirrors.names, mirrors.shows, mirrors.apart⟩, .refl _ _⟩
  | copy source target =>
    cases given : w source with
    | none =>
      refine ⟨.nothing, s, parts, [], ?_, ?_, .refl _ _⟩
      · simp only [Session.serve, mirrors.lookup_of_none given]
      · rw [World.next_copy_of_none given]
        exact mirrors
    | some b =>
      obtain ⟨next, parts, ran, onward, follows⟩ := mirrors.copy given target
      exact ⟨.nothing, next, parts, [], ran, onward, follows⟩

theorem Mirrors.after (mirrors : Mirrors s w parts) (requests : List (Request σ α)) :
    ∃ reached parts, s.after requests = some reached ∧
      Mirrors reached (w.after requests) parts ∧
      ∀ (place : Address) (cell : Cell σ α), s.heap[place]? = some cell → cell.IsFixed →
        reached.heap[place]? = some cell := by
  induction requests with
  | nil => exact ⟨s, parts, rfl, mirrors, fun _ _ found _ => found⟩
  | cons request earlier ih =>
    obtain ⟨reached, parts, ran, mirrors, kept⟩ := ih
    obtain ⟨reply, next, parts, own, served, onward, follows⟩ := mirrors.serve request
    exact ⟨next, parts, Session.after_cons ran served, onward, fun place cell found isFixed =>
      follows place cell (kept place cell found isFixed) (.inr isFixed)⟩

/-- In a session builders answer as they do without it. -/
theorem Mirrors.answer (mirrors : Mirrors s w parts) (requests : List (Request σ α)) (name : String)
    (call : Call σ α) :
    ∃ reached reply, s.after requests = some reached ∧
      s.answer requests (.call name call) = some reply ∧
      reply.map Prod.snd = (w.after requests).reply reached.state name call := by
  obtain ⟨reached, parts, ran, mirrors, _⟩ := mirrors.after requests
  cases given : w.after requests name with
  | none =>
    refine ⟨reached, .nothing, ran, Session.answer_eq ran (mirrors.serve_of_none given call), ?_⟩
    rw [World.reply, given]
    rfl
  | some b =>
    obtain ⟨reply, next, served, serves, _⟩ := mirrors.call given call
    refine ⟨reached, reply, ran, Session.answer_eq ran served, ?_⟩
    rw [World.reply, given]
    exact serves.answers

theorem exists_start (config : Config α) (v : Vocabulary σ α) (size : Option Nat) (name : String)
    (state : σ) :
    ∃ s parts, Session.start config v size name state = some s ∧
      Mirrors s (World.single name (Builder.new config v size 0)) parts := by
  obtain ⟨p, heap, ran, shows, _⟩ := makes_create config v size 0 []
  refine ⟨⟨heap, [(name, p.builder)], state⟩, fun _ => p, ?_, ?_, ?_, ?_⟩
  · rw [Session.start, ran]
    rfl
  · intro other
    rw [World.single, List.lookup_cons]
    by_cases same : other = name
    · simp [same]
    · simp [same, beq_eq_false_iff_ne.mpr same]
  · intro other b given
    rw [World.single] at given
    split at given
    · cases given
      exact shows
    · cases given
  · intro m n different first second
    have only (other : String)
        (bound : (World.single name (Builder.new config v size 0) other).isSome) :
        other = name := by
      rw [World.single] at bound
      split at bound
      · assumption
      · cases bound
    exact absurd ((only m first).trans (only n second).symm) different

end Sharing
end InfixCalc
