import InfixCalc.Proofs.Evaluation.Watched

/-!
# What an evaluation does not force

A subtree that an evaluation does not enter can be put out for any other one: the outcome and the
state stay as they are. A branch that comes to a value enters its selector, then asks its choice,
and then enters the chosen one of the other parameters, and nothing else below it.
-/

namespace InfixCalc

variable {σ α β : Type}

namespace Tree

/-- The subtree at a place. -/
def at? (t : Tree (Symbol σ α)) : Place → Option (Tree (Symbol σ α))
  | [] => some t
  | position :: top => (t.at? top).bind fun above => above.children[position]?

mutual

/-- The tree with another one in place of the subtree at the target. -/
def replaced (target : Place) (new : Tree (Symbol σ α)) (place : Place) :
    Tree (Symbol σ α) → Tree (Symbol σ α)
  | .node s cs => if place = target then new else .node s (replacedAll target new place 0 cs)

def replacedAll (target : Place) (new : Tree (Symbol σ α)) (place : Place) (position : Nat) :
    List (Tree (Symbol σ α)) → List (Tree (Symbol σ α))
  | [] => []
  | c :: cs =>
    replaced target new (position :: place) c :: replacedAll target new place (position + 1) cs

end

theorem at?_child {root : Tree (Symbol σ α)} {s : Symbol σ α} {cs : List (Tree (Symbol σ α))}
    {place : Place}
    (here : root.at? place = some (.node s cs)) (index : Nat) :
    root.at? (index :: place) = cs[index]? := by
  rw [at?, here]
  rfl

theorem length_replacedAll (target : Place) (new : Tree (Symbol σ α)) (place : Place)
    (position : Nat)
    (cs : List (Tree (Symbol σ α))) :
    (replacedAll target new place position cs).length = cs.length := by
  induction cs generalizing position with
  | nil => rfl
  | cons c cs ih => exact congrArg Nat.succ (ih (position + 1))

theorem getElem?_replacedAll (target : Place) (new : Tree (Symbol σ α)) (place : Place)
    (position : Nat)
    (cs : List (Tree (Symbol σ α))) (index : Nat) :
    (replacedAll target new place position cs)[index]? =
      cs[index]?.map (replaced target new ((position + index) :: place)) := by
  induction cs generalizing position index with
  | nil => rfl
  | cons c cs ih =>
    cases index with
    | zero => rfl
    | succ index =>
      have later := ih (position + 1) index
      rwa [Nat.add_right_comm] at later

end Tree

/- What a log says about a place. -/

/-- What happens at a place between its beginning and its end. -/
def Inside (place : Place) (log : Log α) : Prop :=
  ∀ event ∈ log, Under place event.place ∧ event ≠ .entered place ∧
    ∀ value, event ≠ .left place value

namespace Inside

variable {place : Place} {first second : Log α}

theorem nil : Inside place ([] : Log α) := fun _ never => nomatch never

theorem append (inside : Inside place first) (insideToo : Inside place second) :
    Inside place (first ++ second) := by
  intro event member
  exact (List.mem_append.mp member).elim (inside event) (insideToo event)

theorem of_child (under : ∀ event ∈ first, ∃ index, Under (index :: place) event.place) :
    Inside place first := by
  intro event member
  obtain ⟨index, there⟩ := under event member
  refine ⟨there.of_child, ?_, ?_⟩
  · rintro rfl
    exact not_under_child index place there
  · rintro value rfl
    exact not_under_child index place there

end Inside

/-- The log of a node that is left with a value: it begins as the node is entered, ends as the node
is left, and the rest of it happens inside. -/
def Completes (place : Place) (value : α) (log : Log α) : Prop :=
  ∃ inner, log = .entered place :: (inner ++ [.left place value]) ∧ Inside place inner

/-- Whenever the branch at the place comes to a value, it has just been entered and has entered its
selector, then asked its choice with the value of that, then entered the one parameter that is
chosen, and it gives the value of that one; nothing else has happened at the place or below it
since it was entered. Before that it may have been entered in vain. -/
def Chooses (label : String) (count : Nat) (place : Place) (log : Log α) : Prop :=
  ∀ front value back, log = front ++ .left place value :: back →
    ∃ before selecting asking selection index choosing,
      front = before ++ .entered place :: (selecting ++ .asked place asking ::
        .chose place selection :: choosing) ∧
      Completes (0 :: place) asking selecting ∧
      Tree.chosen label count selection = .ok index ∧ 1 ≤ index ∧ index < count ∧
      Completes (index :: place) value choosing

namespace Chooses

variable {label : String} {count : Nat} {place : Place} {first second : Log α}

theorem of_never (never : ∀ value, .left place value ∉ first) :
    Chooses label count place first := by
  rintro front value back rfl
  exact absurd (List.mem_append_right front List.mem_cons_self) (never value)

theorem of_elsewhere (elsewhere : ∀ event ∈ first, event.place ≠ place) :
    Chooses label count place first :=
  of_never fun _ member => elsewhere _ member rfl

theorem append (chooses : Chooses label count place first)
    (choosesToo : Chooses label count place second) :
    Chooses label count place (first ++ second) := by
  intro front value back split
  rcases List.append_eq_append_iff.mp split with ⟨more, rfl, later⟩ | ⟨more, earlier, same⟩
  · obtain ⟨before, selecting, asking, selection, index, choosing, rfl, completes⟩ :=
      choosesToo more value back later
    exact ⟨first ++ before, selecting, asking, selection, index, choosing, by simp, completes⟩
  · cases more with
    | nil =>
      -- The value is the first event of the second log, in which nothing stands before it.
      obtain ⟨before, _, _, _, _, _, never, _⟩ := choosesToo [] value back same.symm
      cases before <;> cases never
    | cons event more =>
      obtain ⟨rfl, rfl⟩ := List.cons.inj same
      exact chooses front value more earlier

end Chooses

/-- What the log of a subtree says about a branch. -/
structure Tells (label : String) (count : Nat) (branch place : Place) (log : Log α) : Prop where
  under : ∀ event ∈ log, Under place event.place
  chooses : Chooses label count branch log

/-- What the log of the steps of a node says, from its beginning to its end. -/
structure TellsInside (label : String) (count : Nat) (branch place : Place) (log : Log α) :
    Prop where
  inside : Inside place log
  chooses : Chooses label count branch log

namespace TellsInside

variable {label : String} {count : Nat} {branch place : Place} {first second : Log α}

theorem nil : TellsInside label count branch place ([] : Log α) :=
  ⟨.nil, .of_never fun _ => List.not_mem_nil⟩

theorem append (within : TellsInside label count branch place first)
    (withinToo : TellsInside label count branch place second) :
    TellsInside label count branch place (first ++ second) :=
  ⟨within.inside.append withinToo.inside, within.chooses.append withinToo.chooses⟩

theorem of_child {index : Nat} (tells : Tells label count branch (index :: place) first) :
    TellsInside label count branch place first :=
  ⟨.of_child fun event member => ⟨index, tells.under event member⟩, tells.chooses⟩

end TellsInside

theorem Branch.Asked.within {b : Branch σ α} {label : String} {count : Nat} {branch place : Place}
    {asking : α} {state : σ} {result : Except Failure Selection × σ} {log : Log α}
    (asked : b.Asked place asking state result log) : TellsInside label count branch place log := by
  have here : ∀ event ∈ log, event.place = place ∧ event ≠ .entered place ∧
      ∀ place value, event ≠ .left place value := by
    cases asked with
    | failed _ => simp [Event.place]
    | gave _ => simp [Event.place]
  refine ⟨fun event member => ?_, .of_never fun value member => (here _ member).2.2 _ _ rfl⟩
  obtain ⟨same, unentered, unleft⟩ := here event member
  exact ⟨same ▸ List.suffix_rfl, unentered, unleft place⟩

section Steps

variable {label : String} {branches count : Nat} {branch place : Place}
  {claims : Nat → Claim σ α α}
  (each : ∀ index state result log, claims index state result log →
    Tells label branches branch (index :: place) log)
include each

theorem Action.Course.within {known : List (Option α)} {action : Action σ α β} {state : σ}
    {result : Except Failure β × σ} {log : Log α}
    (course : action.Course claims known state result log) :
    TellsInside label branches branch place log := by
  induction course with
  | done => exact .nil
  | fail => exact .nil
  | unseen _ => exact .nil
  | again _ _ ih => exact ih
  | missing _ _ ih => exact ih
  | seen _ _ ih => exact ih
  | get _ ih => exact ih
  | set _ ih => exact ih
  | fresh _ claimed _ ih => exact (TellsInside.of_child (each _ _ _ _ claimed)).append ih

theorem Symbol.Course.within {values : String → Option α} {s : Symbol σ α} {state : σ}
    {result : Except Failure α × σ} {inner : Log α}
    (course : s.Course values claims place count state result inner) :
    TellsInside label branches branch place inner := by
  have below {index : Nat} {state : σ} {result : Except Failure α × σ} {log : Log α}
      (claimed : claims index state result log) : TellsInside label branches branch place log :=
    .of_child (each _ _ _ _ claimed)
  cases course with
  | operand => exact .nil
  | known _ => exact .nil
  | unknown _ => exact .nil
  | bare _ => exact .nil
  | operator course => exact course.within each
  | function course => exact course.within each
  | stopped _ claimed => exact below claimed
  | refused _ claimed asked => exact (below claimed).append asked.within
  | astray _ claimed asked _ => exact (below claimed).append asked.within
  | chosen _ claimed asked _ claimedLast =>
    exact (below claimed).append (asked.within.append (below claimedLast))

end Steps

/- A node, its steps between its beginning and its end. -/

section Node

variable {label : String} {count : Nat} {branch place : Place} {values : String → Option α}
  {root : Tree (Symbol σ α)} {s : Symbol σ α} {cs : List (Tree (Symbol σ α))} {state : σ}
  {result : Except Failure α × σ} {inner : Log α}

theorem mem_ending {event : Event α} {outcome : Except Failure α}
    (member : event ∈ ending place outcome) :
    ∃ value, outcome = .ok value ∧ event = .left place value := by
  cases outcome with
  | error cause => cases member
  | ok value => exact ⟨value, rfl, List.mem_singleton.mp member⟩

/-- A log that does not leave a place before its end leaves it there only, with the outcome. -/
theorem eq_of_append_ending {head front back : Log α} {outcome : Except Failure α} {value : α}
    (unleft : ∀ value, .left place value ∉ head)
    (split : head ++ ending place outcome = front ++ .left place value :: back) :
    outcome = .ok value ∧ front = head := by
  rcases List.append_eq_append_iff.mp split with ⟨more, rfl, last⟩ | ⟨more, rfl, same⟩
  · cases outcome with
    | error cause => simp [ending] at last
    | ok final =>
      obtain ⟨rfl, equal⟩ | ⟨_, never⟩ := List.singleton_eq_append_iff.mp last
      · cases equal
        exact ⟨rfl, List.append_nil head⟩
      · cases never
  · cases more with
    | nil =>
      cases outcome with
      | error cause => cases same
      | ok final =>
        cases same
        exact ⟨rfl, (List.append_nil front).symm⟩
    | cons event more =>
      obtain ⟨rfl, _⟩ := List.cons.inj same
      exact absurd (List.mem_append_right front List.mem_cons_self) (unleft value)

/-- What the log of the subtree at a place says, among others about a branch. -/
def Recounts (root : Tree (Symbol σ α)) (label : String) (count : Nat) (branch : Place)
    (t : Tree (Symbol σ α))
    (place : Place) : Claim σ α α := fun _ result log =>
  root.at? place = some t →
    Tells label count branch place log ∧ ∀ value, result.1 = .ok value → Completes place value log

/-- A branch that is left with a value has chosen it. -/
theorem Chooses.of_course {b : Branch σ α} {claims : Nat → Claim σ α α}
    (course : Symbol.Course values claims place count (.call (.branch b)) state result inner)
    (inside : Inside place inner)
    (each : ∀ index state result log, claims index state result log →
      ∀ value, result.1 = .ok value → Completes (index :: place) value log) :
    Chooses b.label count place (.entered place :: (inner ++ ending place result.1)) := by
  intro front value back split
  have unleft (value : α) : .left place value ∉ (.entered place :: inner : Log α) := by
    rw [List.mem_cons, not_or]
    exact ⟨nofun, fun member => (inside _ member).2.2 value rfl⟩
  obtain ⟨came, rfl⟩ := eq_of_append_ending unleft split
  cases course with
  | bare _ => cases came
  | stopped _ _ => cases came
  | refused _ _ _ => cases came
  | astray _ _ _ _ => cases came
  | chosen positive claimed asked chose claimedLast =>
    rename_i _ _ asking selection index log _ last
    cases asked with
    | gave _ =>
      exact ⟨[], log, asking, selection, index, last, rfl, each _ _ _ _ claimed _ rfl, chose,
        Tree.one_le_chosen chose, Tree.chosen_lt chose, each _ _ _ _ claimedLast _ came⟩

theorem Recounts.node {b : Branch σ α} {bs : List (Tree (Symbol σ α))}
    (found : root.at? branch = some (.node (.call (.branch b)) bs))
    (course : s.Course values (fun index state result log =>
        ∃ c, cs[index]? = some c ∧
          Recounts root b.label bs.length branch c (index :: place) state result log)
      place cs.length state result inner) :
    Recounts root b.label bs.length branch (.node s cs) place state result
      (.entered place :: (inner ++ ending place result.1)) := by
  intro here
  have each (index : Nat) (state : σ) (result : Except Failure α × σ) (log : Log α)
      (claimed : ∃ c, cs[index]? = some c ∧
        Recounts root b.label bs.length branch c (index :: place) state result log) :
      Tells b.label bs.length branch (index :: place) log ∧
        ∀ value, result.1 = .ok value → Completes (index :: place) value log := by
    obtain ⟨c, child, recounts⟩ := claimed
    exact recounts ((Tree.at?_child here index).trans child)
  have within := course.within fun _ _ _ _ claimed => (each _ _ _ _ claimed).1
  have first : ∀ event ∈ ([.entered place] : Log α), event.place = place :=
    List.forall_mem_singleton.mpr rfl
  have last : ∀ event ∈ ending place result.1, event.place = place := by
    intro event member
    obtain ⟨value, _, rfl⟩ := mem_ending member
    rfl
  refine ⟨⟨?_, ?_⟩, ?_⟩
  · intro event member
    rcases List.mem_cons.mp member with rfl | member
    · exact List.suffix_rfl
    · rcases List.mem_append.mp member with member | member
      · exact (within.inside event member).1
      · exact last event member ▸ List.suffix_rfl
  · by_cases same : place = branch
    · subst same
      cases here.symm.trans found
      exact .of_course course within.inside fun _ _ _ _ claimed => (each _ _ _ _ claimed).2
    · have entered : Chooses b.label bs.length branch ([.entered place] : Log α) :=
        .of_elsewhere fun event member => first event member ▸ same
      have left : Chooses b.label bs.length branch (ending place result.1) :=
        .of_elsewhere fun event member => last event member ▸ same
      exact entered.append (within.chooses.append left)
  · intro value came
    exact ⟨inner, by rw [came]; rfl, within.inside⟩

end Node

/- A tree in which the target is put out for another one. -/

/-- The steps of an action whose log does not enter the target are also those over other parameters
that do the same unless they enter it. -/
theorem Action.Course.run_eq {target : Place} {others : List (Effect σ α)}
    {claims : Nat → Claim σ α α} {known : List (Option α)} {action : Action σ α β} {state : σ}
    {result : Except Failure β × σ} {log : Log α}
    (course : action.Course claims known state result log)
    (each : ∀ index state result log, claims index state result log → .entered target ∉ log →
      ∃ other, others[index]? = some other ∧ other.run state = result)
    (full : known.length = others.length) (unforced : .entered target ∉ log) :
    (action.run others known).run state = result := by
  induction course with
  | done => rfl
  | fail => rfl
  | again found _ ih =>
    rw [Action.run, found]
    exact ih full unforced
  | missing unknown _ ih =>
    rw [Action.run, unknown, List.getElem?_eq_none (full ▸ List.getElem?_eq_none_iff.mp unknown)]
    exact ih full unforced
  | fresh unread claimed _ ih =>
    rw [List.mem_append, not_or] at unforced
    obtain ⟨other, there, same⟩ := each _ _ _ _ claimed unforced.1
    rw [Action.run, unread]
    simp only [there]
    rw [Effect.run_observing_bind, same]
    exact ih (by simpa using full) unforced.2
  | unseen unknown =>
    rw [Action.run, unknown]
    rfl
  | seen found _ ih =>
    rw [Action.run, found]
    exact ih full unforced
  | get _ ih => exact ih full unforced
  | set _ ih => exact ih full unforced

theorem Symbol.Course.run_eq {target place : Place} {others : List (Effect σ α)}
    {values : String → Option α} {claims : Nat → Claim σ α α} {s : Symbol σ α} {state : σ}
    {result : Except Failure α × σ} {inner : Log α}
    (course : s.Course values claims place others.length state result inner)
    (each : ∀ index state result log, claims index state result log → .entered target ∉ log →
      ∃ other, others[index]? = some other ∧ other.run state = result)
    (unforced : .entered target ∉ inner) : (Tree.apply values s others).run state = result := by
  have unread : List.replicate others.length (none : Option α) = others.map fun _ => none :=
    List.map_const'.symm
  have selects {state : σ} {result : Except Failure α × σ} {log : Log α} (b : Branch σ α)
      (claimed : claims 0 state result log) (unforced : .entered target ∉ log) :
      ∃ selector, selector.run state = result ∧ Tree.apply values (.call (.branch b)) others =
        selector >>= fun value => (b.choice value).start [] >>= Tree.taken b.label others := by
    obtain ⟨selector, there, same⟩ := each _ _ _ _ claimed unforced
    obtain ⟨rest, rfl⟩ := List.head?_eq_some_iff.mp (List.head?_eq_getElem?.trans there)
    exact ⟨selector, same, Tree.apply_branch values b selector rest⟩
  cases course with
  | operand => rfl
  | known found =>
    rw [Tree.apply, found]
    rfl
  | unknown missing =>
    rw [Tree.apply, missing]
    rfl
  | operator course => exact (unread ▸ course).run_eq each (List.length_map _) unforced
  | function course => exact (unread ▸ course).run_eq each (List.length_map _) unforced
  | bare empty =>
    obtain rfl := List.length_eq_zero_iff.mp empty
    rfl
  | stopped _ claimed =>
    obtain ⟨selector, same, applied⟩ := selects _ claimed unforced
    rw [applied, Effect.run_bind_of_error same]
  | refused _ claimed asked =>
    rw [List.mem_append, not_or] at unforced
    obtain ⟨selector, same, applied⟩ := selects _ claimed unforced.1
    cases asked with
    | failed failed => rw [applied, Effect.run_bind_of_ok same, Effect.run_bind_of_error failed]
  | astray _ claimed asked chose =>
    rw [List.mem_append, not_or] at unforced
    obtain ⟨selector, same, applied⟩ := selects _ claimed unforced.1
    cases asked with
    | gave gave =>
      rw [applied, Effect.run_bind_of_ok same, Effect.run_bind_of_ok gave]
      simp only [Tree.taken, chose]
      rfl
  | chosen _ claimed asked chose claimedLast =>
    rw [List.mem_append, List.mem_append, not_or, not_or] at unforced
    obtain ⟨selector, same, applied⟩ := selects _ claimed unforced.1
    obtain ⟨last, thereLast, sameLast⟩ := each _ _ _ _ claimedLast unforced.2.2
    cases asked with
    | gave gave =>
      rw [applied, Effect.run_bind_of_ok same, Effect.run_bind_of_ok gave]
      simp only [Tree.taken, chose, thereLast]
      exact sameLast

namespace Tree

/-- The tree with the target put out does what the tree does, unless the log enters the target. -/
def Spares (values : String → Option α) (target : Place) (new t : Tree (Symbol σ α))
    (place : Place) :
    Claim σ α α := fun state result log =>
  .entered target ∉ log → ((replaced target new place t).evaluate values).run state = result

theorem spares_node {values : String → Option α} {target place : Place} {new : Tree (Symbol σ α)}
    {s : Symbol σ α} {cs : List (Tree (Symbol σ α))} {state : σ} {result : Except Failure α × σ}
    {inner : Log α}
    (course : s.Course values (fun index state result log =>
        ∃ c, cs[index]? = some c ∧ Spares values target new c (index :: place) state result log)
      place cs.length state result inner) :
    Spares values target new (.node s cs) place state result
      (.entered place :: (inner ++ ending place result.1)) := by
  intro unforced
  rw [List.mem_cons, List.mem_append, not_or, not_or] at unforced
  obtain ⟨elsewhere, unforced, _⟩ := unforced
  have differs : place ≠ target := fun same => elsewhere (same ▸ rfl)
  rw [replaced, if_neg differs, evaluate, evaluateAll_eq_map]
  have length : ((replacedAll target new place 0 cs).map (evaluate values)).length = cs.length := by
    rw [List.length_map, length_replacedAll]
  rw [← length] at course
  refine course.run_eq ?_ unforced
  rintro index state result log ⟨c, child, spares⟩ spared
  refine ⟨_, ?_, spares spared⟩
  rw [List.getElem?_map, getElem?_replacedAll, child, Nat.zero_add]
  rfl

end Tree

namespace Expression

/-- The expression whose nodes write down when they are entered and left, and whose branches what
their choices are asked and give. -/
def watched (e : Expression σ α) : Expression (σ × Log α) α :=
  ⟨e.root.watched [], e.constants, e.print, e.stamp⟩

/-- The expression with another tree in place of the subtree at the target. -/
def replaced (e : Expression σ α) (target : Place) (new : Tree (Symbol σ α)) : Expression σ α :=
  { e with root := .replaced target new [] e.root }

/-- An evaluation comes to the same with a log, whatever the callbacks read, catch and try again. A
subtree that the log does not enter can be put out for any other one, and every branch that is left
with a value has entered its selector, asked its choice, and entered the chosen one of its other
parameters, once each since it was entered, and nothing else. -/
theorem evaluate_unforced (e : Expression σ α) (bindings : List (String × α)) (state : σ) :
    ∃ log : Log α,
      (e.watched.evaluate bindings).run (state, []) =
        (((e.evaluate bindings).run state).1, ((e.evaluate bindings).run state).2, log) ∧
      (∀ target new, .entered target ∉ log →
        ((e.replaced target new).evaluate bindings).run state =
          (e.evaluate bindings).run state) ∧
      ∀ place b cs, e.root.at? place = some (.node (.call (.branch b)) cs) →
        Chooses b.label cs.length place log := by
  let values := valueOf bindings e.constants
  obtain ⟨log, same, _⟩ := Tree.watches (fun _ _ _ _ _ => True)
    (fun _ _ _ _ _ _ _ => trivial) e.root [] state []
  -- Every claim is about the one log that the watched evaluation leaves.
  have claimed {claim : Tree (Symbol σ α) → Place → Claim σ α α}
      (watches : Watches (claim e.root []) ((e.root.watched []).evaluate values)
        (e.root.evaluate values)) :
      claim e.root [] state ((e.root.evaluate values).run state) log := by
    obtain ⟨added, sameToo, holds⟩ := watches state []
    have equal : log = added := by simpa using congrArg (·.2.2) (same.symm.trans sameToo)
    exact equal ▸ holds
  refine ⟨log, same, fun target new unforced => ?_, fun place b cs found => ?_⟩
  · exact claimed (Tree.watches (Tree.Spares values target new)
      (fun _ _ _ _ _ _ => Tree.spares_node) e.root []) unforced
  · have recounts := claimed (Tree.watches
      (Recounts e.root b.label cs.length place) (fun _ _ _ _ _ _ => Recounts.node found)
      e.root []) rfl
    exact recounts.1.chooses

/-- A function that leaves a trace of its operand as it gives it. -/
def traced : Function (List Nat) Nat where
  label := "traced"
  arity := .exactly 1
  body _ := (Action.parameter 0).bind fun value =>
    .get fun trace => .set (trace ++ [value]) (.done value)

/-- A function that does the same, but fails the first time. -/
def balky : Function (List Nat) Nat where
  label := "balky"
  arity := .exactly 1
  body _ := (Action.parameter 0).bind fun value => .get fun trace => .set (trace ++ [value])
    (if value ∈ trace then .done value else .fail (.raised "balked"))

/-- A function that catches the failure of its operand and tries again. -/
def retrying : Function (List Nat) Nat where
  label := "retrying"
  arity := .exactly 1
  body _ := .read 0 fun
    | .ok value => .done value
    | .error _ => Action.parameter 0

def pick : Branch (List Nat) Nat where
  label := "pick"
  arity := .exactly 3
  choice value := .done (.index value)

/-- A branch that takes the first of two parameters, which fails once. -/
def picking : Expression (List Nat) Nat where
  root := .node (.call (.function retrying)) [.node (.call (.branch pick))
    ([(traced, 1), (balky, 5), (traced, 7)].map fun (f, value) =>
      .node (.call (.function f)) [.node (.operand value) []])]
  constants := .empty
  print n := .ok (toString n)
  stamp := 0

theorem evaluate_unforced_picking :
    ∃ log : Log Nat, (picking.watched.evaluate []).run ([], []) = (.ok 5, [1, 5, 1, 5], log) ∧
      .left [0] 5 ∈ log ∧ Chooses "pick" 3 [0] log ∧ .entered [2, 0] ∉ log ∧
      ∀ new, ((picking.replaced [2, 0] new).evaluate []).run [] = (.ok 5, [1, 5, 1, 5]) := by
  obtain ⟨log, same, spared, chooses⟩ := evaluate_unforced picking [] []
  have plain : (picking.evaluate []).run [] = (.ok 5, [1, 5, 1, 5]) := rfl
  rw [plain] at same spared
  have watched : ((picking.watched.evaluate []).run ([], [])).2.2 =
      [.entered [], .entered [0], .entered [0, 0], .entered [0, 0, 0], .left [0, 0, 0] 1,
        .left [0, 0] 1, .asked [0] 1, .chose [0] (.index 1), .entered [1, 0], .entered [0, 1, 0],
        .left [0, 1, 0] 5, .entered [0], .entered [0, 0], .entered [0, 0, 0], .left [0, 0, 0] 1,
        .left [0, 0] 1, .asked [0] 1, .chose [0] (.index 1), .entered [1, 0], .entered [0, 1, 0],
        .left [0, 1, 0] 5, .left [1, 0] 5, .left [0] 5, .left [] 5] := by decide +kernel
  have written : log = _ := (congrArg (·.2.2) same.symm).trans watched
  have unforced : .entered [2, 0] ∉ log := by simp [written]
  refine ⟨log, same, by simp [written], chooses [0] pick _ rfl, unforced, fun new => ?_⟩
  exact spared [2, 0] new unforced

end Expression

end InfixCalc
