import InfixCalc.Calculator.Basic
import InfixCalc.Proofs.Real.RoundTrip
import InfixCalc.Proofs.Session

/-!
# What a calculator keeps

Evaluations, assignments and clearings may come in any order and may fail. The last result is always
the value of the last calculation in the history, and every stored name is read as the variable
that it is, so that its value can be asked for by the name alone.
-/

namespace InfixCalc

open InfixCalc.Number

variable {σ α : Type}

/-- A depth limit that is configured leaves room for one level. -/
theorem Config.within_one {given : Setting} {limit : Option Nat}
    (read : readMaxDepth given = .ok limit) : Within limit 1 := by
  unfold readMaxDepth at read
  split at read
  · cases read
    exact within_none 1
  · split at read
    · rename_i level positive
      cases read
      have one := Setting.le_of_atLeast? positive
      rw [within_some]
      omega
    · cases read

/-- A text that is scanned as one variable is read as that variable. -/
theorem Scanner.root_variable {scanner : Scanner σ α} {limit : Option Nat} {text label : String}
    (scanned : scanner.scan text = .ok [.symbol (.variable label)]) (room : Within limit 1) :
    scanner.root limit text = .ok (.node (.variable label) []) := by
  have parsed : Tree.parse limit [.symbol (.variable label)] =
      .ok (.node (.variable label : Symbol σ α) []) :=
    Tree.parse_eq_ok_iff.mpr
      ⟨⟨.name label, rfl, ⟨.name label, .name label⟩, rfl⟩, room.mono (Nat.zero_le 1), room⟩
  have displays : Symbol.Displays scanner.config.display
      (Tree.postorder (.node (.variable label : Symbol σ α) [])) := by
    intro value member
    cases List.mem_singleton.mp member
  exact bind_eq_ok_iff.mpr ⟨_, scanned, Tree.ofTokens_eq_ok_iff.mpr ⟨parsed, displays⟩⟩

namespace Calculator

/-- What is asked of a calculator. -/
inductive Request where
  | evaluate (text : String)
  | assign (line : String)
  | store (name : String) (value : Float)
  | clearHistory
  | clearAll

def serve (c : Calculator) : Request → Calculator
  | .evaluate text => (c.evaluate text).2
  | .assign line => (c.assign line).2
  | .store name value => (c.setVariable name value).2
  | .clearHistory => c.clearHistory
  | .clearAll => c.clearAll

def serveAll (c : Calculator) (requests : List Request) : Calculator := requests.foldl serve c

/-- The value of the last calculation, and zero before the first one. -/
def latest (history : List (String × Float)) : Float := (history.getLast?.map (·.2)).getD 0

/-- The name is one variable for the builder, and neither the last result nor a constant. -/
structure IsFree (b : Builder Seed Float) (name : String) : Prop where
  scanned : (Scanner.make b.vocabulary b.config).scan name = .ok [.symbol (.variable name)]
  untaken : name ≠ answerName ∧ b.vocabulary.constants.contains name = false

/-- The history, the stored variables and the last result are the same. -/
structure SameBooks (c next : Calculator) : Prop where
  history : next.history = c.history
  stored : next.stored = c.stored
  lastResult : next.lastResult = c.lastResult

/-- What an evaluation gives and leaves behind: a value becomes the last result and the last line of
the history, and a failure changes no books. -/
inductive Evaluates (c : Calculator) : Except Failure Float → Calculator → Prop where
  | failed {cause : Failure} {next : Calculator} :
      SameBooks c next → Evaluates c (.error cause) next
  | came {value : Float} {shown : String} {next : Calculator} :
      next.history = c.history ++ [(shown, value)] → next.stored = c.stored →
        next.lastResult = value → Evaluates c (.ok value) next

/-- What it gives and leaves behind to store a variable: its name must be free. -/
inductive Stores (c : Calculator) (name : String) (value : Float) :
    Except Failure Unit → Calculator → Prop where
  | refused {next : Calculator} :
      SameBooks c next → Stores c name value (.error (.reservedName name)) next
  | stored {next : Calculator} :
      IsFree c.builder name → next.history = c.history →
      next.stored = c.stored.insert name value → next.lastResult = c.lastResult →
        Stores c name value (.ok ()) next

/-- What an assignment gives and leaves behind, step by step. -/
inductive Assigns (c : Calculator) (line : String) :
    Except Failure (Option (String × Float)) → Calculator → Prop where
  | none : Assignment.ofLine? line = none → Assigns c line (.ok none) c
  | failed {assignment : Assignment} {cause : Failure} {next : Calculator} :
      Assignment.ofLine? line = some assignment →
      c.evaluate assignment.source = (.error cause, next) → Assigns c line (.error cause) next
  | refused {assignment : Assignment} {value : Float} {cause : Failure}
      {between next : Calculator} :
      Assignment.ofLine? line = some assignment →
      c.evaluate assignment.source = (.ok value, between) →
      between.setVariable assignment.name value = (.error cause, next) →
        Assigns c line (.error cause) next
  | stored {assignment : Assignment} {value : Float} {between next : Calculator} :
      Assignment.ofLine? line = some assignment →
      c.evaluate assignment.source = (.ok value, between) →
      between.setVariable assignment.name value = (.ok (), next) →
        Assigns c line (.ok (some (assignment.name, value))) next

theorem assigns_assign (c : Calculator) (line : String) :
    Assigns c line (c.assign line).1 (c.assign line).2 := by
  unfold assign
  cases given : Assignment.ofLine? line with
  | none => exact .none given
  | some assignment =>
    simp only
    cases evaluated : c.evaluate assignment.source with
    | mk outcome between =>
      cases outcome with
      | error cause => exact .failed given evaluated
      | ok value =>
        simp only
        cases storing : between.setVariable assignment.name value with
        | mk outcome next =>
          cases outcome with
          | error cause => exact .refused given evaluated storing
          | ok done => exact .stored given evaluated storing

theorem isVariable_iff {name : String} {tokens : List (Token σ α)} :
    isVariable name tokens = true ↔ tokens = [.symbol (.variable name)] := by
  unfold isVariable
  split
  · simp
  · rename_i other
    simp only [Bool.false_eq_true, false_iff]
    exact fun same => other name same

section Steps

variable {first : Builder Seed Float} {c : Calculator} (used : first.Used c.builder)
include used

theorem evaluate_spec (prints : ∀ text e, (c.builder.build text).1 = .ok e →
    ∃ shown, e.written = .ok shown) (text : String) :
    Evaluates c (c.evaluate text).1 (c.evaluate text).2 ∧
      first.Used (c.evaluate text).2.builder := by
  have later := used.build text
  have prints := prints text
  unfold evaluate
  generalize c.builder.build text = build at prints later
  obtain ⟨built, builder⟩ := build
  cases built with
  | error cause => exact ⟨.failed ⟨rfl, rfl, rfl⟩, later⟩
  | ok e =>
    obtain ⟨shown, written⟩ := prints e rfl
    simp only [written]
    cases (e.evaluate (bindings { c with builder := builder })).run c.seed with
    | mk outcome seed =>
      cases outcome with
      | error cause => exact ⟨.failed ⟨rfl, rfl, rfl⟩, later⟩
      | ok value => exact ⟨.came rfl rfl rfl, later⟩

theorem setVariable_spec (consistent : c.builder.Consistent) (name : String) (value : Float) :
    Stores c name value (c.setVariable name value).1 (c.setVariable name value).2 ∧
      first.Used (c.setVariable name value).2.builder := by
  have scanned := consistent.tokenize_eq name
  have later := used.tokenize name
  unfold setVariable
  split
  · exact ⟨.refused ⟨rfl, rfl, rfl⟩, used⟩
  · rename_i free
    simp only [Bool.or_eq_true, beq_iff_eq, not_or, Bool.not_eq_true] at free
    generalize c.builder.tokenize name = found at scanned later
    obtain ⟨found, builder⟩ := found
    cases found with
    | error cause => exact ⟨.refused ⟨rfl, rfl, rfl⟩, later⟩
    | ok tokens =>
      cases alone : isVariable name tokens with
      | false =>
        simp only [alone, Bool.false_eq_true, if_false]
        exact ⟨.refused ⟨rfl, rfl, rfl⟩, later⟩
      | true =>
        simp only [alone, if_true]
        rw [isVariable_iff.mp alone] at scanned
        exact ⟨.stored ⟨scanned.symm, free⟩ rfl rfl rfl, later⟩

theorem exists_shown (consistent : first.Consistent)
    (prints : ∀ x, ∃ shown, first.config.print x = .ok shown) (text : String)
    (e : Expression Seed Float) (built : (c.builder.build text).1 = .ok e) :
    ∃ shown, e.written = .ok shown := by
  obtain ⟨kept, config, _⟩ := used.kept consistent
  have print := ((kept.build text).sound e built).print
  rw [Expression.written, print, config]
  exact Tree.exists_written fun x _ => prints x

end Steps

/- What is kept from request to request. -/

/-- The calculator has used the builder, and its books are in order. -/
structure Kept (first : Builder Seed Float) (c : Calculator) : Prop where
  used : first.Used c.builder
  latest : c.lastResult = latest c.history
  names : ∀ name value, c.stored.get? name = some value → IsFree first name

namespace Kept

variable {first : Builder Seed Float} {c next : Calculator}

theorem sameBooks (kept : Kept first c) (same : SameBooks c next)
    (used : first.Used next.builder) : Kept first next := by
  refine ⟨used, ?_, ?_⟩
  · rw [same.lastResult, same.history]
    exact kept.latest
  · rw [same.stored]
    exact kept.names

theorem evaluates (kept : Kept first c) {outcome : Except Failure Float}
    (evaluates : Evaluates c outcome next) (used : first.Used next.builder) : Kept first next := by
  cases evaluates with
  | failed same => exact kept.sameBooks same used
  | came history stored lastResult =>
    refine ⟨used, ?_, ?_⟩
    · rw [lastResult, history]
      simp [Calculator.latest]
    · rw [stored]
      exact kept.names

theorem stores (kept : Kept first c) (consistent : first.Consistent) {name : String}
    {value : Float} {outcome : Except Failure Unit} (stores : Stores c name value outcome next)
    (used : first.Used next.builder) : Kept first next := by
  cases stores with
  | refused same => exact kept.sameBooks same used
  | stored free history stored lastResult =>
    refine ⟨used, ?_, ?_⟩
    · rw [lastResult, history]
      exact kept.latest
    · intro other found there
      rw [stored, Entries.get?_insert] at there
      split at there
      · rename_i same
        obtain ⟨_, config, vocabulary⟩ := kept.used.kept consistent
        rw [same]
        exact ⟨config ▸ vocabulary ▸ free.scanned, free.untaken.1, vocabulary ▸ free.untaken.2⟩
      · exact kept.names other found there

/-- A value that was asked for by an assignment is kept even if the name is refused. -/
theorem serve (kept : Kept first c) (consistent : first.Consistent)
    (prints : ∀ x, ∃ shown, first.config.print x = .ok shown) (request : Request) :
    Kept first (c.serve request) := by
  have evaluated {text : String} {outcome : Except Failure Float} {next : Calculator}
      (ran : c.evaluate text = (outcome, next)) : Kept first next := by
    obtain ⟨evaluates, used⟩ := evaluate_spec kept.used
      (exists_shown kept.used consistent prints) text
    rw [ran] at evaluates used
    exact kept.evaluates evaluates used
  have stored {d next : Calculator} (kept : Kept first d) {name : String} {value : Float}
      {outcome : Except Failure Unit} (ran : d.setVariable name value = (outcome, next)) :
      Kept first next := by
    obtain ⟨stores, used⟩ := setVariable_spec kept.used (kept.used.kept consistent).1 name value
    rw [ran] at stores used
    exact kept.stores consistent stores used
  cases request with
  | evaluate text => exact evaluated rfl
  | store name value => exact stored kept rfl
  | clearHistory => exact ⟨kept.used, rfl, kept.names⟩
  | clearAll => exact ⟨kept.used, rfl, fun _ _ never => nomatch never⟩
  | assign line =>
    change Kept first (c.assign line).2
    have assigns := assigns_assign c line
    generalize c.assign line = assigned at assigns
    obtain ⟨outcome, next⟩ := assigned
    cases assigns with
    | none _ => exact kept
    | failed _ came => exact evaluated came
    | refused _ came storing => exact stored (evaluated came) storing
    | stored _ came storing => exact stored (evaluated came) storing

theorem serveAll (kept : Kept first c) (consistent : first.Consistent)
    (prints : ∀ x, ∃ shown, first.config.print x = .ok shown) (requests : List Request) :
    Kept first (c.serveAll requests) := by
  induction requests generalizing c with
  | nil => exact kept
  | cons request later ih => exact ih (kept.serve consistent prints request)

/-- A stored value is what its name alone evaluates to. -/
theorem evaluate_name (kept : Kept first c) (consistent : first.Consistent)
    (prints : ∀ x, ∃ shown, first.config.print x = .ok shown)
    (room : Within first.config.maxDepth 1) {name : String} {value : Float}
    (there : c.stored.get? name = some value) : (c.evaluate name).1 = .ok value := by
  obtain ⟨scanned, other, _⟩ := kept.names name value there
  obtain ⟨consistentNow, config, vocabulary⟩ := kept.used.kept consistent
  have read : (Scanner.make c.builder.vocabulary c.builder.config).root
      c.builder.config.maxDepth name = .ok (.node (.variable name) []) := by
    rw [config, vocabulary]
    exact Scanner.root_variable scanned room
  obtain ⟨e, built, root⟩ := (consistentNow.build name).complete _ read ⟨name, rfl⟩
  obtain ⟨shown, written⟩ := exists_shown kept.used consistent prints name e built
  unfold evaluate
  generalize c.builder.build name = build at built
  obtain ⟨outcome, builder⟩ := build
  cases built
  have known : valueOf (bindings c) e.constants name = some value := by
    have apart : (name == answerName) = false := beq_eq_false_iff_ne.mpr other
    rw [valueOf, bindings, List.lookup_cons, apart]
    exact congrArg (· <|> e.constants.get? name) there
  have came : (e.evaluate (bindings { c with builder := builder })).run c.seed =
      (.ok value, c.seed) := by
    change (e.evaluate (bindings c)).run c.seed = _
    rw [Expression.evaluate, root, Tree.evaluate, Tree.apply, known]
    rfl
  simp only [written, came]

end Kept

/-- The last result is the value of the last calculation. Every stored name is read as that one
variable, is neither the last result nor a constant, and evaluates to what is stored. An evaluation
that fails changes no books. -/
structure InOrder (c : Calculator) : Prop where
  lastResult : c.lastResult = latest c.history
  stored : ∀ name value, c.stored.get? name = some value →
    (c.builder.tokenize name).1 = .ok [.symbol (.variable name)] ∧ name ≠ answerName ∧
      c.builder.vocabulary.constants.contains name = false ∧ (c.evaluate name).1 = .ok value
  failed : ∀ text cause, (c.evaluate text).1 = .error cause → SameBooks c (c.evaluate text).2

/-- The books of a calculator over a builder for real numbers are in order after all requests,
whether they fail or not. -/
theorem inOrder_serveAll {cacheSize maxDepth : Setting} {first : Builder Seed Float}
    (made : Real.builder cacheSize maxDepth = .ok first) (requests : List Request) :
    ((ofBuilder first).serveAll requests).InOrder := by
  obtain ⟨consistent, _, _, _, print, _⟩ := Real.builder_eq_ok made
  have prints : ∀ x, ∃ shown, first.config.print x = .ok shown :=
    fun x => ⟨Real.format x, by rw [print]⟩
  have room : Within first.config.maxDepth 1 := by
    obtain ⟨config, configured, made⟩ := bind_eq_ok_iff.mp made
    obtain ⟨_, _, _, _, depth⟩ := Config.standard_eq_ok configured
    obtain ⟨cache, _, same⟩ := bind_eq_ok_iff.mp made
    cases same
    exact Config.within_one depth
  have start : Kept first (ofBuilder first) :=
    ⟨.new, rfl, fun _ _ never => nomatch never⟩
  have kept := start.serveAll consistent prints requests
  generalize (ofBuilder first).serveAll requests = c at kept
  obtain ⟨consistentNow, config, vocabulary⟩ := kept.used.kept consistent
  refine ⟨kept.latest, fun name value there => ?_, fun text cause failed => ?_⟩
  · obtain ⟨scanned, other, noConstant⟩ := kept.names name value there
    refine ⟨?_, other, vocabulary ▸ noConstant, kept.evaluate_name consistent prints room there⟩
    rw [consistentNow.tokenize_eq, config, vocabulary]
    exact scanned
  · have spec := (evaluate_spec kept.used (exists_shown kept.used consistent prints) text).1
    rw [failed] at spec
    cases spec with
    | failed same => exact same

/- A variable that is stored under a name and asked for by it. -/

def cachingBuilder : Builder Seed Float :=
  { Real.seedBuilder with cache := some (.empty cacheSize) }

theorem made_cachingBuilder : freshBuilder = .ok cachingBuilder := rfl

/-- A variable can be stored under every free name. -/
theorem IsFree.setVariable {c : Calculator} {name : String} (free : IsFree c.builder name)
    (consistent : c.builder.Consistent) (value : Float) :
    (c.setVariable name value).1 = .ok () ∧
      (c.setVariable name value).2.stored = c.stored.insert name value := by
  obtain ⟨scanned, other, noConstant⟩ := free
  have tokens := (consistent.tokenize_eq name).trans scanned
  have untaken : (name == answerName || c.builder.vocabulary.constants.contains name) = false := by
    rw [beq_eq_false_iff_ne.mpr other, noConstant]
    rfl
  unfold Calculator.setVariable
  rw [if_neg (by rw [untaken]; exact Bool.false_ne_true)]
  simp only [tokens, isVariable_iff.mpr, if_true, and_self]

theorem isFree_x : IsFree cachingBuilder "x" where
  scanned := Real.ready_seedBuilder.scan_eq_ok (.name "x") Real.yields_x
  untaken := by decide +kernel

/-- A calculator that has stored a variable. -/
def holdingTwo : Calculator := (ofBuilder cachingBuilder).serve (.store "x" Real.two)

theorem get?_holdingTwo : holdingTwo.stored.get? "x" = some Real.two := by
  have free : IsFree (ofBuilder cachingBuilder).builder "x" := isFree_x
  have stored := (free.setVariable (Real.builder_eq_ok made_cachingBuilder).1 Real.two).2
  change ((ofBuilder cachingBuilder).setVariable "x" Real.two).2.stored.get? "x" = _
  rw [stored, Entries.get?_insert]
  exact if_pos rfl

/-- The value that is stored under a name comes back, also after an evaluation that fails. -/
theorem inOrder_serveAll_stored :
    freshBuilder = .ok cachingBuilder ∧
      ((ofBuilder cachingBuilder).serveAll [.store "x" Real.two]).stored.get? "x" =
        some Real.two ∧
      ((ofBuilder cachingBuilder).serveAll [.store "x" Real.two]).InOrder ∧
      (((ofBuilder cachingBuilder).serveAll [.store "x" Real.two]).evaluate "x").1 =
        .ok Real.two := by
  have stored : ((ofBuilder cachingBuilder).serveAll [.store "x" Real.two]).stored.get? "x" =
      some Real.two := get?_holdingTwo
  have inOrder := inOrder_serveAll made_cachingBuilder [.store "x" Real.two]
  exact ⟨made_cachingBuilder, stored, inOrder, (inOrder.stored "x" Real.two stored).2.2.2⟩

end Calculator
end InfixCalc
