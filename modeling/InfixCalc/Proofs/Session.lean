import InfixCalc.Proofs.RoundTrip
import InfixCalc.Proofs.Vocabulary.Kept

/-!
# Sessions

A builder answers one request after another: to change its vocabulary, to scan a text, to build
one. What it remembers and what it has cached do not show in its answers, and the cache never holds
an expression of an older vocabulary once a build is over.
-/

namespace InfixCalc

variable {σ α : Type}

namespace Scanner

/- Scanning does not read the version of the vocabulary. -/

theorem scanAll_copy (v : Vocabulary σ α) (config : Config α) (labels : List (List Char))
    (whole : List Char) (state : State σ α) :
    (Scanner.mk v.copy config labels).scanAll whole state =
      (Scanner.mk v config labels).scanAll whole state := by
  have step_eq : (Scanner.mk v.copy config labels).step = (Scanner.mk v config labels).step := rfl
  fun_induction scanAll (Scanner.mk v config labels) whole state with
  | case1 state ended => rw [scanAll, if_pos ended]
  | case2 state more behind cause failed =>
    rw [scanAll, if_neg more]
    simp only [step_eq, behind, failed]
  | case3 state more behind next moved shorter ih =>
    rw [scanAll, if_neg more]
    simp only [step_eq, behind, moved, if_pos shorter, ih]
  | case4 state more behind next moved longer cause failed =>
    rw [scanAll, if_neg more]
    simp only [step_eq, behind, moved, if_neg longer, failed]
  | case5 state more behind next moved longer again stays =>
    rw [scanAll, if_neg more]
    simp only [step_eq, behind, moved, if_neg longer, stays]

theorem scan_copy (v : Vocabulary σ α) (config : Config α) (text : String) :
    (Scanner.make v.copy config).scan text = (Scanner.make v config).scan text := by
  unfold scan
  simp only
  split
  · rfl
  · exact scanAll_copy v config _ _ _

theorem root_copy (v : Vocabulary σ α) (config : Config α) (maxDepth : Option Nat)
    (text : String) :
    (Scanner.make v.copy config).root maxDepth text =
      (Scanner.make v config).root maxDepth text := by
  unfold root
  rw [scan_copy]
  rfl

end Scanner

/-- An expression without the stamp that tells it from other builds of its text. -/
def Expression.unstamped (e : Expression σ α) : Expression σ α := { e with stamp := 0 }

namespace Builder

/-- What is asked of a builder. -/
inductive Request (σ α : Type) where
  | edit (edit : Vocabulary.Edit σ α)
  | tokenize (text : String)
  | build (text : String)

inductive Reply (σ α : Type) where
  | edited (answer : Except Failure (Vocabulary.Answer σ α))
  | tokens (tokens : Except Failure (List (Token σ α)))
  | expression (built : Except Failure (Expression σ α))

def serve (b : Builder σ α) : Request σ α → Reply σ α × Builder σ α
  | .edit edit =>
    let (answer, w) := edit.perform.run b.vocabulary
    (.edited answer, { b with vocabulary := w })
  | .tokenize text =>
    let (tokens, b) := b.tokenize text
    (.tokens tokens, b)
  | .build text =>
    let (built, b) := b.build text
    (.expression (built.map Expression.unstamped), b)

def serveAll (b : Builder σ α) : List (Request σ α) → List (Reply σ α) × Builder σ α
  | [] => ([], b)
  | request :: later =>
    let (reply, b) := b.serve request
    let (replies, b) := b.serveAll later
    (reply :: replies, b)

/-- What a new builder without a cache, over a copy of the vocabulary, gives. -/
def afresh {β : Type} (config : Config α) (v : Vocabulary σ α)
    (ask : Builder σ α → Except Failure β) : Except Failure β := do
  let b ← make config v.copy .absent
  ask b

/-- The replies to requests where each is answered afresh and only the vocabulary is kept. -/
def repliesAfresh (config : Config α) (v : Vocabulary σ α) :
    List (Request σ α) → List (Reply σ α)
  | [] => []
  | .edit edit :: later =>
    let (answer, w) := edit.perform.run v
    .edited answer :: repliesAfresh config w later
  | .tokenize text :: later =>
    .tokens (afresh config v fun b => (b.tokenize text).1) :: repliesAfresh config v later
  | .build text :: later =>
    .expression (afresh config v fun b => (b.build text).1.map Expression.unstamped) ::
      repliesAfresh config v later

/- What a consistent builder gives does not depend on what it remembers. -/

/-- With the default patterns a numeral that can be read is one operand. -/
theorem Consistent.tokenize_numeral {b : Builder σ α} (consistent : b.Consistent)
    (standard : b.config.IsStandard) (leaves : b.vocabulary.LeavesDigits) {cs : List Char}
    (numeral : IsNumeral cs) {value : α} (reads : b.config.read (String.ofList cs) = some value) :
    (b.tokenize (String.ofList cs)).1 = .ok [.symbol (.operand value)] := by
  have ready : (Scanner.make b.vocabulary b.config).Ready := ⟨standard, rfl, consistent.regular⟩
  rw [consistent.tokenize_eq]
  exact ready.scan_numeral leaves numeral reads

theorem Consistent.build_error {b : Builder σ α} (consistent : b.Consistent) {text : String}
    {cause : Failure}
    (failed : (Scanner.make b.vocabulary b.config).root b.config.maxDepth text = .error cause) :
    (b.build text).1 = .error cause := by
  obtain ⟨looks, finds⟩ := looksUp_lookUp b text
  have kept := consistent.looksUp looks
  obtain ⟨config, vocabulary, _, _⟩ := looks
  unfold Builder.build
  generalize b.lookUp text = looked at finds kept config vocabulary
  obtain ⟨found, c⟩ := looked
  cases found with
  | some e =>
    obtain ⟨cache, original, member⟩ := finds e rfl
    have built := (consistent.entries cache original _ e member).2 rfl
    cases failed.symm.trans built.root
  | none =>
    simp only at kept config vocabulary ⊢
    rw [kept.construct_eq, vocabulary, config, failed]
    rfl

theorem Consistent.build_eq_of_literals {b : Builder σ α} (consistent : b.Consistent)
    {text : String}
    (prints : ∀ root, (Scanner.make b.vocabulary b.config).root b.config.maxDepth text = .ok root →
      ∀ value, .operand value ∈ root.postorder → ∃ shown, b.config.print value = .ok shown) :
    (b.build text).1.map Expression.unstamped =
      ((Scanner.make b.vocabulary b.config).root b.config.maxDepth text).map fun root =>
        ⟨root, b.vocabulary.constants, b.config.print, 0⟩ := by
  cases read : (Scanner.make b.vocabulary b.config).root b.config.maxDepth text with
  | error cause =>
    rw [consistent.build_error read]
    rfl
  | ok root =>
    have spec := consistent.build text
    have written := Tree.exists_written (prints root read)
    obtain ⟨e, built, rfl⟩ := spec.complete root read written
    obtain ⟨_, constants, print⟩ := spec.sound e built
    rw [built, ← constants, ← print]
    rfl

theorem Consistent.build_eq {b : Builder σ α} (consistent : b.Consistent)
    (prints : ∀ value, ∃ text, b.config.print value = .ok text) (text : String) :
    (b.build text).1.map Expression.unstamped =
      ((Scanner.make b.vocabulary b.config).root b.config.maxDepth text).map fun root =>
        ⟨root, b.vocabulary.constants, b.config.print, 0⟩ :=
  consistent.build_eq_of_literals fun _ _ value _ => prints value

variable {config : Config α} {v : Vocabulary σ α}

theorem exists_make_copy (config : Config α) (regular : v.Regular) :
    ∃ b : Builder σ α, make config v.copy .absent = .ok b ∧ b.Consistent ∧ b.config = config ∧
      b.vocabulary = v.copy := by
  have regularCopy : v.copy.Regular :=
    ⟨regular.before, regular.after, regular.between, regular.functions, regular.branches⟩
  have made : make config v.copy .absent = .ok ⟨config, v.copy, none, 0, none, 0⟩ := rfl
  exact ⟨_, made, consistent_make regularCopy made, rfl, rfl⟩

theorem afresh_tokenize (config : Config α) (regular : v.Regular) (text : String) :
    afresh config v (fun b => (b.tokenize text).1) = (Scanner.make v config).scan text := by
  obtain ⟨b, made, consistent, sameConfig, copied⟩ := exists_make_copy config regular
  unfold afresh
  rw [made]
  simp only [bind, Except.bind]
  rw [consistent.tokenize_eq, sameConfig, copied, Scanner.scan_copy]

theorem afresh_build (regular : v.Regular)
    (prints : ∀ value, ∃ text, config.print value = .ok text) (text : String) :
    afresh config v (fun b => (b.build text).1.map Expression.unstamped) =
      ((Scanner.make v config).root config.maxDepth text).map fun root =>
        ⟨root, v.constants, config.print, 0⟩ := by
  obtain ⟨b, made, consistent, sameConfig, copied⟩ := exists_make_copy config regular
  subst sameConfig
  unfold afresh
  rw [made]
  simp only [bind, Except.bind]
  rw [consistent.build_eq prints, copied, Scanner.root_copy]
  rfl

/- The cache holds expressions of one version only. -/

/-- There is a cache, and all it holds was built for the version. -/
structure Stocked (b : Builder σ α) (version : Nat) : Prop where
  seen : b.cacheVersion = version
  keys : ∃ cache, b.cache = some cache ∧ ∀ key ∈ cache.keys, key.version = version

theorem Stocked.refresh {b : Builder σ α} {version : Nat} (stocked : b.Stocked version) :
    b.refresh.Stocked b.vocabulary.version := by
  obtain ⟨seen, cache, given, keys⟩ := stocked
  unfold Builder.refresh
  split
  · rename_i current
    exact ⟨current, cache, given, fun key member => (keys key member).trans (seen ▸ current)⟩
  · refine ⟨rfl, _, Option.map_eq_some_iff.mpr ⟨cache, given, rfl⟩, ?_⟩
    intro key member
    obtain ⟨entry, inside, rfl⟩ := List.mem_map.mp member
    exact beq_iff_eq.mp (List.mem_filter.mp inside).2

theorem Stocked.lookUp {b : Builder σ α} {version : Nat} (stocked : b.Stocked version)
    (text : String) : (b.lookUp text).2.Stocked b.vocabulary.version := by
  obtain ⟨seen, cache, given, keys⟩ := stocked.refresh
  obtain ⟨_, _, original, _⟩ := stocked
  unfold Builder.lookUp
  simp only [original, given]
  refine ⟨seen, _, rfl, ?_⟩
  intro key member
  obtain ⟨entry, inside, rfl⟩ := List.mem_map.mp member
  exact keys entry.1 (List.mem_map.mpr ⟨entry, mem_get inside, rfl⟩)

theorem Stocked.store {b : Builder σ α} (stocked : b.Stocked b.vocabulary.version)
    (text : String) (e : Expression σ α) : (b.store text e).Stocked b.vocabulary.version := by
  obtain ⟨seen, cache, given, keys⟩ := stocked
  refine ⟨seen, _, Option.map_eq_some_iff.mpr ⟨cache, given, rfl⟩, ?_⟩
  intro key member
  obtain ⟨entry, inside, rfl⟩ := List.mem_map.mp member
  rcases mem_put inside with rfl | old
  · rfl
  · refine keys entry.1 (List.mem_map.mpr ⟨entry, ?_, rfl⟩)
    split at old
    · exact List.mem_of_mem_drop old
    · exact old

theorem Stocked.build {b : Builder σ α} {version : Nat} (stocked : b.Stocked version)
    (text : String) : (b.build text).2.Stocked b.vocabulary.version := by
  have looked := stocked.lookUp text
  have vocabulary := (looksUp_lookUp b text).1.vocabulary
  unfold Builder.build
  generalize b.lookUp text = found at looked vocabulary
  obtain ⟨found, c⟩ := found
  simp only at looked vocabulary
  cases found with
  | some e => exact looked
  | none =>
    have constructed : (c.construct text).2.Stocked b.vocabulary.version :=
      ⟨looked.seen, looked.keys⟩
    have kept : (c.construct text).2.vocabulary = b.vocabulary := vocabulary
    simp only
    generalize c.construct text = built at constructed kept
    obtain ⟨built, d⟩ := built
    simp only at constructed kept
    cases built with
    | error cause => exact constructed
    | ok e =>
      rw [← kept] at constructed ⊢
      exact constructed.store text e

/- What one request does, and then any number of them. -/

/-- A builder with a cache that serves a configuration. -/
structure Serving (config : Config α) (b : Builder σ α) : Prop where
  consistent : b.Consistent
  config : b.config = config
  stocked : ∃ version, b.Stocked version

theorem serving_make (config : Config α) {size : Int} (positive : 1 ≤ size) (regular : v.Regular) :
    ∃ b, make config v (.whole size) = .ok b ∧ Serving config b ∧ b.vocabulary = v := by
  have made := make_whole config v positive
  refine ⟨_, made, ⟨consistent_make regular made, rfl, v.version, rfl, _, rfl, ?_⟩, rfl⟩
  intro key member
  cases member

theorem Consistent.edit {b : Builder σ α} (consistent : b.Consistent)
    (edit : Vocabulary.Edit σ α) :
    Consistent { b with vocabulary := (edit.perform.run b.vocabulary).2 } := by
  rcases Vocabulary.Edit.change_perform b.vocabulary edit with same | change
  · rw [same]
    exact consistent
  · exact consistent.change change

theorem Serving.edit {b : Builder σ α} (serving : Serving config b)
    (edit : Vocabulary.Edit σ α) :
    Serving config { b with vocabulary := (edit.perform.run b.vocabulary).2 } := by
  obtain ⟨consistent, sameConfig, version, seen, keys⟩ := serving
  exact ⟨consistent.edit edit, sameConfig, version, seen, keys⟩

theorem Serving.tokenize {b : Builder σ α} (serving : Serving config b) (text : String) :
    Serving config (b.tokenize text).2 := by
  obtain ⟨consistent, sameConfig, version, seen, keys⟩ := serving
  exact ⟨consistent.remember, sameConfig, version, seen, keys⟩

theorem Serving.build {b : Builder σ α} (serving : Serving config b) (text : String) :
    Serving config (b.build text).2 := by
  obtain ⟨consistent, sameConfig, version, stocked⟩ := serving
  have spec := consistent.build text
  exact ⟨spec.consistent, spec.config.trans sameConfig, _, stocked.build text⟩

theorem Serving.serve {b : Builder σ α} (serving : Serving config b) (request : Request σ α) :
    Serving config (b.serve request).2 := by
  cases request with
  | edit edit => exact serving.edit edit
  | tokenize text => exact serving.tokenize text
  | build text => exact serving.build text

theorem Serving.serveAll {b : Builder σ α} (serving : Serving config b)
    (requests : List (Request σ α)) : Serving config (b.serveAll requests).2 := by
  induction requests generalizing b with
  | nil => exact serving
  | cons request later ih => exact ih (serving.serve request)

theorem Serving.replies_eq {b : Builder σ α} (serving : Serving config b)
    (prints : ∀ value, ∃ text, config.print value = .ok text) (requests : List (Request σ α)) :
    (b.serveAll requests).1 = repliesAfresh config b.vocabulary requests := by
  induction requests generalizing b with
  | nil => rfl
  | cons request later ih =>
    have regular := serving.consistent.regular
    have onward := ih (serving.serve request)
    obtain ⟨consistent, rfl, _⟩ := serving
    cases request with
    | edit edit => exact congrArg _ onward
    | tokenize text =>
      have same : (b.tokenize text).1 = afresh b.config b.vocabulary fun c => (c.tokenize text).1 :=
        by rw [consistent.tokenize_eq, afresh_tokenize b.config regular]
      rw [repliesAfresh, ← same]
      exact congrArg _ onward
    | build text =>
      have same : (b.build text).1.map Expression.unstamped =
          afresh b.config b.vocabulary fun c => (c.build text).1.map Expression.unstamped := by
        rw [consistent.build_eq prints, afresh_build regular prints]
      have kept : (b.serve (.build text)).2.vocabulary = b.vocabulary :=
        (consistent.build text).vocabulary
      rw [kept] at onward
      rw [repliesAfresh, ← same]
      exact congrArg _ onward

/-- A builder with a cache of any size answers all requests as new builders without a cache would,
each over a copy of the vocabulary as it is at that moment, and after each build everything in the
cache is of the version that the vocabulary has. -/
theorem serveAll_eq_repliesAfresh {size : Int} (positive : 1 ≤ size) (reachable : v.Reachable)
    (prints : ∀ value, ∃ text, config.print value = .ok text) :
    ∃ b, make config v (.whole size) = .ok b ∧ ∀ requests,
      (b.serveAll requests).1 = repliesAfresh config v requests ∧
        ∀ text, ∃ cache, ((b.serveAll requests).2.build text).2.cache = some cache ∧
          ∀ key ∈ cache.keys,
            key.version = ((b.serveAll requests).2.build text).2.vocabulary.version := by
  obtain ⟨b, made, serving, rfl⟩ := serving_make config positive reachable.regular
  refine ⟨b, made, fun requests => ⟨serving.replies_eq prints requests, fun text => ?_⟩⟩
  obtain ⟨consistent, _, version, stocked⟩ := serving.serveAll requests
  rw [(consistent.build text).vocabulary]
  exact (stocked.build text).keys

/-- A text that cannot be scanned is built later, when its operator has come. -/
def growingRequests : List (Request Unit Nat) :=
  [.build "neg 2",
    .edit (.addOperator "neg" "PREFIX" (.whole 3) (plainOperator "neg" .before 3).body),
    .tokenize "neg 2", .build "neg 2"]

theorem serveAll_eq_repliesAfresh_growing :
    ∃ b, make plainConfig .empty (.whole 2) = .ok b ∧
      (b.serveAll growingRequests).1 = repliesAfresh plainConfig .empty growingRequests ∧
        ∃ cache, ((b.serveAll growingRequests).2.build "2").2.cache = some cache ∧
          ∀ key ∈ cache.keys,
            key.version = ((b.serveAll growingRequests).2.build "2").2.vocabulary.version := by
  have prints : ∀ value, ∃ text, plainConfig.print value = .ok text :=
    fun value => ⟨toString value, rfl⟩
  have reachable : (Vocabulary.empty : Vocabulary Unit Nat).Reachable := .empty
  have positive : (1 : Int) ≤ 2 := by decide
  obtain ⟨b, made, served⟩ := serveAll_eq_repliesAfresh positive reachable prints
  obtain ⟨replies, fresh⟩ := served growingRequests
  exact ⟨b, made, replies, fresh "2"⟩

end Builder
end InfixCalc
