import InfixCalc.Builder
import InfixCalc.Proofs.Printed.Explicit
import InfixCalc.Proofs.Printed.Rebuild

/-!
# Builders and what they remember

Whatever a builder remembers of earlier work, a build gives what its vocabulary and configuration
give for the text.
-/

namespace InfixCalc

variable {σ α : Type}

/-- The expression is what the text stands for, with a configuration and a vocabulary. -/
structure Expression.BuiltFrom (config : Config α) (v : Vocabulary σ α) (text : String)
    (e : Expression σ α) : Prop where
  root : (Scanner.make v config).root config.maxDepth text = .ok e.root
  constants : e.constants = v.constants
  print : e.print = config.print

namespace Builder

/-- The builders that come about: a new one over a vocabulary, and what follows when it builds and
scans texts, when its vocabulary is changed and when it is copied. -/
inductive Grown : Builder σ α → Prop where
  | make {config : Config α} {v : Vocabulary σ α} {cacheSize : Setting} {b : Builder σ α} :
      v.Reachable → Builder.make config v cacheSize = .ok b → Grown b
  | build {b : Builder σ α} (text : String) : Grown b → Grown (b.build text).2
  | tokenize {b : Builder σ α} (text : String) : Grown b → Grown (b.tokenize text).2
  | change {b : Builder σ α} {w : Vocabulary σ α} :
      Grown b → b.vocabulary.Change w → Grown { b with vocabulary := w }
  | copy {b : Builder σ α} : Grown b → Grown b.copy

/-- What is remembered for the version of the vocabulary is what would be found again, and nothing
is remembered for a later version. -/
structure Consistent (b : Builder σ α) : Prop where
  regular : b.vocabulary.Regular
  labels : ∀ version labels, b.labels = some (version, labels) →
    version ≤ b.vocabulary.version ∧
      (version = b.vocabulary.version → labels = Scanner.labelChars b.vocabulary)
  entries : ∀ cache, b.cache = some cache → ∀ key e, (key, e) ∈ cache.entries →
    key.version ≤ b.vocabulary.version ∧
      (key.version = b.vocabulary.version → e.BuiltFrom b.config b.vocabulary key.text)

theorem Consistent.currentLabels {b : Builder σ α} (consistent : b.Consistent) :
    b.currentLabels = Scanner.labelChars b.vocabulary := by
  unfold Builder.currentLabels
  split
  · rename_i version labels remembered
    split
    · rename_i same
      exact (consistent.labels version labels remembered).2 same
    · rfl
  · rfl

theorem Consistent.remember {b : Builder σ α} (consistent : b.Consistent) :
    b.remember.Consistent := by
  refine ⟨consistent.regular, ?_, consistent.entries⟩
  intro version labels remembered
  cases remembered
  exact ⟨Nat.le_refl _, fun _ => consistent.currentLabels⟩

/- The cache. -/

theorem mem_put {β : Type} {key : CacheKey} {value : β} {entry : CacheKey × β}
    {entries : List (CacheKey × β)} (member : entry ∈ Cache.put key value entries) :
    entry = (key, value) ∨ entry ∈ entries := by
  induction entries with
  | nil => exact .inl (List.mem_singleton.mp member)
  | cons first rest ih =>
    rw [Cache.put] at member
    split at member
    · rcases List.mem_cons.mp member with same | later
      · exact .inl same
      · exact .inr (List.mem_cons_of_mem _ later)
    · rcases List.mem_cons.mp member with rfl | later
      · exact .inr List.mem_cons_self
      · rcases ih later with same | inside
        · exact .inl same
        · exact .inr (List.mem_cons_of_mem _ inside)

theorem mem_of_lookup {β γ : Type} [BEq β] [LawfulBEq β] {key : β} {value : γ}
    {entries : List (β × γ)} (found : entries.lookup key = some value) :
    (key, value) ∈ entries := by
  obtain ⟨before, after, rfl, _⟩ := List.lookup_eq_some_iff.mp found
  exact List.mem_append_right _ List.mem_cons_self

def Holds (smaller larger : Option (Cache (Expression σ α))) : Prop :=
  ∀ cache, smaller = some cache → ∃ source, larger = some source ∧
    ∀ entry ∈ cache.entries, entry ∈ source.entries

structure LooksUp (b c : Builder σ α) : Prop where
  config : c.config = b.config
  vocabulary : c.vocabulary = b.vocabulary
  labels : c.labels = b.labels
  cache : Holds c.cache b.cache

theorem looksUp_refresh (b : Builder σ α) : LooksUp b b.refresh := by
  unfold refresh
  split
  · exact ⟨rfl, rfl, rfl, fun cache given => ⟨cache, given, fun _ member => member⟩⟩
  · refine ⟨rfl, rfl, rfl, ?_⟩
    intro cache given
    obtain ⟨source, original, rfl⟩ := Option.map_eq_some_iff.mp given
    exact ⟨source, original, fun entry member => (List.mem_filter.mp member).1⟩

theorem mem_get {cache : Cache (Expression σ α)} {key : CacheKey}
    {entry : CacheKey × Expression σ α} (member : entry ∈ (cache.get key).2.entries) :
    entry ∈ cache.entries := by
  unfold Cache.get at member
  split at member
  · rename_i value found
    rcases List.mem_append.mp member with inside | same
    · exact (List.mem_filter.mp inside).1
    · cases List.mem_singleton.mp same
      exact mem_of_lookup found
  · exact member

theorem mem_of_get {cache : Cache (Expression σ α)} {key : CacheKey} {e : Expression σ α}
    (found : (cache.get key).1 = some e) : (key, e) ∈ cache.entries := by
  unfold Cache.get at found
  split at found
  · rename_i value stored
    cases found
    exact mem_of_lookup stored
  · cases found

theorem looksUp_lookUp (b : Builder σ α) (text : String) :
    LooksUp b (b.lookUp text).2 ∧ ∀ e, (b.lookUp text).1 = some e →
      ∃ cache, b.cache = some cache ∧ (⟨text, b.vocabulary.version⟩, e) ∈ cache.entries := by
  unfold lookUp
  split
  · exact ⟨⟨rfl, rfl, rfl, fun cache given => ⟨cache, given, fun _ member => member⟩⟩,
      fun e never => by cases never⟩
  · obtain ⟨config, vocabulary, labels, holds⟩ := looksUp_refresh b
    simp only
    split
    · exact ⟨⟨config, vocabulary, labels, holds⟩, fun e never => by cases never⟩
    · rename_i cache given
      obtain ⟨source, original, inside⟩ := holds cache given
      refine ⟨⟨config, vocabulary, labels, ?_⟩, ?_⟩
      · intro final same
        cases same
        exact ⟨source, original, fun entry member => inside entry (mem_get member)⟩
      · intro e found
        have member := inside _ (mem_of_get found)
        rw [vocabulary] at member
        exact ⟨source, original, member⟩

theorem Consistent.looksUp {b c : Builder σ α} (consistent : b.Consistent) (looks : LooksUp b c) :
    c.Consistent := by
  obtain ⟨config, vocabulary, labels, holds⟩ := looks
  refine ⟨vocabulary ▸ consistent.regular, ?_, ?_⟩
  · intro version kept remembered
    rw [vocabulary]
    exact consistent.labels version kept (labels ▸ remembered)
  · intro cache given key e member
    obtain ⟨source, original, inside⟩ := holds cache given
    rw [vocabulary, config]
    exact consistent.entries source original key e (inside _ member)

/- Building. -/

/-- The tree of a text as a builder reads it. -/
theorem construct_eq (b : Builder σ α) (text : String) :
    b.construct text =
      (((b.tokenize text).1 >>= Tree.ofTokens b.config.display b.config.maxDepth).map fun root =>
        ⟨root, b.vocabulary.constants, b.config.print, b.nextStamp⟩,
        { b.remember with nextStamp := b.nextStamp + 1 }) := by
  unfold construct postfixed tokenize Tree.ofTokens
  cases Scanner.scan ⟨b.vocabulary, b.config, b.currentLabels⟩ text with
  | error cause => rfl
  | ok tokens =>
    have sameConfig : b.remember.config = b.config := rfl
    simp only [bind, Except.bind, sameConfig]
    cases Postfix.ofTokens b.config.display b.config.maxDepth tokens with
    | error cause => rfl
    | ok symbols =>
      simp only
      cases Tree.ofPostfix (Symbol.text b.config.display) b.config.maxDepth symbols with
      | error cause => rfl
      | ok root => rfl

theorem Consistent.tokenize_eq {b : Builder σ α} (consistent : b.Consistent) (text : String) :
    (b.tokenize text).1 = (Scanner.make b.vocabulary b.config).scan text := by
  unfold tokenize Scanner.make
  rw [consistent.currentLabels]

theorem Consistent.construct_eq {b : Builder σ α} (consistent : b.Consistent) (text : String) :
    b.construct text =
      (((Scanner.make b.vocabulary b.config).root b.config.maxDepth text).map fun root =>
        ⟨root, b.vocabulary.constants, b.config.print, b.nextStamp⟩,
        { b.remember with nextStamp := b.nextStamp + 1 }) := by
  rw [b.construct_eq, consistent.tokenize_eq]
  rfl

theorem Consistent.stamp {b : Builder σ α} (consistent : b.Consistent) (nextStamp : Nat) :
    Consistent { b with nextStamp := nextStamp } :=
  ⟨consistent.regular, consistent.labels, consistent.entries⟩

theorem Consistent.store {b : Builder σ α} (consistent : b.Consistent) {text : String}
    {e : Expression σ α} (built : e.BuiltFrom b.config b.vocabulary text) :
    (b.store text e).Consistent := by
  refine ⟨consistent.regular, consistent.labels, ?_⟩
  intro cache given key value member
  obtain ⟨source, original, rfl⟩ := Option.map_eq_some_iff.mp given
  rcases mem_put member with same | inside
  · cases same
    exact ⟨Nat.le_refl _, fun _ => built⟩
  · refine consistent.entries source original key value ?_
    split at inside
    · exact List.mem_of_mem_drop inside
    · exact inside

/-- What a build does to a consistent builder. -/
structure BuildSpec (b : Builder σ α) (text : String) (result : Except Failure (Expression σ α))
    (next : Builder σ α) : Prop where
  config : next.config = b.config
  vocabulary : next.vocabulary = b.vocabulary
  consistent : next.Consistent
  sound : ∀ e, result = .ok e → e.BuiltFrom b.config b.vocabulary text
  complete : ∀ root, (Scanner.make b.vocabulary b.config).root b.config.maxDepth text = .ok root →
    (∃ written, root.written b.config.print = .ok written) → ∃ e, result = .ok e ∧ e.root = root

theorem Consistent.build {b : Builder σ α} (consistent : b.Consistent) (text : String) :
    BuildSpec b text (b.build text).1 (b.build text).2 := by
  obtain ⟨looks, finds⟩ := looksUp_lookUp b text
  have kept := consistent.looksUp looks
  unfold Builder.build
  obtain ⟨config, vocabulary, _, _⟩ := looks
  generalize b.lookUp text = looked at finds kept config vocabulary
  obtain ⟨found, c⟩ := looked
  cases found with
  | some e =>
    obtain ⟨cache, original, member⟩ := finds e rfl
    have built := (consistent.entries cache original _ e member).2 rfl
    refine ⟨config, vocabulary, kept, ?_, ?_⟩
    · intro other same
      cases same
      exact built
    · intro root read _
      exact ⟨e, rfl, Except.ok.inj (built.root.symm.trans read)⟩
  | none =>
    simp only at kept config vocabulary ⊢
    rw [kept.construct_eq, vocabulary, config]
    cases read : (Scanner.make b.vocabulary b.config).root b.config.maxDepth text with
    | error cause =>
      refine ⟨config, vocabulary, kept.remember.stamp _, ?_, ?_⟩
      · intro e never
        cases never
      · intro root never
        cases read.symm.trans never
    | ok root =>
      have built : Expression.BuiltFrom b.config b.vocabulary text
          ⟨root, b.vocabulary.constants, b.config.print, c.nextStamp⟩ := ⟨read, rfl, rfl⟩
      refine ⟨config, vocabulary, ?_, ?_, ?_⟩
      · refine (kept.remember.stamp _).store ?_
        rw [show c.remember.config = b.config from config,
          show c.remember.vocabulary = b.vocabulary from vocabulary]
        exact built
      · intro e same
        obtain ⟨_, _, rfl⟩ := map_eq_ok_iff.mp same
        exact built
      · intro other same ⟨written, prints⟩
        cases read.symm.trans same
        exact ⟨_, map_eq_ok_iff.mpr ⟨written, prints, rfl⟩, rfl⟩

/-- A text that is scanned as a sound phrase is built. -/
theorem Consistent.exists_build {b : Builder σ α} (consistent : b.Consistent)
    (standard : b.config.IsStandard) {text : String} {p : Phrase σ α} (sound : p.Sound)
    (yields : (Scanner.make b.vocabulary b.config).Yields text p)
    (shallow : Within b.config.maxDepth (nesting p.tokens))
    (low : Within b.config.maxDepth p.tree.height)
    (displays : Symbol.Displays b.config.display p.tree.postorder)
    (prints : ∃ written, p.tree.written b.config.print = .ok written) :
    ∃ e, (b.build text).1 = .ok e ∧ e.root = p.tree := by
  have ready : (Scanner.make b.vocabulary b.config).Ready := ⟨standard, rfl, consistent.regular⟩
  refine (consistent.build text).complete p.tree ?_ prints
  have parsed := Tree.parse_eq_ok_iff.mpr ⟨⟨p, rfl, sound, rfl⟩, shallow, low⟩
  exact bind_eq_ok_iff.mpr ⟨p.tokens, ready.scan_eq_ok sound.1 yields,
    Tree.ofTokens_eq_ok_iff.mpr ⟨parsed, displays⟩⟩

/-- A call of names has no operands to show. -/
theorem displays_calling (display : α → Except Failure String) (callable : Callable σ α)
    (names : List String) :
    Symbol.Displays display (Phrase.calling callable names).tree.postorder := by
  intro value member
  rcases Tree.mem_postorder.mp member with ⟨c, child, inside⟩ | never
  · rw [Phrase.trees_eq_map] at child
    obtain ⟨_, among, rfl⟩ := List.mem_map.mp child
    obtain ⟨name, _, rfl⟩ := List.mem_map.mp among
    cases List.mem_singleton.mp inside
  · cases never

/-- A call of names is built. -/
theorem Consistent.exists_build_calling {b : Builder σ α} (consistent : b.Consistent)
    (standard : b.config.IsStandard) {label : String} {callable : Callable σ α}
    {names : List String} (called : b.vocabulary.callable? label = some callable)
    (noSign : Scanner.beginsLikeSign label = false) (takes : callable.Takes names.length)
    (named : ∀ name ∈ names, (Scanner.make b.vocabulary b.config).Yields name (.name name))
    (shallow : Within b.config.maxDepth (nesting (Phrase.calling callable names).tokens))
    (low : Within b.config.maxDepth (Phrase.calling callable names).tree.height)
    (prints : ∃ written, (Phrase.calling callable names).tree.written b.config.print =
      .ok written) :
    ∃ e, (b.build (label ++ Tree.parenthesized (", ".intercalate names))).1 = .ok e ∧
      e.root = (Phrase.calling callable names).tree := by
  have ready : (Scanner.make b.vocabulary b.config).Ready := ⟨standard, rfl, consistent.regular⟩
  have each : List.Forall₂ (Scanner.make b.vocabulary b.config).Yields names
      (names.map .name) := by
    rw [List.forall₂_map_right_iff, List.forall₂_same]
    exact named
  exact consistent.exists_build standard (Phrase.sound_calling takes)
    (ready.yields_call called noSign each) shallow low (displays_calling _ callable names) prints

/-- A second build gives the tree of its text, as the first one left everything that matters. -/
theorem Consistent.build_again_iff {b : Builder σ α} (consistent : b.Consistent)
    (source text : String) {root : Tree (Symbol σ α)}
    (prints : ∃ written, root.written b.config.print = .ok written) :
    (∃ e, ((b.build source).2.build text).1 = .ok e ∧ e.root = root) ↔
      (Scanner.make b.vocabulary b.config).root b.config.maxDepth text = .ok root := by
  have first := consistent.build source
  obtain ⟨_, _, _, sound, complete⟩ := first.consistent.build text
  rw [first.config, first.vocabulary] at sound complete
  constructor
  · rintro ⟨e, built, rfl⟩
    exact (sound e built).root
  · intro read
    exact complete root read prints

/-- An expression over a faithful vocabulary is built again from its written form, with its implied
products written out. -/
theorem Consistent.rebuild {b : Builder σ α} (consistent : b.Consistent)
    (standard : b.config.IsStandard) (faithful : b.vocabulary.Faithful) {source : String}
    {e : Expression σ α} (built : (b.build source).1 = .ok e)
    (literals : ∀ value, .operand value ∈ e.root.postorder →
      (Scanner.make b.vocabulary b.config).Readable value) :
    ∃ text again, e.written = .ok text ∧ ((b.build source).2.build text).1 = .ok again ∧
      again.root = e.root.explicit ∧ again.written = e.written ∧
      again.variableLabels = e.variableLabels ∧
      ∀ bindings, again.evaluate bindings = e.evaluate bindings := by
  have first := consistent.build source
  obtain ⟨root, constants, print⟩ := first.sound e built
  have ready : (Scanner.make b.vocabulary b.config).Ready := ⟨standard, rfl, consistent.regular⟩
  have prints := Scanner.exists_print literals
  obtain ⟨text, written⟩ := Tree.exists_written prints
  have printsAgain := Tree.exists_written fun value member =>
    prints value (Tree.operand_mem_explicit.mp member)
  obtain ⟨again, builtAgain, same⟩ := (consistent.build_again_iff source text printsAgain).mpr
    (ready.root_written faithful root literals written)
  obtain ⟨_, constantsAgain, printAgain⟩ := (first.consistent.build text).sound again builtAgain
  rw [first.vocabulary] at constantsAgain
  rw [first.config] at printAgain
  refine ⟨text, again, ?_, builtAgain, same, ?_, ?_, fun bindings => ?_⟩
  · rw [Expression.written, print]
    exact written
  · rw [Expression.written, Expression.written, same, printAgain, print]
    exact (ready.spoken_root root).1.written_explicit ready b.config.print
  · rw [Expression.variableLabels, Expression.variableLabels, same, Tree.variableLabels_explicit]
  · rw [Expression.evaluate, Expression.evaluate, same, constantsAgain, constants,
      Tree.evaluate_explicit]

/-- A builder that has not been used, with an empty cache if there is a size for it. -/
def new (config : Config α) (v : Vocabulary σ α) (size : Option Nat) (nextStamp : Nat) :
    Builder σ α :=
  ⟨config, v, size.map .empty, v.version, none, nextStamp⟩

theorem eq_new {config : Config α} {v : Vocabulary σ α} {cacheSize : Setting} {b : Builder σ α}
    (made : make config v cacheSize = .ok b) : ∃ size, b = new config v size 0 := by
  obtain ⟨cache, sized, same⟩ := bind_eq_ok_iff.mp made
  cases same
  unfold cacheOf at sized
  split at sized
  · obtain ⟨empty, fromSetting, wrapped⟩ := bind_eq_ok_iff.mp sized
    cases wrapped
    unfold Cache.ofSetting at fromSetting
    split at fromSetting
    · cases fromSetting
      exact ⟨some _, rfl⟩
    · cases fromSetting
  · cases sized
    exact ⟨none, rfl⟩

theorem make_whole (config : Config α) (v : Vocabulary σ α) {size : Int} (positive : 1 ≤ size) :
    make config v (.whole size) = .ok (new config v (some size.toNat) 0) := by
  have truthy : (Setting.whole size).isTruthy = true := by
    simp only [Setting.isTruthy, bne_iff_ne]
    omega
  have sized : cacheOf (.whole size) =
      .ok (some (.empty size.toNat : Cache (Expression σ α))) := by
    rw [cacheOf, if_pos truthy, Cache.ofSetting, Setting.atLeast?, if_pos positive]
    rfl
  rw [make, sized]
  rfl

theorem consistent_new (config : Config α) {v : Vocabulary σ α} (regular : v.Regular)
    (size : Option Nat) (nextStamp : Nat) : (new config v size nextStamp).Consistent := by
  refine ⟨regular, (fun _ _ never => nomatch never), ?_⟩
  intro cache given key e member
  obtain ⟨_, _, rfl⟩ := Option.map_eq_some_iff.mp given
  cases member

theorem consistent_make {config : Config α} {v : Vocabulary σ α} {cacheSize : Setting}
    {b : Builder σ α} (regular : v.Regular) (made : make config v cacheSize = .ok b) :
    b.Consistent := by
  obtain ⟨size, rfl⟩ := eq_new made
  exact consistent_new config regular size 0

/-- The builders that one becomes when it builds and scans texts. -/
inductive Used (first : Builder σ α) : Builder σ α → Prop where
  | new : Used first first
  | build {b : Builder σ α} (text : String) : Used first b → Used first (b.build text).2
  | tokenize {b : Builder σ α} (text : String) : Used first b → Used first (b.tokenize text).2

theorem Used.kept {first b : Builder σ α} (used : first.Used b) (consistent : first.Consistent) :
    b.Consistent ∧ b.config = first.config ∧ b.vocabulary = first.vocabulary := by
  induction used with
  | new => exact ⟨consistent, rfl, rfl⟩
  | build text _ ih =>
    obtain ⟨kept, config, vocabulary⟩ := ih
    have next := kept.build text
    exact ⟨next.consistent, next.config.trans config, next.vocabulary.trans vocabulary⟩
  | tokenize text _ ih =>
    obtain ⟨kept, config, vocabulary⟩ := ih
    exact ⟨kept.remember, config, vocabulary⟩

theorem Consistent.change {b : Builder σ α} (consistent : b.Consistent) {w : Vocabulary σ α}
    (change : b.vocabulary.Change w) : Consistent { b with vocabulary := w } := by
  obtain ⟨regular, same | later⟩ := change.follows
  · subst same
    exact consistent
  · refine ⟨regular consistent.regular, ?_, ?_⟩
    · intro version labels remembered
      have old := (consistent.labels version labels remembered).1
      simp only [later]
      exact ⟨by omega, fun now => by omega⟩
    · intro cache given key e member
      have old := (consistent.entries cache given key e member).1
      simp only [later]
      exact ⟨by omega, fun now => by omega⟩

theorem Consistent.copy {b : Builder σ α} (consistent : b.Consistent) : b.copy.Consistent := by
  obtain ⟨before, after, between, functions, branches⟩ := consistent.regular
  refine ⟨⟨before, after, between, functions, branches⟩, (fun _ _ never => nomatch never), ?_⟩
  intro cache given key e member
  simp only [Builder.copy] at given
  split at given
  · split at given
    · cases given
    · cases given
      cases member
  · cases given

/-- Every builder that comes about is consistent. -/
theorem Grown.consistent {b : Builder σ α} (grown : b.Grown) : b.Consistent := by
  induction grown with
  | make reachable made => exact consistent_make reachable.regular made
  | build text _ consistent => exact (consistent.build text).consistent
  | tokenize text _ consistent => exact consistent.remember
  | change _ change consistent => exact consistent.change change
  | copy _ consistent => exact consistent.copy

end Builder
end InfixCalc
