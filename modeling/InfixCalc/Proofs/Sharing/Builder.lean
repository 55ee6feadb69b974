import InfixCalc.Proofs.Session
import InfixCalc.Proofs.Sharing.Cache
import InfixCalc.Proofs.Sharing.Heap

/-!
# Builders on a heap

What builders do as work on the objects that they are made of. On a heap that shows a builder at
some addresses, each call gives what the builder gives, and afterwards the heap shows the builder
that is left. Nothing else on the heap has changed.
-/

namespace InfixCalc.Sharing

variable {σ α β γ : Type}

/- The calls. -/

def newCache : Option Nat → Work σ α (Option Address)
  | none => return none
  | some maxSize => do
    let cache ← allocate (.cache (.empty maxSize))
    return some cache

/-- A new builder over a new dictionary, with a cache if there is a size for it. -/
def create (config : Config α) (v : Vocabulary σ α) (size : Option Nat) : Work σ α Address := do
  let dictionary ← newDictionary v
  let cache ← newCache size
  allocate (.builder ⟨config, dictionary, cache, v.version, none⟩)

/-- The size of the cache that a copy gets: an empty cache is not carried over. -/
def sizeToCopy : Option Address → Work σ α (Option Nat)
  | none => return none
  | some address => do
    let .cache cache ← read address | failure
    return if cache.size = 0 then none else some cache.maxSize

/-- Another builder with the fields of the first, except that the dictionary is copied, the cache
is a new one, and no tokenizer has been made. -/
def copy (address : Address) : Work σ α Address := do
  let .builder fields ← read address | failure
  let v ← vocabulary fields.dictionary
  let size ← sizeToCopy fields.cache
  let dictionary ← newDictionary v.copy
  let cache ← newCache size
  allocate (.builder { fields with
    dictionary := dictionary
    cache := cache
    cacheVersion := v.copy.version
    tokenizer := none })

def edit (address : Address) (edit : Vocabulary.Edit σ α) :
    Work σ α (Except Failure (Vocabulary.Answer σ α)) := do
  let .builder fields ← read address | failure
  editDictionary fields.dictionary edit

def newTokenizer (address : Address) (fields : Fields α) (v : Vocabulary σ α) :
    Work σ α Address := do
  let place ← allocate (.tokenizer fields.dictionary fields.config (Scanner.labelChars v))
  write address (.builder { fields with tokenizer := some (v.version, place) })
  return place

/-- The tokenizer made last, or a new one if the dictionary has changed since. -/
def tokenizer (address : Address) : Work σ α Address := do
  let .builder fields ← read address | failure
  let v ← vocabulary fields.dictionary
  match fields.tokenizer with
  | none => newTokenizer address fields v
  | some (version, place) =>
    if version = v.version then return place else newTokenizer address fields v

/-- A tokenizer looks up what it scans in the dictionary that it was made for. -/
def tokenize (address : Address) (text : String) :
    Work σ α (Except Failure (List (Token σ α))) := do
  let place ← tokenizer address
  let .tokenizer dictionary config labels ← read place | failure
  let v ← vocabulary dictionary
  return Scanner.scan ⟨v, config, labels⟩ text

def lookUp (address : Address) (text : String) : Work σ α (Option Address) := do
  let .builder fields ← read address | failure
  let v ← vocabulary fields.dictionary
  match fields.cache with
  | none => return none
  | some place => do
    let .cache cache ← read place | failure
    let current :=
      if fields.cacheVersion = v.version then cache else cache.discardStale v.version
    let (found, used) := current.get ⟨text, v.version⟩
    write place (.cache used)
    write address (.builder { fields with cacheVersion := v.version })
    return found

def store (cache : Option Address) (key : CacheKey) (place : Address) : Work σ α Unit := do
  match cache with
  | none => return ()
  | some address => do
    let .cache cache ← read address | failure
    write address (.cache (cache.set key place))

/-- The expression of a text with its address. -/
def build (address : Address) (text : String) :
    Work σ α (Except Failure (Address × Expression σ α)) := do
  match ← lookUp address text with
  | some place => do
    let .expression e ← read place | failure
    return .ok (place, e)
  | none => do
    let tokens ← tokenize address text
    let .builder fields ← read address | failure
    let v ← vocabulary fields.dictionary
    match tokens >>= Tree.ofTokens fields.config.display fields.config.maxDepth with
    | .error cause => return .error cause
    | .ok root => do
      let e : Expression σ α := ⟨root, v.constants, fields.config.print, 0⟩
      let place ← allocate (.expression e)
      store fields.cache ⟨text, v.version⟩ place
      return e.written.map fun _ => (place, e)

/- Heaps that show a builder. -/

/-- Where the objects are that a builder has for itself. -/
structure Parts where
  builder : Address
  cache : Option Address
  dictionary : Address
  maps : Maps

namespace Parts

def ofDictionary (p : Parts) : List Address := p.dictionary :: p.maps.all

def own (p : Parts) : List Address := p.builder :: (p.cache.toList ++ p.ofDictionary)

/-- No address stands for two of the objects. -/
structure Apart (p : Parts) : Prop where
  dictionary : p.ofDictionary.Nodup
  cache : ∀ address ∈ p.cache, address ∉ p.ofDictionary
  builder : p.builder ∉ p.ofDictionary
  builderCache : ∀ address ∈ p.cache, address ≠ p.builder

theorem builder_mem_own (p : Parts) : p.builder ∈ p.own := List.mem_cons_self

theorem cache_mem_own {p : Parts} {address : Address} (given : p.cache = some address) :
    address ∈ p.own := by
  simp [own, given]

theorem ofDictionary_subset_own (p : Parts) : p.ofDictionary ⊆ p.own :=
  fun _ member => List.mem_cons_of_mem _ (List.mem_append_right _ member)

end Parts

/-- The tokenizer at the address scans with the dictionary for the labels. -/
def Scans (heap : Heap σ α) (dictionary : Address) (config : Config α) (mine : Nat × Address)
    (theirs : Nat × List (List Char)) : Prop :=
  mine.1 = theirs.1 ∧ heap[mine.2]? = some (.tokenizer dictionary config theirs.2)

/-- The expression is at the address. On a heap it needs no stamp, as its address tells it apart
from other expressions. -/
def Points (heap : Heap σ α) (address : Address) (e : Expression σ α) : Prop :=
  heap[address]? = some (.expression e.unstamped)

/-- The cache at the address holds the addresses of the expressions. -/
def Caches (heap : Heap σ α) (address : Address) (cache : Cache (Expression σ α)) : Prop :=
  ∃ stored, heap[address]? = some (.cache stored) ∧ stored.Matches (Points heap) cache

/-- The objects at the addresses make up the builder. -/
structure Shows (heap : Heap σ α) (p : Parts) (b : Builder σ α) : Prop where
  apart : p.Apart
  dictionary : Stores heap (dictionaryCells p.dictionary p.maps b.vocabulary)
  builder : ∃ tokenizer,
    heap[p.builder]? =
      some (.builder ⟨b.config, p.dictionary, p.cache, b.cacheVersion, tokenizer⟩) ∧
    Option.Rel (Scans heap p.dictionary b.config) tokenizer b.labels
  cache : Option.Rel (Caches heap) p.cache b.cache

variable {own : List Address} {heap later : Heap σ α} {p : Parts} {b : Builder σ α}

theorem rel_imp {R S : β → γ → Prop} {x : Option β} {y : Option γ} (hold : Option.Rel R x y)
    (weaker : ∀ a b, R a b → S a b) : Option.Rel S x y := by
  cases hold with
  | none => exact .none
  | some related => exact .some (weaker _ _ related)

theorem Scans.follows {dictionary : Address} {config : Config α} {mine : Option (Nat × Address)}
    {theirs : Option (Nat × List (List Char))}
    (scans : Option.Rel (Scans heap dictionary config) mine theirs)
    (follows : Follows own heap later) :
    Option.Rel (Scans later dictionary config) mine theirs :=
  rel_imp scans fun _ _ scans => ⟨scans.1, follows _ _ scans.2 (.inr trivial)⟩

theorem Points.follows {address : Address} {e : Expression σ α} (points : Points heap address e)
    (follows : Follows own heap later) : Points later address e :=
  follows _ _ points (.inr trivial)

theorem Caches.follows {address : Option Address} {cache : Option (Cache (Expression σ α))}
    (caches : Option.Rel (Caches heap) address cache) (follows : Follows own heap later)
    (outside : ∀ place ∈ address, place ∉ own) : Option.Rel (Caches later) address cache := by
  cases caches with
  | none => exact .none
  | some caches =>
    obtain ⟨stored, found, hold⟩ := caches
    refine .some ⟨stored, follows _ _ found (.inl (outside _ rfl)), ?_⟩
    exact hold.mono fun _ _ points => points.follows follows

theorem Caches.exists_stored {address : Option Address}
    {cache : Option (Cache (Expression σ α))} (caches : Option.Rel (Caches heap) address cache)
    {place : Address} (given : address = some place) :
    ∃ stored, heap[place]? = some (.cache stored) := by
  cases caches with
  | none => cases given
  | some caches =>
    cases given
    obtain ⟨stored, found, _⟩ := caches
    exact ⟨stored, found⟩

theorem not_mem_of_dictionaryCells {v : Vocabulary σ α}
    (outside : ∀ place ∈ p.ofDictionary, place ∉ own) :
    ∀ entry ∈ dictionaryCells p.dictionary p.maps v, entry.1 ∉ own :=
  fun _ member => outside _ (List.mem_map_of_mem (f := Prod.fst) member)

/-- A builder is still shown after work that leaves its objects alone. -/
theorem Shows.follows (shows : Shows heap p b) (follows : Follows own heap later)
    (outside : ∀ place ∈ p.own, place ∉ own) : Shows later p b := by
  obtain ⟨apart, dictionary, ⟨tokenizer, builder, scans⟩, cache⟩ := shows
  refine ⟨apart, ?_, ⟨tokenizer, ?_, Scans.follows scans follows⟩, ?_⟩
  · refine dictionary.follows follows (not_mem_of_dictionaryCells fun place member => ?_)
    exact outside place (p.ofDictionary_subset_own member)
  · exact follows _ _ builder (.inl (outside _ p.builder_mem_own))
  · exact Caches.follows cache follows fun place given => outside place (Parts.cache_mem_own given)

/- Work that is shown. -/

/-- The work succeeds with a result as it is asked for. It changes objects of the builder only, and
then the heap shows what the builder has become. -/
def Runs (p : Parts) (heap : Heap σ α) (work : Work σ α β) (b : Builder σ α)
    (Q : β → Heap σ α → Prop) : Prop :=
  ∃ result later, work.run heap = some (result, later) ∧ Shows later p b ∧
    Follows p.own heap later ∧ Q result later

variable {c : Builder σ α} {Q : β → Heap σ α → Prop} {R : γ → Heap σ α → Prop}

theorem Runs.pure {result : β} (shows : Shows heap p b) (asked : Q result heap) :
    Runs p heap (pure result) b Q :=
  ⟨result, heap, rfl, shows, .refl _ _, asked⟩

theorem Runs.bind {first : Work σ α β} {next : β → Work σ α γ} (ran : Runs p heap first b Q)
    (rest : ∀ result later, Shows later p b → Q result later → Runs p later (next result) c R) :
    Runs p heap (first >>= next) c R := by
  obtain ⟨result, reached, ran, shows, follows, asked⟩ := ran
  obtain ⟨final, last, ranOn, shown, followsOn, answers⟩ := rest result reached shows asked
  exact ⟨final, last, by rw [run_bind, ran]; exact ranOn, shown, follows.trans followsOn, answers⟩

theorem Runs.step {first : Work σ α β} {next : β → Work σ α γ} {value : β}
    (ran : first.run heap = some (value, later)) (follows : Follows p.own heap later)
    (rest : Runs p later (next value) c R) : Runs p heap (first >>= next) c R := by
  obtain ⟨final, last, ranOn, shown, followsOn, answers⟩ := rest
  exact ⟨final, last, by rw [run_bind, ran]; exact ranOn, shown, follows.trans followsOn, answers⟩

theorem Runs.peek {first : Work σ α β} {next : β → Work σ α γ} {value : β}
    (ran : first.run heap = some (value, heap)) (rest : Runs p heap (next value) c R) :
    Runs p heap (first >>= next) c R :=
  rest.step ran (.refl _ _)

/- What a builder changes itself. -/

theorem Shows.allocate (shows : Shows heap p b) (cell : Cell σ α) : Shows (heap ++ [cell]) p b :=
  shows.follows (follows_append [] heap _) fun _ _ => List.not_mem_nil

theorem Shows.stamp (shows : Shows heap p b) (nextStamp : Nat) :
    Shows heap p { b with nextStamp := nextStamp } :=
  ⟨shows.apart, shows.dictionary, shows.builder, shows.cache⟩

theorem Shows.setFields (shows : Shows heap p b) (cacheVersion : Nat)
    {tokenizer : Option (Nat × Address)} {labels : Option (Nat × List (List Char))}
    (scans : Option.Rel (Scans heap p.dictionary b.config) tokenizer labels) :
    let later := heap.set p.builder
      (.builder ⟨b.config, p.dictionary, p.cache, cacheVersion, tokenizer⟩)
    Shows later p { b with cacheVersion := cacheVersion, labels := labels } ∧
      Follows p.own heap later := by
  obtain ⟨apart, dictionary, ⟨_, builder, _⟩, cache⟩ := shows
  have follows := follows_set builder id
    (.builder ⟨b.config, p.dictionary, p.cache, cacheVersion, tokenizer⟩)
  refine ⟨⟨apart, ?_, ⟨tokenizer, ?_, Scans.follows scans follows⟩, ?_⟩, follows.mono ?_⟩
  · refine dictionary.follows follows (not_mem_of_dictionaryCells fun place member => ?_)
    rintro same
    cases List.mem_singleton.mp same
    exact apart.builder member
  · exact List.getElem?_set_self (List.getElem?_eq_some_iff.mp builder).1
  · exact Caches.follows cache follows fun place given same =>
      apart.builderCache place given (List.mem_singleton.mp same)
  · exact List.cons_subset.mpr ⟨p.builder_mem_own, List.nil_subset _⟩

theorem Shows.setCache (shows : Shows heap p b) {place : Address} (given : p.cache = some place)
    {stored : Cache Address} {cache : Cache (Expression σ α)}
    (hold : stored.Matches (Points heap) cache) :
    Shows (heap.set place (.cache stored)) p { b with cache := some cache } ∧
      Follows p.own heap (heap.set place (.cache stored)) := by
  obtain ⟨apart, dictionary, ⟨tokenizer, builder, scans⟩, caches⟩ := shows
  obtain ⟨old, found⟩ := Caches.exists_stored caches given
  have follows := follows_set found id (.cache stored)
  refine ⟨⟨apart, ?_, ⟨tokenizer, ?_, Scans.follows scans follows⟩, ?_⟩, follows.mono ?_⟩
  · refine dictionary.follows follows (not_mem_of_dictionaryCells fun other member => ?_)
    rintro same
    cases List.mem_singleton.mp same
    exact apart.cache place given member
  · refine follows _ _ builder (.inl fun same => ?_)
    exact apart.builderCache place given (List.mem_singleton.mp same).symm
  · rw [given]
    refine .some ⟨stored, List.getElem?_set_self (List.getElem?_eq_some_iff.mp found).1, ?_⟩
    exact hold.mono fun _ _ points => points.follows follows
  · exact List.cons_subset.mpr ⟨Parts.cache_mem_own given, List.nil_subset _⟩

theorem Shows.runs_edit (shows : Shows heap p b) (edit : Vocabulary.Edit σ α) :
    Runs p heap (Sharing.edit p.builder edit)
      { b with vocabulary := (edit.perform.run b.vocabulary).2 }
      fun answer _ => answer = (edit.perform.run b.vocabulary).1 := by
  obtain ⟨apart, dictionary, ⟨tokenizer, builder, scans⟩, cache⟩ := shows
  obtain ⟨later, ran, stores, follows⟩ := run_editDictionary dictionary apart.dictionary edit
  refine .peek (run_read builder) ⟨_, later, ran, ?_, follows.mono p.ofDictionary_subset_own, rfl⟩
  refine ⟨apart, stores, ⟨tokenizer, ?_, Scans.follows scans follows⟩, ?_⟩
  · exact follows _ _ builder (.inl apart.builder)
  · exact Caches.follows cache follows apart.cache

theorem Shows.runs_newTokenizer (shows : Shows heap p b) (tokenizer : Option (Nat × Address)) :
    Runs p heap
      (newTokenizer p.builder ⟨b.config, p.dictionary, p.cache, b.cacheVersion, tokenizer⟩
        b.vocabulary)
      { b with labels := some (b.vocabulary.version, Scanner.labelChars b.vocabulary) }
      fun place later => later[place]? =
        some (.tokenizer p.dictionary b.config (Scanner.labelChars b.vocabulary)) := by
  unfold newTokenizer
  refine .step (run_allocate _) (follows_append _ _ _) ?_
  have scans : Scans (heap ++ [.tokenizer p.dictionary b.config (Scanner.labelChars b.vocabulary)])
      p.dictionary b.config (b.vocabulary.version, heap.length)
      (b.vocabulary.version, Scanner.labelChars b.vocabulary) :=
    ⟨rfl, List.getElem?_concat_length⟩
  obtain ⟨shown, follows⟩ := (shows.allocate _).setFields b.cacheVersion (.some scans)
  refine .step (run_write _ _) follows (.pure shown ?_)
  exact follows _ _ scans.2 (.inr trivial)

theorem Shows.runs_tokenizer (shows : Shows heap p b) :
    Runs p heap (tokenizer p.builder) b.remember fun place later =>
      later[place]? = some (.tokenizer p.dictionary b.config b.currentLabels) := by
  obtain ⟨kept, builder, scans⟩ := shows.builder
  unfold tokenizer
  refine .peek (run_read builder) (.peek (run_vocabulary shows.dictionary) ?_)
  unfold Builder.remember Builder.currentLabels
  generalize remembered : b.labels = labels at scans
  cases scans with
  | none => exact shows.runs_newTokenizer none
  | @some mine theirs scans =>
    obtain ⟨version, place⟩ := mine
    obtain ⟨_, labels⟩ := theirs
    obtain ⟨rfl, found⟩ := scans
    simp only
    by_cases current : version = b.vocabulary.version
    · simp only [if_pos current]
      refine .pure ?_ found
      rw [← current, ← remembered]
      exact shows
    · simp only [if_neg current]
      exact shows.runs_newTokenizer _

theorem Shows.runs_tokenize (shows : Shows heap p b) (text : String) :
    Runs p heap (Sharing.tokenize p.builder text) (b.tokenize text).2
      fun tokens _ => tokens = (b.tokenize text).1 := by
  refine shows.runs_tokenizer.bind fun place later shown found => ?_
  refine .peek (run_read found) (.peek (run_vocabulary shown.dictionary) (.pure shown rfl))

/-- What a builder with a cache finds there: stale entries do not count. -/
theorem lookUp_of_cache {cache : Cache (Expression σ α)} (given : b.cache = some cache)
    (text : String) :
    let current := if b.cacheVersion = b.vocabulary.version then cache
      else cache.discardStale b.vocabulary.version
    b.lookUp text = ((current.get ⟨text, b.vocabulary.version⟩).1,
      { b with
        cache := some (current.get ⟨text, b.vocabulary.version⟩).2
        cacheVersion := b.vocabulary.version }) := by
  unfold Builder.lookUp Builder.refresh
  by_cases same : b.cacheVersion = b.vocabulary.version
  · simp only [given, if_pos same]
    rw [← same]
  · simp only [given, if_neg same, Option.map_some]

theorem Shows.runs_lookUp (shows : Shows heap p b) (text : String) :
    Runs p heap (Sharing.lookUp p.builder text) (b.lookUp text).2
      fun found later => Option.Rel (Points later) found (b.lookUp text).1 := by
  obtain ⟨tokenizer, builder, scans⟩ := shows.builder
  unfold Sharing.lookUp
  refine .peek (run_read builder) (.peek (run_vocabulary shows.dictionary) ?_)
  have caches := shows.cache
  generalize mine : p.cache = place at caches
  generalize theirs : b.cache = cache at caches
  cases caches with
  | none =>
    simp only [Builder.lookUp, theirs]
    exact .pure shows .none
  | @some place cache caches =>
    obtain ⟨stored, found, hold⟩ := caches
    simp only [lookUp_of_cache theirs]
    refine .peek (run_read found) ?_
    have current : Cache.Matches (Points heap)
        (if b.cacheVersion = b.vocabulary.version then stored
          else stored.discardStale b.vocabulary.version)
        (if b.cacheVersion = b.vocabulary.version then cache
          else cache.discardStale b.vocabulary.version) := by
      split
      · exact hold
      · exact hold.discardStale _
    obtain ⟨same, used⟩ := current.get ⟨text, b.vocabulary.version⟩
    -- The cache and the builder are two objects, so the second write leaves the first as it is.
    obtain ⟨cached, follows⟩ := shows.setCache mine used
    obtain ⟨shown, followsOn⟩ := cached.setFields b.vocabulary.version (Scans.follows scans follows)
    simp only [mine] at shown followsOn
    refine .step (run_write _ _) follows (.step (run_write _ _) followsOn (.pure shown ?_))
    exact rel_imp same fun _ _ points => (points.follows follows).follows followsOn

theorem Shows.runs_store (shows : Shows heap p b) (text : String) {place : Address}
    {e : Expression σ α} (points : Points heap place e) :
    Runs p heap (Sharing.store p.cache ⟨text, b.vocabulary.version⟩ place) (b.store text e)
      fun _ later => Points later place e := by
  unfold Sharing.store Builder.store
  have caches := shows.cache
  generalize mine : p.cache = address at caches
  generalize theirs : b.cache = cache at caches
  cases caches with
  | none =>
    refine .pure ?_ points
    rw [Option.map_none, ← theirs]
    exact shows
  | some caches =>
    obtain ⟨stored, found, hold⟩ := caches
    obtain ⟨shown, follows⟩ := shows.setCache mine (hold.set ⟨text, b.vocabulary.version⟩ points)
    refine .peek (run_read found) ⟨(), _, run_write _ _, shown, follows, points.follows follows⟩

/-- An address and the expression there, or a failure, as the builder gives it. -/
def Built (later : Heap σ α) (mine : Except Failure (Address × Expression σ α))
    (theirs : Except Failure (Expression σ α)) : Prop :=
  mine.map Prod.snd = theirs.map Expression.unstamped ∧
    ∀ place e, mine = .ok (place, e) → later[place]? = some (.expression e)

theorem Shows.runs_build (shows : Shows heap p b) (text : String) :
    Runs p heap (Sharing.build p.builder text) (b.build text).2
      fun built later => Built later built (b.build text).1 := by
  unfold Builder.build
  refine (shows.runs_lookUp text).bind fun found reached shown points => ?_
  generalize b.lookUp text = looked at shown points
  obtain ⟨given, c⟩ := looked
  simp only at shown points
  cases points with
  | @some place e points =>
    -- A cached expression is at the same address as before, since expressions are fixed.
    refine .peek (run_read points) (.pure shown ⟨rfl, ?_⟩)
    intro place e same
    cases same
    exact points
  | none =>
    refine (shown.runs_tokenize text).bind fun tokens later shown same => ?_
    subst same
    obtain ⟨tokenizer, builder, _⟩ := shown.builder
    refine .peek (run_read builder) (.peek (run_vocabulary shown.dictionary) ?_)
    have config : (c.tokenize text).2.config = c.config := rfl
    have sameVocabulary : (c.tokenize text).2.vocabulary = c.vocabulary := rfl
    have stamped := shown.stamp (c.nextStamp + 1)
    simp only [Builder.construct_eq, config, sameVocabulary]
    cases (c.tokenize text).1 >>= Tree.ofTokens c.config.display c.config.maxDepth with
    | error cause => exact .pure stamped ⟨rfl, fun _ _ never => nomatch never⟩
    | ok root =>
      -- The object is made, and cached, even if the text of the tree cannot be written.
      have made : Points (later ++ [.expression ⟨root, c.vocabulary.constants, c.config.print, 0⟩])
          later.length ⟨root, c.vocabulary.constants, c.config.print, c.nextStamp⟩ :=
        List.getElem?_concat_length
      refine .step (run_allocate _) (follows_append _ _ _) ?_
      refine ((stamped.allocate _).runs_store text made).bind fun _ last shown points => ?_
      refine .pure shown ⟨?_, ?_⟩
      · simp only [Except.map, Expression.written]
        cases root.written c.config.print with
        | error cause => rfl
        | ok written => rfl
      · intro place e same
        obtain ⟨_, _, same⟩ := map_eq_ok_iff.mp same
        cases same
        exact points

/- New builders. -/

/-- The work makes a builder of new objects only. -/
def Makes (heap : Heap σ α) (work : Work σ α Address) (b : Builder σ α) : Prop :=
  ∃ p later, work.run heap = some (p.builder, later) ∧ Shows later p b ∧ Follows [] heap later ∧
    ∀ place ∈ p.own, heap.length ≤ place

theorem run_newCache (size : Option Nat) (heap : Heap σ α) :
    ∃ cache more, (newCache size).run heap = some (cache, heap ++ more) ∧
      Option.Rel (Caches (heap ++ more)) cache (size.map .empty) ∧
      ∀ place ∈ cache, heap.length ≤ place ∧ place < (heap ++ more).length := by
  cases size with
  | none => exact ⟨none, [], by rw [List.append_nil]; rfl, .none, fun _ never => nomatch never⟩
  | some maxSize =>
    refine ⟨some heap.length, [.cache (.empty maxSize)], rfl, ?_, ?_⟩
    · exact .some ⟨.empty maxSize, List.getElem?_concat_length, Cache.matches_empty _ maxSize⟩
    · rintro place ⟨⟩
      simp

theorem makes_create (config : Config α) (v : Vocabulary σ α) (size : Option Nat)
    (nextStamp : Nat) (heap : Heap σ α) :
    Makes heap (create config v size) (Builder.new config v size nextStamp) := by
  obtain ⟨dictionary, maps, reached, made, stores, distinct, fresh, kept⟩ :=
    run_newDictionary v heap
  obtain ⟨cache, more, cached, caches, between⟩ := run_newCache size reached
  have below : ∀ place ∈ dictionary :: maps.all, place < reached.length :=
    fun place member => lt_length_of_stores stores member
  have grown : heap.length ≤ reached.length :=
    Nat.le_of_lt (Nat.lt_of_le_of_lt (fresh _ List.mem_cons_self) (below _ List.mem_cons_self))
  have longer : reached.length ≤ (reached ++ more).length := by simp
  have last := follows_append [] (reached ++ more)
    [.builder ⟨config, dictionary, cache, v.version, none⟩]
  have later := (follows_append [] reached more).trans last
  refine ⟨⟨(reached ++ more).length, cache, dictionary, maps⟩, _, ?_,
    ⟨?_, ?_, ⟨none, ?_, .none⟩, ?_⟩, kept.trans later, ?_⟩
  · unfold create
    simp only [run_bind, made, cached, Option.bind_some]
    rfl
  · constructor
    · exact distinct
    · intro place given member
      exact absurd (below place member) (Nat.not_lt.mpr (between place given).1)
    · exact fun member => absurd (below _ member) (Nat.not_lt.mpr longer)
    · exact fun place given => Nat.ne_of_lt (between place given).2
  · exact stores.follows later fun _ _ => List.not_mem_nil
  · exact List.getElem?_concat_length
  · exact Caches.follows caches last fun _ _ => List.not_mem_nil
  · intro place member
    rcases List.mem_cons.mp member with rfl | member
    · exact Nat.le_trans grown longer
    · rcases List.mem_append.mp member with given | member
      · exact Nat.le_trans grown (between place (Option.mem_toList.mp given)).1
      · exact fresh place member

theorem Shows.run_sizeToCopy (shows : Shows heap p b) :
    ∃ size, (sizeToCopy p.cache).run heap = some (size, heap) ∧
      b.copy.cache = size.map .empty := by
  have caches := shows.cache
  unfold Builder.copy
  generalize p.cache = mine at caches
  generalize b.cache = theirs at caches
  cases caches with
  | none => exact ⟨none, rfl, rfl⟩
  | some caches =>
    obtain ⟨stored, found, hold⟩ := caches
    refine ⟨if stored.size = 0 then none else some stored.maxSize, ?_, ?_⟩
    · unfold sizeToCopy
      simp only [run_bind, run_read found, Option.bind_some]
      rfl
    · simp only [hold.size_eq, hold.maxSize]
      split <;> rfl

/-- A copy shares no object with the builder that it is made from. -/
theorem Shows.makes_copy (shows : Shows heap p b) : Makes heap (Sharing.copy p.builder) b.copy := by
  obtain ⟨tokenizer, builder, _⟩ := shows.builder
  obtain ⟨size, sized, cache⟩ := shows.run_sizeToCopy
  obtain ⟨q, later, ran, made⟩ := makes_create b.config b.vocabulary.copy size b.nextStamp heap
  rw [Builder.new, ← cache] at made
  refine ⟨q, later, ?_, made⟩
  unfold Sharing.copy
  rw [run_bind, run_read builder, Option.bind_some]
  simp only [run_bind, run_vocabulary shows.dictionary, sized, Option.bind_some]
  exact ran

end InfixCalc.Sharing
