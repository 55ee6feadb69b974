import InfixCalc.Proofs.Caching.Recall
import InfixCalc.Proofs.Caching.Turn
import InfixCalc.Proofs.Session

/-!
# How long an expression is found again

A run of builds gives expressions, and the cache recalls those of the texts that were built most
recently. Texts that are refused make no difference.
-/

namespace InfixCalc.Builder

variable {σ α : Type}

/-- The expression that a build has given, with its text. -/
def gained (text : String) : Except Failure (Expression σ α) → List (String × Expression σ α)
  | .ok e => [(text, e)]
  | .error _ => []

/-- The expressions that the builds of texts give one after another, each with its text, and the
builder afterwards. -/
def buildAll (b : Builder σ α) : List String → List (String × Expression σ α) × Builder σ α
  | [] => ([], b)
  | text :: later =>
    let (built, next) := b.build text
    let (given, last) := next.buildAll later
    (gained text built ++ given, last)

/-- The expression was given last for the text, and since then fewer than `count` other texts have
been given an expression. -/
def Recent (count : Nat) (given : List (String × Expression σ α)) (text : String)
    (e : Expression σ α) : Prop :=
  ∃ before since, given = before ++ (text, e) :: since ∧ text ∉ since.map (·.1) ∧
    (since.map (·.1)).dedup.length < count

theorem Recent.mem {count : Nat} {given : List (String × Expression σ α)} {text : String}
    {e : Expression σ α} (recent : Recent count given text e) : (text, e) ∈ given := by
  obtain ⟨before, since, rfl, _, _⟩ := recent
  exact List.mem_append_right _ List.mem_cons_self

/-- Expressions given for texts as uses of the keys for a version. -/
def uses (version : Nat) (given : List (String × Expression σ α)) :
    List (CacheKey × Expression σ α) :=
  given.map fun (text, e) => (⟨text, version⟩, e)

theorem injective_key (version : Nat) : Function.Injective (CacheKey.mk · version) :=
  fun _ _ same => congrArg CacheKey.text same

theorem map_fst_uses (version : Nat) (given : List (String × Expression σ α)) :
    (uses version given).map (·.1) = (given.map (·.1)).map (CacheKey.mk · version) := by
  rw [uses, List.map_map, List.map_map]
  rfl

theorem dedup_uses (version : Nat) (given : List (String × Expression σ α)) :
    ((uses version given).map (·.1)).dedup =
      (given.map (·.1)).dedup.map (CacheKey.mk · version) := by
  rw [map_fst_uses, List.dedup_map_of_injective (injective_key version)]

/-- A cache that recalls what was given holds just what is recent. -/
theorem mem_entries_iff_recent {version : Nat} {given : List (String × Expression σ α)}
    {cache : Cache (Expression σ α)} (recalls : cache.Recalls (uses version given)) {text : String}
    {e : Expression σ α} :
    (⟨text, version⟩, e) ∈ cache.entries ↔ Recent cache.maxSize given text e := by
  have same (since : List (String × Expression σ α)) :
      (⟨text, version⟩ ∉ (uses version since).map (·.1) ↔ text ∉ since.map (·.1)) ∧
        ((uses version since).map (·.1)).dedup.length = (since.map (·.1)).dedup.length := by
    rw [dedup_uses, List.length_map, map_fst_uses,
      List.mem_map_of_injective (injective_key version)]
    exact ⟨Iff.rfl, rfl⟩
  rw [recalls.mem_iff]
  constructor
  · rintro ⟨_, _, split, never, few⟩
    obtain ⟨before, rest, rfl, rfl, more⟩ := List.map_eq_append_iff.mp split
    obtain ⟨⟨_, _⟩, since, rfl, first, rfl⟩ := List.map_eq_cons_iff.mp more
    cases first
    exact ⟨before, since, rfl, (same since).1.mp never, (same since).2 ▸ few⟩
  · rintro ⟨before, since, rfl, never, few⟩
    refine ⟨uses version before, uses version since, ?_, (same since).1.mpr never,
      (same since).2.symm ▸ few⟩
    rw [uses, List.map_append, List.map_cons]
    rfl

/-- The builder and its cache after `count` builds over a vocabulary, with what they have given. -/
structure Recalling (config : Config α) (v : Vocabulary σ α) (size : Nat)
    (given : List (String × Expression σ α)) (count : Nat) (b : Builder σ α)
    (cache : Cache (Expression σ α)) : Prop where
  config : b.config = config
  vocabulary : b.vocabulary = v
  seen : b.cacheVersion = v.version
  present : b.cache = some cache
  size : cache.maxSize = size
  recalls : cache.Recalls (uses v.version given)
  counts : cache.hits + cache.misses = count
  stamps : ∀ entry ∈ given, entry.2.stamp < b.nextStamp

/-- What a build gives and counts: an expression of the cache, or one that is new, if any. -/
inductive Counted (b : Builder σ α) (text : String) (cache next : Cache (Expression σ α)) :
    Prop where
  | hit {e : Expression σ α} : (b.build text).1 = .ok e → (b.key text, e) ∈ cache.entries →
      next.hits = cache.hits + 1 → next.misses = cache.misses → Counted b text cache next
  | miss : b.key text ∉ cache.keys → next.hits = cache.hits → next.misses = cache.misses + 1 →
      (∀ e, (b.build text).1 = .ok e → e.stamp = b.nextStamp) → Counted b text cache next

section Recalling

variable {config : Config α} {v : Vocabulary σ α} {size : Nat}
  {given : List (String × Expression σ α)} {count : Nat} {b : Builder σ α}
  {cache : Cache (Expression σ α)}

theorem stamps_append {given : List (String × Expression σ α)} {now later : Nat}
    (stamps : ∀ entry ∈ given, entry.2.stamp < now) (order : now ≤ later) {e : Expression σ α}
    (stamp : e.stamp < later) (text : String) :
    ∀ entry ∈ given ++ [(text, e)], entry.2.stamp < later := by
  intro entry member
  rcases List.mem_append.mp member with old | last
  · exact Nat.lt_of_lt_of_le (stamps entry old) order
  · cases List.mem_singleton.mp last
    exact stamp

/-- A build is a hit or a miss, and the cache recalls what has been given afterwards. -/
theorem Recalling.build (recalling : Recalling config v size given count b cache)
    (prints : ∀ value, ∃ text, config.print value = .ok text) (text : String) :
    ∃ next, Recalling config v size (given ++ gained text (b.build text).1) (count + 1)
      (b.build text).2 next ∧ Counted b text cache next := by
  obtain ⟨rfl, rfl, seen, present, rfl, recalls, counts, stamps⟩ := recalling
  have left : b.refresh.cache = some cache := by rw [refresh_of_seen seen, present]
  have turn := turn_build left text
  have sameSize : (cache.get (b.key text)).2.maxSize = cache.maxSize :=
    Cache.maxSize_serve cache (.get (b.key text))
  have usesOf (e : Expression σ α) : uses b.vocabulary.version (given ++ [(text, e)]) =
      uses b.vocabulary.version given ++ [(b.key text, e)] := List.map_append
  generalize step : b.build text = built at turn ⊢
  obtain ⟨result, after⟩ := built
  rcases recalls.get (b.key text) with
    ⟨value, found, member, next, hits, misses⟩ | ⟨nothing, absent, same, next, hits, misses⟩
  · cases turn with
    | @found e fromCache =>
      cases found.symm.trans fromCache
      have old := stamps _ ((mem_entries_iff_recent recalls).mp member).mem
      refine ⟨_, ⟨rfl, rfl, rfl, rfl, sameSize, ?_, by omega, ?_⟩,
        .hit (congrArg Prod.fst step) member hits misses⟩
      · rw [gained, usesOf]
        exact next
      · exact stamps_append stamps (Nat.le_refl _) old text
    | refused missing failed => cases found.symm.trans missing
    | made missing => cases found.symm.trans missing
    | unprinted missing => cases found.symm.trans missing
  · cases turn with
    | found fromCache => cases nothing.symm.trans fromCache
    | refused missing failed =>
      refine ⟨_, ⟨rfl, rfl, rfl, rfl, sameSize, ?_, by omega, ?_⟩,
        .miss absent hits misses fun e never => ?_⟩
      · rw [gained, List.append_nil]
        exact next
      · rw [gained, List.append_nil]
        exact fun entry inside => Nat.lt_succ_of_lt (stamps entry inside)
      · cases (congrArg Prod.fst step).symm.trans never
    | unprinted missing made shown =>
      obtain ⟨print, _⟩ := of_construct_eq_ok made
      obtain ⟨written, works⟩ := Tree.exists_written fun value _ => prints value
      rw [Expression.written, print, works] at shown
      cases shown
    | @made e written missing made shown =>
      obtain ⟨_, stamp⟩ := of_construct_eq_ok made
      have absentNow : b.key text ∉ (cache.get (b.key text)).2.keys := by
        rw [Cache.keys, same]
        exact absent
      refine ⟨_, ⟨rfl, rfl, rfl, rfl, sameSize, ?_, ?_, ?_⟩,
        .miss absent hits misses fun again given => ?_⟩
      · rw [gained, usesOf]
        exact next.set absentNow e
      · change (cache.get (b.key text)).2.hits + (cache.get (b.key text)).2.misses = count + 1
        omega
      · exact stamps_append stamps (Nat.le_succ _) (stamp ▸ Nat.lt_succ_self _) text
      · cases (congrArg Prod.fst step).symm.trans given
        exact stamp

theorem Recalling.buildAll (prints : ∀ value, ∃ text, config.print value = .ok text)
    (texts : List String) (recalling : Recalling config v size given count b cache) :
    ∃ next, Recalling config v size (given ++ (b.buildAll texts).1) (count + texts.length)
      (b.buildAll texts).2 next := by
  induction texts generalizing b given count cache with
  | nil => exact ⟨cache, (List.append_nil given).symm ▸ recalling⟩
  | cons text later ih =>
    obtain ⟨between, afterOne, _⟩ := recalling.build prints text
    obtain ⟨next, afterAll⟩ := ih afterOne
    rw [List.append_assoc, Nat.add_assoc, Nat.add_comm 1] at afterAll
    exact ⟨next, afterAll⟩

theorem recalling_new (config : Config α) (v : Vocabulary σ α) {size : Nat} (positive : 1 ≤ size) :
    Recalling config v size [] 0 (new config v (some size) 0) (.empty size) :=
  ⟨rfl, rfl, rfl, rfl, rfl, Cache.recalls_empty positive, rfl, fun _ never => nomatch never⟩

theorem Recalling.keys_eq (recalling : Recalling config v size given count b cache) :
    cache.keys =
      ((given.map (·.1)).dedup.rtake size).map (CacheKey.mk · v.version) := by
  rw [recalling.recalls.keys_eq, dedup_uses, recalling.size, List.rtake, List.rtake,
    List.map_drop, List.length_map]

end Recalling

/-- After any builds, a cache holds the texts that were given an expression most recently, in the
order of their last use (`List.dedup` keeps the last of equal texts), and every build is counted. A
build is then a hit that gives back an expression just where that was given last for the text and
fewer other texts than the cache may hold have been given one since. Otherwise it is a miss, and
what it gives is new. -/
theorem build_hits_iff_recent (config : Config α) (v : Vocabulary σ α) {size : Int}
    (positive : 1 ≤ size) (prints : ∀ value, ∃ text, config.print value = .ok text) :
    ∃ first, make config v (.whole size) = .ok first ∧
      ∀ earlier given b, first.buildAll earlier = (given, b) → ∀ text,
        ∃ cache next, b.cache = some cache ∧ (b.build text).2.cache = some next ∧
          cache.keys =
            ((given.map (·.1)).dedup.rtake size.toNat).map (CacheKey.mk · v.version) ∧
          cache.size = min size.toNat (given.map (·.1)).dedup.length ∧
          cache.hits + cache.misses = earlier.length ∧
          (∀ e, (b.build text).1 = .ok e ∧ next.hits = cache.hits + 1 ↔
            Recent size.toNat given text e) ∧
          ((∀ e, ¬ Recent size.toNat given text e) →
            next.hits = cache.hits ∧ next.misses = cache.misses + 1 ∧
              ∀ e, (b.build text).1 = .ok e → ∀ entry ∈ given, entry.2.stamp ≠ e.stamp) := by
  refine ⟨_, make_whole config v positive, fun earlier given b run text => ?_⟩
  have start := recalling_new config v (show 1 ≤ size.toNat by omega)
  obtain ⟨cache, recalled⟩ := start.buildAll prints earlier
  have recalling : Recalling config v size.toNat given earlier.length b cache := by
    rw [run, List.nil_append, Nat.zero_add] at recalled
    exact recalled
  obtain ⟨next, afterwards, counted⟩ := recalling.build prints text
  have keys := recalling.keys_eq
  have sameKey : b.key text = ⟨text, v.version⟩ := by rw [key, recalling.vocabulary]
  have inCache (e : Expression σ α) :
      (b.key text, e) ∈ cache.entries ↔ Recent size.toNat given text e := by
    rw [sameKey, mem_entries_iff_recent recalling.recalls, recalling.size]
  have size : cache.size = min size.toNat (given.map (·.1)).dedup.length := by
    have lengths := congrArg List.length keys
    rw [List.length_map, List.rtake, List.length_drop, Cache.keys, List.length_map] at lengths
    rw [Cache.size, lengths]
    omega
  refine ⟨cache, next, recalling.present, afterwards.present, keys, size, recalling.counts, ?_⟩
  cases counted with
  | @hit value built member hits misses =>
    have recent := (inCache value).mp member
    refine ⟨fun e => ⟨?_, fun asRecent => ?_⟩, fun never => absurd recent (never value)⟩
    · rintro ⟨same, _⟩
      cases built.symm.trans same
      exact recent
    · cases List.inj_on_of_nodup_map recalling.recalls.sound.distinct member
        ((inCache e).mpr asRecent) rfl
      exact ⟨built, hits⟩
  | miss absent hits misses fresh =>
    refine ⟨fun e => ⟨?_, fun recent => ?_⟩, fun _ => ⟨hits, misses, ?_⟩⟩
    · rintro ⟨_, hit⟩
      omega
    · exact absurd (List.mem_map_of_mem ((inCache e).mpr recent)) absent
    · intro e built entry member
      have older := recalling.stamps entry member
      have newest := fresh e built
      omega

/-- Two texts are built, then one of them again, then a text that is refused and a third one. -/
def crowdedTexts : List String := ["1", "2", "1", "(", "3"]

theorem build_hits_iff_recent_crowded :
    ∃ first, make plainConfig (.empty : Vocabulary Unit Nat) (.whole 2) = .ok first ∧
      ∃ given b, first.buildAll crowdedTexts = (given, b) ∧
        given.map (·.1) = ["1", "2", "1", "3"] ∧
        ∃ cache next e, b.cache = some cache ∧ (b.build "1").2.cache = some next ∧
          cache.keys = [⟨"1", 0⟩, ⟨"3", 0⟩] ∧ cache.hits + cache.misses = 5 ∧
          (b.build "1").1 = .ok e ∧ next.hits = cache.hits + 1 ∧ (("1", e) ∈ given) := by
  have prints : ∀ value, ∃ text, plainConfig.print value = .ok text :=
    fun value => ⟨toString value, rfl⟩
  have positive : (1 : Int) ≤ 2 := by decide
  obtain ⟨first, made, served⟩ := build_hits_iff_recent plainConfig
    (.empty : Vocabulary Unit Nat) positive prints
  cases (make_whole plainConfig (.empty : Vocabulary Unit Nat) positive).symm.trans made
  have texts : ((new plainConfig (.empty : Vocabulary Unit Nat) (some (2 : Int).toNat) 0).buildAll
      crowdedTexts).1.map (·.1) = ["1", "2", "1", "3"] := by cbv
  generalize run : (new plainConfig (.empty : Vocabulary Unit Nat) (some (2 : Int).toNat)
    0).buildAll crowdedTexts = ran at texts
  obtain ⟨given, b⟩ := ran
  obtain ⟨cache, next, present, presentNext, keys, _, counts, hits, _⟩ := served _ _ _ run "1"
  have few : (["3"] : List String).dedup.length < 2 := by decide
  obtain ⟨e, recent⟩ : ∃ e, Recent 2 given "1" e := by
    obtain ⟨one, fromTwo, rfl, _, twoOn⟩ := List.map_eq_cons_iff.mp texts
    obtain ⟨two, fromOne, rfl, _, oneOn⟩ := List.map_eq_cons_iff.mp twoOn
    obtain ⟨⟨_, e⟩, since, rfl, rfl, last⟩ := List.map_eq_cons_iff.mp oneOn
    exact ⟨e, [one, two], since, rfl, by rw [last]; decide, by rw [last]; exact few⟩
  obtain ⟨built, hit⟩ := (hits e).mpr recent
  refine ⟨_, made, given, b, run, texts, cache, next, e, present, presentNext, ?_, counts, built,
    hit, recent.mem⟩
  rw [keys, texts]
  rfl

end InfixCalc.Builder
