import InfixCalc.Proofs.Caching.Recall
import InfixCalc.Proofs.Caching.Turn
import InfixCalc.Proofs.Session

/-!
# What a failed build leaves in the cache

A text that cannot be read leaves the cache as it was, without other versions. An expression that
cannot be printed is in the cache by then, and the next build gives it.
-/

namespace InfixCalc

namespace Cache

variable {α : Type} {cache : Cache α} (sound : cache.Sound)
include sound

theorem Sound.entries_of_get_eq_none {key : CacheKey} (missing : (cache.get key).1 = none) :
    key ∉ cache.keys ∧ (cache.get key).2.entries = cache.entries := by
  rcases sound.get_cases key with ⟨absent, _, same⟩ | ⟨_, _, found, _⟩
  · exact ⟨absent, same⟩
  · cases found.symm.trans missing

theorem Sound.entries_set {key : CacheKey} (absent : key ∉ cache.keys) (value : α) :
    (cache.set key value).entries = (cache.entries ++ [(key, value)]).rtake cache.maxSize := by
  rw [sound.set_of_not_mem absent, renewed, without_of_not_mem absent, List.rtake]

/-- A value that is set under a new key is found. -/
theorem Sound.get_set {key : CacheKey} (absent : key ∉ cache.keys) (value : α) :
    ((cache.set key value).get key).1 = some value := by
  have member : (key, value) ∈ (cache.set key value).entries := by
    obtain ⟨n, room⟩ : ∃ n, cache.maxSize = n + 1 := ⟨cache.maxSize - 1, by
      have positive := sound.positive
      omega⟩
    rw [sound.entries_set absent, room, List.rtake_concat_succ]
    exact List.mem_append_right _ (List.mem_singleton_self _)
  rcases (sound.set key value).get_cases key with ⟨missing, _⟩ | ⟨other, inside, found, _⟩
  · exact absurd (List.mem_map_of_mem member) missing
  · cases List.inj_on_of_nodup_map (sound.set key value).distinct member inside rfl
    exact found

end Cache

namespace Builder

variable {σ α : Type}

/-- The tree that a text stands for. -/
def read (b : Builder σ α) (text : String) : Except Failure (Tree (Symbol σ α)) :=
  (Scanner.make b.vocabulary b.config).root b.config.maxDepth text

/-- The builders that come about when their caches are asked by others as well, who set nothing. -/
inductive Tended : Builder σ α → Prop where
  | make {config : Config α} {v : Vocabulary σ α} {cacheSize : Setting} {b : Builder σ α} :
      v.Reachable → Builder.make config v cacheSize = .ok b → Tended b
  | build {b : Builder σ α} (text : String) : Tended b → Tended (b.build text).2
  | tokenize {b : Builder σ α} (text : String) : Tended b → Tended (b.tokenize text).2
  | change {b : Builder σ α} {w : Vocabulary σ α} :
      Tended b → b.vocabulary.Change w → Tended { b with vocabulary := w }
  | copy {b : Builder σ α} : Tended b → Tended b.copy
  | ask {b : Builder σ α} {cache : Cache (Expression σ α)}
      (request : Cache.Request (Expression σ α)) : Tended b → b.cache = some cache →
      (∀ key value, request ≠ .set key value) →
      Tended { b with cache := some (cache.serve request).2 }

/-- The cache is sound, and all it holds is of the version that the last build has seen. -/
structure Tidy (b : Builder σ α) : Prop where
  consistent : b.Consistent
  cached : ∀ cache, b.cache = some cache →
    cache.Sound ∧ ∀ key ∈ cache.keys, key.version = b.cacheVersion

/-- What a refreshed builder keeps of its cache. -/
structure Keeps (b : Builder σ α) (cache kept : Cache (Expression σ α)) : Prop where
  left : b.refresh.cache = some kept
  entries : kept.entries = (cache.discardStale b.vocabulary.version).entries
  maxSize : kept.maxSize = cache.maxSize
  sound : kept.Sound

theorem Tidy.exists_keeps {b : Builder σ α} (tidy : b.Tidy) {cache : Cache (Expression σ α)}
    (present : b.cache = some cache) : ∃ kept, b.Keeps cache kept := by
  obtain ⟨sound, versions⟩ := tidy.cached cache present
  by_cases seen : b.cacheVersion = b.vocabulary.version
  · refine ⟨cache, (refresh_of_seen seen).symm ▸ present, ?_, rfl, sound⟩
    refine (List.filter_eq_self.mpr fun entry member => beq_iff_eq.mpr ?_).symm
    exact (versions entry.1 (List.mem_map_of_mem member)).trans seen
  · refine ⟨cache.discardStale b.vocabulary.version, ?_, rfl, rfl,
      sound.serve (.discardStale b.vocabulary.version)⟩
    rw [refresh, if_neg seen, present]
    rfl

/- Every builder that comes about is tidy. -/

theorem cache_build_of_none {b : Builder σ α} (absent : b.cache = none) (text : String) :
    (b.build text).2.cache = none := by
  have missing : b.lookUp text = (none, b) := by
    unfold lookUp
    rw [absent]
  have kept : (b.construct text).2.cache = none := absent
  unfold build
  rw [missing]
  simp only
  generalize b.construct text = attempt at kept
  obtain ⟨result, next⟩ := attempt
  cases result with
  | error cause => exact kept
  | ok e => exact congrArg (Option.map _) kept

theorem Keeps.sound_build {b : Builder σ α} {cache kept next : Cache (Expression σ α)}
    (keeps : b.Keeps cache kept) {text : String} (given : (b.build text).2.cache = some next) :
    next.Sound := by
  have looked := keeps.sound.get (b.key text)
  have turn := turn_build keeps.left text
  generalize b.build text = built at turn given
  obtain ⟨result, after⟩ := built
  cases turn with
  | found | refused =>
    cases given
    exact looked
  | made | unprinted =>
    cases given
    exact looked.set _ _

theorem Tidy.build {b : Builder σ α} (tidy : b.Tidy) (text : String) : (b.build text).2.Tidy := by
  refine ⟨(tidy.consistent.build text).consistent, fun next given => ?_⟩
  cases present : b.cache with
  | none => cases (cache_build_of_none present text).symm.trans given
  | some cache =>
    obtain ⟨kept, keeps⟩ := tidy.exists_keeps present
    have stocked : b.Stocked b.cacheVersion := ⟨rfl, cache, present, (tidy.cached cache present).2⟩
    obtain ⟨seen, later, sameCache, versions⟩ := stocked.build text
    cases given.symm.trans sameCache
    exact ⟨keeps.sound_build given, seen.symm ▸ versions⟩

theorem mem_serve {cache : Cache (Expression σ α)} {request : Cache.Request (Expression σ α)}
    (reads : ∀ key value, request ≠ .set key value) {entry : CacheKey × Expression σ α}
    (member : entry ∈ (cache.serve request).2.entries) : entry ∈ cache.entries := by
  cases request with
  | get key => exact mem_get member
  | set key value => exact absurd rfl (reads key value)
  | discardStale version => exact (List.mem_filter.mp member).1
  | clear => cases member

theorem Tidy.ask {b : Builder σ α} (tidy : b.Tidy) {cache : Cache (Expression σ α)}
    (present : b.cache = some cache) {request : Cache.Request (Expression σ α)}
    (reads : ∀ key value, request ≠ .set key value) :
    Tidy { b with cache := some (cache.serve request).2 } := by
  obtain ⟨consistent, cached⟩ := tidy
  obtain ⟨sound, versions⟩ := cached cache present
  refine ⟨⟨consistent.regular, consistent.labels, ?_⟩, ?_⟩
  · intro next same key e member
    cases same
    exact consistent.entries cache present key e (mem_serve reads member)
  · intro next same
    cases same
    refine ⟨sound.serve request, fun key member => ?_⟩
    obtain ⟨entry, inside, rfl⟩ := List.mem_map.mp member
    exact versions entry.1 (List.mem_map_of_mem (mem_serve reads inside))

theorem Tidy.copy {b : Builder σ α} (tidy : b.Tidy) : b.copy.Tidy := by
  refine ⟨tidy.consistent.copy, fun next given => ?_⟩
  obtain ⟨cache, present, same⟩ : ∃ cache, b.cache = some cache ∧ next = .empty cache.maxSize := by
    unfold Builder.copy at given
    simp only at given
    split at given
    · rename_i cache present
      split at given
      · cases given
      · cases given
        exact ⟨cache, present, rfl⟩
    · cases given
  subst same
  exact ⟨(tidy.cached cache present).1.serve .clear, fun key never => nomatch never⟩

theorem tidy_make {config : Config α} {v : Vocabulary σ α} {cacheSize : Setting} {b : Builder σ α}
    (regular : v.Regular) (made : make config v cacheSize = .ok b) : b.Tidy := by
  refine ⟨consistent_make regular made, fun cache given => ?_⟩
  obtain ⟨size, fresh⟩ := eq_new made
  obtain ⟨_, sized, same⟩ := bind_eq_ok_iff.mp made
  cases same
  cases given
  unfold cacheOf at sized
  split at sized
  · obtain ⟨_, fromSetting, wrapped⟩ := bind_eq_ok_iff.mp sized
    cases wrapped
    obtain ⟨_, _, empty⟩ := Option.map_eq_some_iff.mp (congrArg Builder.cache fresh).symm
    subst empty
    exact ⟨(Cache.reflects_of_ofSetting fromSetting).sound, fun key never => nomatch never⟩
  · cases sized

theorem Tended.tidy {b : Builder σ α} (tended : b.Tended) : b.Tidy := by
  induction tended with
  | make reachable made => exact tidy_make reachable.regular made
  | build text _ tidy => exact tidy.build text
  | tokenize text _ tidy => exact ⟨tidy.consistent.remember, tidy.cached⟩
  | change _ change tidy => exact ⟨tidy.consistent.change change, tidy.cached⟩
  | copy _ tidy => exact tidy.copy
  | ask request _ present reads tidy => exact tidy.ask present reads

/- A build that fails. -/

section Consistent

variable {b : Builder σ α} (consistent : b.Consistent) {text : String}
include consistent

theorem Consistent.construct_eq_read :
    (b.construct text).1 = (b.read text).map fun root =>
      ⟨root, b.vocabulary.constants, b.config.print, b.nextStamp⟩ := by
  rw [consistent.construct_eq]
  rfl

theorem Consistent.read_of_construct_ok {e : Expression σ α}
    (made : (b.construct text).1 = .ok e) : b.read text = .ok e.root := by
  rw [consistent.construct_eq_read] at made
  obtain ⟨root, read, rfl⟩ := map_eq_ok_iff.mp made
  exact read

theorem Consistent.read_of_construct_error {cause : Failure}
    (refused : (b.construct text).1 = .error cause) : b.read text = .error cause := by
  rw [consistent.construct_eq_read] at refused
  cases read : b.read text with
  | error other =>
    rw [read] at refused
    cases refused
    rfl
  | ok root =>
    rw [read] at refused
    cases refused

end Consistent

/-- The next build gives what has been stored by a look-up or an attempt. -/
theorem build_of_get_eq_some {b : Builder σ α} {cache : Cache (Expression σ α)} {text : String}
    {e : Expression σ α} (present : b.cache = some cache)
    (seen : b.cacheVersion = b.vocabulary.version) (found : (cache.get (b.key text)).1 = some e) :
    (b.build text).1 = .ok e := by
  have left : b.refresh.cache = some cache := (refresh_of_seen seen).symm ▸ present
  have turn := turn_build left text
  generalize b.build text = built at turn
  obtain ⟨result, after⟩ := built
  cases turn with
  | found fromCache =>
    cases found.symm.trans fromCache
    rfl
  | refused missing => cases found.symm.trans missing
  | made missing => cases found.symm.trans missing
  | unprinted missing => cases found.symm.trans missing

/-- A build that fails leaves the cache without the entries of other versions, and the next one
fails as well, just where the text cannot be read. Where it can be read, what it stands for cannot
be printed: that expression is stored by then, and the next build gives it. -/
theorem entries_build_eq_iff {b : Builder σ α} (tended : b.Tended)
    {cache : Cache (Expression σ α)} (present : b.cache = some cache) {text : String}
    {cause : Failure} (failed : (b.build text).1 = .error cause) :
    ∃ next, (b.build text).2.cache = some next ∧
      (next.entries = (cache.discardStale b.vocabulary.version).entries ↔
        b.read text = .error cause) ∧
      (((b.build text).2.build text).1 = .error cause ↔ b.read text = .error cause) ∧
      ∀ root, b.read text = .ok root →
        ∃ e : Expression σ α, e.root = root ∧ e.written = .error cause ∧
          next.entries = ((cache.discardStale b.vocabulary.version).entries ++
            [(b.key text, e)]).rtake cache.maxSize ∧
          ((b.build text).2.build text).1 = .ok e := by
  have tidy := tended.tidy
  obtain ⟨kept, keeps⟩ := tidy.exists_keeps present
  have again (unread : b.read text = .error cause) :
      ((b.build text).2.build text).1 = .error cause := by
    have spec := tidy.consistent.build text
    refine spec.consistent.build_error ?_
    rw [spec.vocabulary, spec.config]
    exact unread
  rw [← keeps.entries, ← keeps.maxSize]
  have turn := turn_build keeps.left text
  generalize b.build text = built at turn failed again ⊢
  obtain ⟨result, after⟩ := built
  cases failed
  cases turn with
  | refused missing refused =>
    have unread := tidy.consistent.read_of_construct_error refused
    refine ⟨_, rfl, iff_of_true (keeps.sound.entries_of_get_eq_none missing).2 unread,
      iff_of_true (again unread) unread, ?_⟩
    intro root never
    cases unread.symm.trans never
  | @unprinted e _ missing made shown =>
    have read := tidy.consistent.read_of_construct_ok made
    have unlike : b.read text ≠ .error cause := by
      intro never
      cases read.symm.trans never
    obtain ⟨absent, same⟩ := keeps.sound.entries_of_get_eq_none missing
    have size : (kept.get (b.key text)).2.maxSize = kept.maxSize :=
      Cache.maxSize_serve kept (.get (b.key text))
    have looked := keeps.sound.get (b.key text)
    generalize (kept.get (b.key text)).2 = left at looked same size
    have absentThen : b.key text ∉ left.keys := by
      rw [Cache.keys, same]
      exact absent
    have found := looked.get_set absentThen e
    have again : ((b.attempted (left.set (b.key text) e)).build text).1 = .ok e :=
      build_of_get_eq_some rfl rfl found
    have entries := looked.entries_set absentThen e
    rw [same, size] at entries
    refine ⟨_, rfl, iff_of_false ?_ unlike, iff_of_false ?_ unlike, ?_⟩
    · intro unchanged
      have member := mem_of_get found
      rw [unchanged] at member
      exact absent (List.mem_map_of_mem member)
    · intro never
      cases again.symm.trans never
    · intro root readAs
      cases read.symm.trans readAs
      exact ⟨e, rfl, shown, entries, again⟩

/-- No number can be printed. -/
def muteConfig : Config Nat := { plainConfig with print := fun _ => .error (.raised "unprintable") }

/-- A builder with room for one expression. -/
def muteBuilder : Builder Unit Nat := new muteConfig .empty (some 1) 0

theorem entries_build_eq_iff_mute :
    muteBuilder.Tended ∧ (muteBuilder.build "5").1 = .error (.raised "unprintable") ∧
      ∃ next e, (muteBuilder.build "5").2.cache = some next ∧ next.entries = [(⟨"5", 0⟩, e)] ∧
        next.entries ≠ [] ∧ ((muteBuilder.build "5").2.build "5").1 = .ok e := by
  have positive : (1 : Int) ≤ 1 := by decide
  have tended : muteBuilder.Tended := .make .empty (make_whole muteConfig .empty positive)
  have failed : (muteBuilder.build "5").1 = .error (.raised "unprintable") := by cbv
  have read : muteBuilder.read "5" = .ok (.node (.operand 5) []) := by cbv
  obtain ⟨next, present, _, _, stored⟩ := entries_build_eq_iff tended rfl failed
  obtain ⟨e, _, _, entries, again⟩ := stored _ read
  exact ⟨tended, failed, next, e, present, entries, entries ▸ List.cons_ne_nil _ _, again⟩

end Builder
end InfixCalc
