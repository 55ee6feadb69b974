import InfixCalc.Proofs.Caching.Failure

/-!
# The caching of a copy

A copy has the configuration of the builder and the words of its vocabulary. It has a cache of the
same size as well, unless the cache of the builder is empty: then the copy has none.
-/

namespace InfixCalc

namespace Cache

variable {α : Type}

theorem put_ne_nil (key : CacheKey) (value : α) (entries : List (CacheKey × α)) :
    put key value entries ≠ [] := by
  cases entries with
  | nil => exact List.cons_ne_nil _ _
  | cons entry rest =>
    rw [put]
    split <;> exact List.cons_ne_nil _ _

theorem entries_set_ne_nil (cache : Cache α) (key : CacheKey) (value : α) :
    (cache.set key value).entries ≠ [] :=
  put_ne_nil key value _

theorem entries_get_ne_nil {cache : Cache α} {key : CacheKey} {value : α}
    (found : (cache.get key).1 = some value) : (cache.get key).2.entries ≠ [] := by
  unfold get at found ⊢
  cases stored : cache.peek? key with
  | none =>
    rw [stored] at found
    cases found
  | some other => simp

theorem entries_discardStale_ne_nil {cache : Cache α} {version : Nat} :
    (cache.discardStale version).entries ≠ [] ↔ ∃ key ∈ cache.keys, key.version = version := by
  simp [discardStale, keys, List.filter_eq_nil_iff]

end Cache

namespace Builder

variable {σ α : Type} {b : Builder σ α}

/-- The cache of the builder, if it has one, holds an expression. -/
def HoldsSome (b : Builder σ α) : Prop := ∀ cache, b.cache = some cache → cache.entries ≠ []

theorem cache_copy_eq_iff : b.copy.cache = b.cache.map Cache.clear ↔ b.HoldsSome := by
  unfold copy HoldsSome
  cases b.cache with
  | none => simp
  | some cache =>
    simp only [Option.map_some, Cache.size, List.length_eq_zero_iff, Cache.clear,
      Option.some.injEq, forall_eq']
    split
    · simp_all
    · simp_all

theorem cache_copy_eq_none (idle : ¬ b.HoldsSome) : b.copy.cache = none := by
  unfold HoldsSome at idle
  push Not at idle
  obtain ⟨cache, present, empty⟩ := idle
  simp [copy, present, Cache.size, empty]

theorem not_holdsSome_copy {cache : Cache (Expression σ α)}
    (present : b.copy.cache = some cache) : ¬ b.copy.HoldsSome := by
  intro holds
  apply holds cache present
  unfold copy at present
  simp only at present
  split at present
  · split at present
    · cases present
    · cases present
      rfl
  · cases present

/-- A copy of a copy has no cache. -/
theorem cache_copy_copy (b : Builder σ α) : b.copy.copy.cache = none := by
  cases present : b.copy.cache with
  | none => simp [copy.eq_1 b.copy, present]
  | some cache => exact cache_copy_eq_none (not_holdsSome_copy present)

/-- After a build the cache holds an expression if the text can be read, and otherwise if it held
one that the build has not dropped. -/
theorem Tidy.holdsSome_build (tidy : b.Tidy) (text : String) :
    (b.build text).2.HoldsSome ↔ ∀ cache, b.cache = some cache →
      (∃ root, b.read text = .ok root) ∨
        ∃ key ∈ cache.keys, key.version = b.vocabulary.version := by
  cases present : b.cache with
  | none => simp [HoldsSome, cache_build_of_none present]
  | some cache =>
    obtain ⟨kept, keeps⟩ := tidy.exists_keeps present
    have remains : kept.entries ≠ [] ↔
        ∃ key ∈ cache.keys, key.version = b.vocabulary.version := by
      rw [keeps.entries]
      exact Cache.entries_discardStale_ne_nil
    simp only [Option.some.injEq, forall_eq', ← remains]
    have turn := turn_build keeps.left text
    generalize b.build text = built at turn
    obtain ⟨result, after⟩ := built
    cases turn with
    | found fromCache =>
      refine iff_of_true ?_ (.inr ?_)
      · rintro _ ⟨⟩
        exact Cache.entries_get_ne_nil fromCache
      · exact List.ne_nil_of_mem (mem_of_get fromCache)
    | refused missing refused =>
      have unread := tidy.consistent.read_of_construct_error refused
      have same := (keeps.sound.entries_of_get_eq_none missing).2
      simp [HoldsSome, unread, same]
    | made missing made =>
      refine iff_of_true ?_ (.inl ⟨_, tidy.consistent.read_of_construct_ok made⟩)
      rintro _ ⟨⟩
      exact Cache.entries_set_ne_nil _ _ _
    | unprinted missing made =>
      refine iff_of_true ?_ (.inl ⟨_, tidy.consistent.read_of_construct_ok made⟩)
      rintro _ ⟨⟩
      exact Cache.entries_set_ne_nil _ _ _

/-- A copy is set up as the builder is, over the same words. It has an empty cache of the same size
just where the cache of the builder holds an expression, and otherwise none. So a copy of a copy
never has one. After a build the copy has one just where the text could be read or the
cache held an expression of the same version before. -/
theorem copy_keeps_cache_iff (b : Builder σ α) :
    b.copy.config = b.config ∧ b.copy.vocabulary = { b.vocabulary with version := 0 } ∧
      (b.copy.cache = b.cache.map Cache.clear ↔ b.HoldsSome) ∧
      (¬ b.HoldsSome → b.copy.cache = none) ∧ b.copy.copy.cache = none ∧
      (b.Tended → ∀ text,
        (b.build text).2.copy.cache = (b.build text).2.cache.map Cache.clear ↔
          ∀ cache, b.cache = some cache →
            (∃ root, b.read text = .ok root) ∨
              ∃ key ∈ cache.keys, key.version = b.vocabulary.version) := by
  refine ⟨rfl, rfl, cache_copy_eq_iff, cache_copy_eq_none, cache_copy_copy b, ?_⟩
  intro tended text
  rw [cache_copy_eq_iff]
  exact tended.tidy.holdsSome_build text

/-- A builder with room for four expressions, none of which has been built. -/
def freshBuilder : Builder Unit Nat := new plainConfig .empty (some 4) 0

theorem copy_keeps_cache_iff_fresh :
    freshBuilder.Tended ∧ freshBuilder.cache = some (.empty 4) ∧
      freshBuilder.copy.cache = none ∧
      (freshBuilder.build "5").2.copy.cache = some (.empty 4) := by
  have positive : (1 : Int) ≤ 4 := by decide
  have tended : freshBuilder.Tended := .make .empty (make_whole plainConfig .empty positive)
  obtain ⟨_, _, _, dropped, _, built⟩ := copy_keeps_cache_iff freshBuilder
  have idle : ¬ freshBuilder.HoldsSome := fun holds => holds _ rfl rfl
  have read : freshBuilder.read "5" = .ok (.node (.operand 5) []) := by cbv
  have size : (freshBuilder.build "5").2.cache.map Cache.maxSize = some 4 := by cbv
  refine ⟨tended, rfl, dropped idle, ?_⟩
  rw [(built tended "5").mpr fun _ _ => .inl ⟨_, read⟩]
  obtain ⟨cache, present, same⟩ := Option.map_eq_some_iff.mp size
  rw [present, Option.map_some, Cache.clear, same]

end Builder
end InfixCalc
