import InfixCalc.Proofs.Recency
import Mathlib.Data.List.Dedup
import Mathlib.Data.List.DropRight

/-!
# What a cache recalls

When each value of a run is found or set under a new key, the cache holds the values that were used
most recently. So a value is found until as many other keys have been used as the cache may hold.
-/

namespace InfixCalc.Cache

variable {α : Type}

/-- The last value for each key, in the order in which the keys were used last. -/
def latest : List (CacheKey × α) → List (CacheKey × α)
  | [] => []
  | use :: later =>
    if use.1 ∈ later.map (·.1) then latest later else use :: latest later

theorem map_fst_latest (uses : List (CacheKey × α)) :
    (latest uses).map (·.1) = (uses.map (·.1)).dedup := by
  induction uses with
  | nil => rfl
  | cons use later ih =>
    rw [latest]
    split
    · rename_i again
      rw [ih, List.map_cons, List.dedup_cons_of_mem again]
    · rename_i never
      rw [List.map_cons, ih, List.map_cons, List.dedup_cons_of_notMem never]

theorem nodup_latest (uses : List (CacheKey × α)) : ((latest uses).map (·.1)).Nodup :=
  map_fst_latest uses ▸ List.nodup_dedup _

theorem latest_append (uses : List (CacheKey × α)) (key : CacheKey) (value : α) :
    latest (uses ++ [(key, value)]) = without key (latest uses) ++ [(key, value)] := by
  induction uses with
  | nil => rfl
  | cons use later ih =>
    have usedIff : use.1 ∈ (later ++ [(key, value)]).map (·.1) ↔
        use.1 ∈ later.map (·.1) ∨ use.1 = key := by
      rw [List.map_append, List.mem_append, List.map_singleton, List.mem_singleton]
    rw [List.cons_append, latest, latest, ih]
    by_cases again : use.1 ∈ later.map (·.1)
    · rw [if_pos (usedIff.mpr (.inl again)), if_pos again]
    · rw [if_neg again]
      by_cases same : use.1 = key
      · rw [if_pos (usedIff.mpr (.inr same)), without, without,
          List.filter_cons_of_neg (by simpa using same)]
      · rw [if_neg (mt usedIff.mp (not_or.mpr ⟨again, same⟩)), without, without,
          List.filter_cons_of_pos (by simpa using same), List.cons_append]

/-- A value is the last one under its key where it was used and the key was not used since. -/
theorem mem_latest_iff {uses : List (CacheKey × α)} {use : CacheKey × α} :
    use ∈ latest uses ↔
      ∃ before since, uses = before ++ use :: since ∧ use.1 ∉ since.map (·.1) := by
  constructor
  · intro member
    induction uses with
    | nil => cases member
    | cons first later ih =>
      rw [latest] at member
      split at member
      · obtain ⟨before, since, rfl, never⟩ := ih member
        exact ⟨first :: before, since, rfl, never⟩
      · rename_i never
        rcases List.mem_cons.mp member with rfl | inside
        · exact ⟨[], later, rfl, never⟩
        · obtain ⟨before, since, rfl, notSince⟩ := ih inside
          exact ⟨first :: before, since, rfl, notSince⟩
  · rintro ⟨before, since, rfl, never⟩
    induction before with
    | nil =>
      rw [List.nil_append, latest, if_neg never]
      exact List.mem_cons_self
    | cons first before ih =>
      rw [List.cons_append, latest]
      split
      · exact ih
      · exact List.mem_cons_of_mem _ ih

/-- After a use that was the last one under its key, the latest values are those used since. -/
theorem latest_split (before : List (CacheKey × α)) {since : List (CacheKey × α)}
    {use : CacheKey × α} (never : use.1 ∉ since.map (·.1)) :
    ∃ older, latest (before ++ use :: since) = older ++ use :: latest since := by
  induction before with
  | nil => exact ⟨[], by rw [List.nil_append, latest, if_neg never, List.nil_append]⟩
  | cons first before ih =>
    obtain ⟨older, same⟩ := ih
    rw [List.cons_append, latest, same]
    split
    · exact ⟨older, rfl⟩
    · exact ⟨first :: older, rfl⟩

/- The most recent of distinct uses. -/

theorem rtake_append_of_le_length {β : Type} {n : Nat} {front back : List β}
    (enough : n ≤ back.length) : (front ++ back).rtake n = back.rtake n := by
  have skipped : (front ++ back).length - n = front.length + (back.length - n) := by
    rw [List.length_append]
    omega
  rw [List.rtake, List.rtake, skipped, List.drop_length_add_append]

theorem mem_rtake_iff {β : Type} {n : Nat} {front back : List β} {x : β}
    (distinct : (front ++ x :: back).Nodup) :
    x ∈ (front ++ x :: back).rtake n ↔ back.length < n := by
  constructor
  · intro member
    by_contra many
    have behind : (front ++ x :: back).rtake n = back.rtake n := by
      rw [List.append_cons]
      exact rtake_append_of_le_length (Nat.le_of_not_lt many)
    rw [behind] at member
    have twice := List.mem_of_mem_drop member
    exact (List.nodup_cons.mp (List.nodup_append.mp distinct).2.1).1 twice
  · intro few
    have most : (front ++ x :: back).length - n ≤ front.length := by
      rw [List.length_append, List.length_cons]
      omega
    rw [List.rtake, List.drop_append_of_le_length most]
    exact List.mem_append_right _ List.mem_cons_self

theorem le_length_without (key : CacheKey) {entries : List (CacheKey × α)}
    (distinct : (entries.map (·.1)).Nodup) : entries.length ≤ (without key entries).length + 1 := by
  by_cases present : key ∈ entries.map (·.1)
  · obtain ⟨front, old, back, rfl, before, behind⟩ := exists_append distinct present
    rw [without_append before behind, List.length_append, List.length_append, List.length_cons]
    omega
  · rw [without_of_not_mem present]
    omega

/-- What has left already makes no difference when one more value is used. -/
theorem rtake_without_rtake {key : CacheKey} {value : α} {n : Nat} (positive : 1 ≤ n)
    {entries : List (CacheKey × α)} (distinct : (entries.map (·.1)).Nodup) :
    (without key (entries.rtake n) ++ [(key, value)]).rtake n =
      (without key entries ++ [(key, value)]).rtake n := by
  obtain ⟨m, rfl⟩ : ∃ m, n = m + 1 := ⟨n - 1, by omega⟩
  rw [List.rtake_concat_succ, List.rtake_concat_succ]
  by_cases all : entries.length ≤ m + 1
  · have whole : entries.rtake (m + 1) = entries := by
      rw [List.rtake, Nat.sub_eq_zero_of_le all, List.drop_zero]
    rw [whole]
  · have length : (entries.rtake (m + 1)).length = m + 1 := by
      rw [List.rtake, List.length_drop]
      omega
    have recent : ((entries.rtake (m + 1)).map (·.1)).Nodup :=
      distinct.sublist ((List.drop_sublist _ _).map _)
    have enough := le_length_without key recent
    have split : without key entries =
        without key (entries.take (entries.length - (m + 1))) ++
          without key (entries.rtake (m + 1)) := by
      rw [without, without, without, ← List.filter_append, List.rtake, List.take_append_drop]
    rw [split, rtake_append_of_le_length (by omega)]

theorem counts_get_some {cache : Cache α} {key : CacheKey} {value : α}
    (found : (cache.get key).1 = some value) :
    (cache.get key).2.hits = cache.hits + 1 ∧ (cache.get key).2.misses = cache.misses := by
  unfold Cache.get at found ⊢
  split at found
  · exact ⟨rfl, rfl⟩
  · cases found

theorem counts_get_none {cache : Cache α} {key : CacheKey} (missing : (cache.get key).1 = none) :
    (cache.get key).2.hits = cache.hits ∧ (cache.get key).2.misses = cache.misses + 1 := by
  unfold Cache.get at missing ⊢
  split at missing
  · cases missing
  · exact ⟨rfl, rfl⟩

/-- The cache holds the values that were used most recently, the least recent one first. -/
structure Recalls (cache : Cache α) (uses : List (CacheKey × α)) : Prop where
  sound : cache.Sound
  entries : cache.entries = (latest uses).rtake cache.maxSize

section Recalls

variable {cache : Cache α} {uses : List (CacheKey × α)} (recalls : cache.Recalls uses)
include recalls

theorem Recalls.use {next : Cache α} {key : CacheKey} {value : α} (sound : next.Sound)
    (size : next.maxSize = cache.maxSize) (renewed : next.entries = cache.renewed key value) :
    next.Recalls (uses ++ [(key, value)]) := by
  refine ⟨sound, ?_⟩
  calc next.entries
      = (without key cache.entries ++ [(key, value)]).rtake cache.maxSize := renewed
    _ = (without key (latest uses) ++ [(key, value)]).rtake cache.maxSize := by
        rw [recalls.entries]
        exact rtake_without_rtake recalls.sound.positive (nodup_latest uses)
    _ = (latest (uses ++ [(key, value)])).rtake next.maxSize := by rw [latest_append, size]

theorem Recalls.keys_eq : cache.keys = (uses.map (·.1)).dedup.rtake cache.maxSize := by
  rw [keys, recalls.entries, List.rtake, List.map_drop, ← map_fst_latest, List.rtake,
    List.length_map]

/-- The cache holds a value as long as fewer other keys than it may hold were used since. -/
theorem Recalls.mem_iff {use : CacheKey × α} :
    use ∈ cache.entries ↔ ∃ before since, uses = before ++ use :: since ∧
      use.1 ∉ since.map (·.1) ∧ (since.map (·.1)).dedup.length < cache.maxSize := by
  have near {before since : List (CacheKey × α)} (split : uses = before ++ use :: since)
      (never : use.1 ∉ since.map (·.1)) :
      use ∈ cache.entries ↔ (since.map (·.1)).dedup.length < cache.maxSize := by
    obtain ⟨older, same⟩ := latest_split before never
    have distinct := List.Nodup.of_map _ (nodup_latest uses)
    rw [split, same] at distinct
    rw [recalls.entries, split, same, mem_rtake_iff distinct, ← map_fst_latest, List.length_map]
  constructor
  · intro member
    have last : use ∈ latest uses := List.mem_of_mem_drop (recalls.entries ▸ member)
    obtain ⟨before, since, split, never⟩ := mem_latest_iff.mp last
    exact ⟨before, since, split, never, (near split never).mp member⟩
  · rintro ⟨before, since, split, never, few⟩
    exact (near split never).mpr few

/-- A value that is found is used again, and nothing else changes but one of the counts. -/
theorem Recalls.get (key : CacheKey) :
    (∃ value, (cache.get key).1 = some value ∧ (key, value) ∈ cache.entries ∧
        (cache.get key).2.Recalls (uses ++ [(key, value)]) ∧
        (cache.get key).2.hits = cache.hits + 1 ∧ (cache.get key).2.misses = cache.misses) ∨
      ((cache.get key).1 = none ∧ key ∉ cache.keys ∧ (cache.get key).2.entries = cache.entries ∧
        (cache.get key).2.Recalls uses ∧
        (cache.get key).2.hits = cache.hits ∧ (cache.get key).2.misses = cache.misses + 1) := by
  have sound := recalls.sound.get key
  have size : (cache.get key).2.maxSize = cache.maxSize := maxSize_serve cache (.get key)
  rcases recalls.sound.get_cases key with ⟨absent, nothing, same⟩ | ⟨value, member, given, renewed⟩
  · refine .inr ⟨nothing, absent, same, ⟨sound, ?_⟩, counts_get_none nothing⟩
    rw [same, size]
    exact recalls.entries
  · exact .inl ⟨value, given, member, recalls.use sound size renewed, counts_get_some given⟩

theorem Recalls.set {key : CacheKey} (absent : key ∉ cache.keys) (value : α) :
    (cache.set key value).Recalls (uses ++ [(key, value)]) :=
  recalls.use (recalls.sound.set key value) rfl (recalls.sound.set_of_not_mem absent value)

end Recalls

theorem recalls_empty {size : Nat} (positive : 1 ≤ size) : (empty size : Cache α).Recalls [] :=
  ⟨⟨.nil, Nat.zero_le _, positive⟩, (List.rtake_nil _).symm⟩

end InfixCalc.Cache
