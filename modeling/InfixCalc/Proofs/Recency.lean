import InfixCalc.Cache
import InfixCalc.Proofs.Vocabulary.Change
import Mathlib.Data.List.Sort

/-!
# Recency

A ledger writes down when each key was last set or found, and keeps the records that were used most
recently. A cache shows such a ledger by the order of its entries alone, as long as no value is set
under a key that is there already and is neither the last one used nor about to leave.
-/

namespace InfixCalc

variable {α : Type}

/-- A value under a key, with the time at which it was last set or found. -/
structure Record (α : Type) where
  key : CacheKey
  value : α
  lastUse : Nat

def Record.entry (r : Record α) : CacheKey × α := (r.key, r.value)

/-- Records in no order that matters, and the time of the next use. -/
structure Ledger (α : Type) where
  records : List (Record α)
  now : Nat
  capacity : Nat

namespace Ledger

def empty (capacity : Nat) : Ledger α := ⟨[], 0, capacity⟩

/-- The records after which fewer than `count` others were used. -/
def mostRecent (count : Nat) (records : List (Record α)) : List (Record α) :=
  records.filter fun r => (records.filter fun s => r.lastUse < s.lastUse).length < count

def others (ledger : Ledger α) (key : CacheKey) : List (Record α) :=
  ledger.records.filter fun r => r.key != key

/-- The ledger after a use of a key, which has a value from now on. -/
def use (ledger : Ledger α) (key : CacheKey) (value : α) : Ledger α :=
  { ledger with
    records := mostRecent ledger.capacity (⟨key, value, ledger.now⟩ :: ledger.others key)
    now := ledger.now + 1 }

def get (ledger : Ledger α) (key : CacheKey) : Option α × Ledger α :=
  match ledger.records.find? fun r => r.key == key with
  | some r => (some r.value, ledger.use key r.value)
  | none => (none, ledger)

def discardStale (ledger : Ledger α) (version : Nat) : Ledger α :=
  { ledger with records := ledger.records.filter fun r => r.key.version == version }

def clear (ledger : Ledger α) : Ledger α := { ledger with records := [] }

end Ledger

namespace Cache

/-- What is asked of a cache. -/
inductive Request (α : Type) where
  | get (key : CacheKey)
  | set (key : CacheKey) (value : α)
  | discardStale (version : Nat)
  | clear

def serve (cache : Cache α) : Request α → Option α × Cache α
  | .get key => cache.get key
  | .set key value => (none, cache.set key value)
  | .discardStale version => (none, cache.discardStale version)
  | .clear => (none, cache.clear)

def serveAll (cache : Cache α) (requests : List (Request α)) : Cache α :=
  requests.foldl (fun cache request => (cache.serve request).2) cache

end Cache

def Ledger.serve (ledger : Ledger α) : Cache.Request α → Option α × Ledger α
  | .get key => ledger.get key
  | .set key value => (none, ledger.use key value)
  | .discardStale version => (none, ledger.discardStale version)
  | .clear => (none, ledger.clear)

namespace Cache

/-- The entries are the records, the least recently used first. -/
def Shows (cache : Cache α) (ledger : Ledger α) : Prop :=
  ∃ sorted : List (Record α), sorted.Perm ledger.records ∧
    sorted.Pairwise (fun r s => r.lastUse < s.lastUse) ∧ cache.entries = sorted.map Record.entry

/-- The cache gives what the ledger gives and shows it, from the first request to the last. -/
def Follows (cache : Cache α) (ledger : Ledger α) : List (Request α) → Prop
  | [] => cache.Shows ledger
  | request :: later => cache.Shows ledger ∧ (cache.serve request).1 = (ledger.serve request).1 ∧
      Follows (cache.serve request).2 (ledger.serve request).2 later

/-- A value is set under a key that is new, or that leaves to make room, or that was used last. -/
def Timely (cache : Cache α) : Request α → Prop
  | .set key _ => key ∉ cache.keys ∨
      if cache.maxSize ≤ cache.size then cache.keys.head? = some key
      else cache.keys.getLast? = some key
  | _ => True

def AllTimely (cache : Cache α) : List (Request α) → Prop
  | [] => True
  | request :: later => cache.Timely request ∧ AllTimely (cache.serve request).2 later

/- Entries with distinct keys. -/

theorem put_of_not_mem {key : CacheKey} {entries : List (CacheKey × α)}
    (absent : key ∉ entries.map (·.1)) (value : α) :
    put key value entries = entries ++ [(key, value)] := by
  induction entries with
  | nil => rfl
  | cons entry rest ih =>
    rw [List.map_cons, List.mem_cons, not_or] at absent
    rw [put, if_neg (Ne.symm absent.1), ih absent.2, List.cons_append]

theorem without_of_not_mem {key : CacheKey} {entries : List (CacheKey × α)}
    (absent : key ∉ entries.map (·.1)) : without key entries = entries := by
  refine List.filter_eq_self.mpr fun entry member => bne_iff_ne.mpr ?_
  rintro rfl
  exact absent (List.mem_map_of_mem member)

theorem put_append {key : CacheKey} {front : List (CacheKey × α)}
    (absent : key ∉ front.map (·.1)) (value old : α) (back : List (CacheKey × α)) :
    put key value (front ++ (key, old) :: back) = front ++ (key, value) :: back := by
  induction front with
  | nil => rw [List.nil_append, put, if_pos rfl, List.nil_append]
  | cons entry front ih =>
    rw [List.map_cons, List.mem_cons, not_or] at absent
    rw [List.cons_append, put, if_neg (Ne.symm absent.1), ih absent.2, List.cons_append]

theorem without_append {key : CacheKey} {front back : List (CacheKey × α)}
    (before : key ∉ front.map (·.1)) (behind : key ∉ back.map (·.1)) (old : α) :
    without key (front ++ (key, old) :: back) = front ++ back := by
  have here : without key [(key, old)] = [] := by simp [without]
  calc without key (front ++ (key, old) :: back)
      = without key front ++ (without key [(key, old)] ++ without key back) := by
        simp only [without, ← List.filter_append, List.singleton_append]
    _ = front ++ back := by
        rw [here, without_of_not_mem before, without_of_not_mem behind, List.nil_append]

theorem exists_append {key : CacheKey} {entries : List (CacheKey × α)}
    (distinct : (entries.map (·.1)).Nodup) (present : key ∈ entries.map (·.1)) :
    ∃ front old back, entries = front ++ (key, old) :: back ∧ key ∉ front.map (·.1) ∧
      key ∉ back.map (·.1) := by
  obtain ⟨⟨_, old⟩, member, rfl⟩ := List.mem_map.mp present
  obtain ⟨front, back, rfl⟩ := List.append_of_mem member
  rw [List.map_append, List.map_cons, List.nodup_middle, List.nodup_cons, List.mem_append,
    not_or] at distinct
  exact ⟨front, old, back, rfl, distinct.1.1, distinct.1.2⟩

/-- The entries when a value has been used, of which no more than the cache may hold remain. -/
def renewed (cache : Cache α) (key : CacheKey) (value : α) : List (CacheKey × α) :=
  let used := without key cache.entries ++ [(key, value)]
  used.drop (used.length - cache.maxSize)

/-- The keys of a cache are distinct and no more than it may hold. -/
structure Sound (cache : Cache α) : Prop where
  distinct : cache.keys.Nodup
  size : cache.size ≤ cache.maxSize
  positive : 1 ≤ cache.maxSize

theorem entries_set_of_full {cache : Cache α} (full : cache.maxSize ≤ cache.size) (key : CacheKey)
    (value : α) : (cache.set key value).entries = put key value (cache.entries.drop 1) :=
  congrArg (put key value) (if_pos full)

theorem entries_set_of_room {cache : Cache α} (room : ¬ cache.maxSize ≤ cache.size) (key : CacheKey)
    (value : α) : (cache.set key value).entries = put key value cache.entries :=
  congrArg (put key value) (if_neg room)

theorem renewed_eq_drop {cache : Cache α} {key : CacheKey} {value : α} {kept : List (CacheKey × α)}
    (rest : without key cache.entries = kept) :
    cache.renewed key value =
      (kept ++ [(key, value)]).drop (kept.length + 1 - cache.maxSize) := by
  subst rest
  simp only [renewed, List.length_append, List.length_singleton]

theorem renewed_of_append {cache : Cache α} {key : CacheKey} {front back : List (CacheKey × α)}
    {old : α}
    (split : cache.entries = front ++ (key, old) :: back) (size : cache.size ≤ cache.maxSize)
    (before : key ∉ front.map (·.1)) (behind : key ∉ back.map (·.1)) (value : α) :
    cache.renewed key value = front ++ back ++ [(key, value)] := by
  unfold Cache.size at size
  rw [split, List.length_append, List.length_cons] at size
  have none : (front ++ back).length + 1 - cache.maxSize = 0 := by
    rw [List.length_append]
    omega
  rw [renewed_eq_drop (split ▸ without_append before behind old), none, List.drop_zero]

section Sound

variable {cache : Cache α} (sound : cache.Sound)
include sound

theorem Sound.set_of_not_mem {key : CacheKey} (absent : key ∉ cache.keys) (value : α) :
    (cache.set key value).entries = cache.renewed key value := by
  obtain ⟨_, size, positive⟩ := sound
  rw [renewed_eq_drop (without_of_not_mem absent)]
  unfold Cache.size at size
  by_cases full : cache.maxSize ≤ cache.entries.length
  · have one : cache.entries.length + 1 - cache.maxSize = 1 := by omega
    have left : key ∉ (cache.entries.drop 1).map (·.1) := fun member =>
      absent (List.map_subset _ (List.drop_subset 1 _) member)
    rw [entries_set_of_full full, put_of_not_mem left, one,
      List.drop_append_of_le_length (by omega)]
  · have none : cache.entries.length + 1 - cache.maxSize = 0 := by omega
    rw [entries_set_of_room full, put_of_not_mem absent, none, List.drop_zero]

/-- A value that is set under a key of the cache takes the place of the old one. That is the place
of the last use only where the key is the last one or leaves to make room. -/
theorem Sound.set_of_mem_iff {key : CacheKey} (present : key ∈ cache.keys) (value : α) :
    (cache.set key value).entries = cache.renewed key value ↔
      if cache.maxSize ≤ cache.size then cache.keys.head? = some key
      else cache.keys.getLast? = some key := by
  obtain ⟨distinct, size, _⟩ := sound
  obtain ⟨front, old, back, split, before, behind⟩ := exists_append distinct present
  rw [renewed_of_append split size before behind]
  by_cases full : cache.maxSize ≤ cache.size
  · rw [if_pos full, entries_set_of_full full, keys, split]
    cases front with
    | nil => exact iff_of_true (put_of_not_mem behind value) rfl
    | cons first front =>
      rw [List.map_cons, List.mem_cons, not_or] at before
      refine iff_of_false ?_ ?_
      · rw [List.cons_append, List.drop_one, List.tail_cons, put_append before.2]
        intro same
        have lengths := congrArg List.length same
        simp only [List.length_append, List.length_cons, List.length_nil] at lengths
        omega
      · simpa using Ne.symm before.1
  · rw [if_neg full, entries_set_of_room full, keys, split, put_append before, List.append_assoc,
      List.append_cancel_left_eq]
    cases back with
    | nil => simp
    | cons next back =>
      refine iff_of_false ?_ ?_
      · intro same
        cases (List.cons.inj same).1
        exact behind List.mem_cons_self
      · intro same
        rw [List.map_append, List.map_cons, List.getLast?_append_of_ne_nil _ (List.cons_ne_nil _ _),
          List.map_cons, List.getLast?_cons_cons] at same
        exact behind (List.mem_of_getLast? same)

theorem Sound.timely_iff (key : CacheKey) (value : α) :
    cache.Timely (.set key value) ↔ (cache.set key value).entries = cache.renewed key value := by
  by_cases present : key ∈ cache.keys
  · rw [sound.set_of_mem_iff present value, Timely, or_iff_right (not_not_intro present)]
  · exact iff_of_true (.inl present) (sound.set_of_not_mem present value)

end Sound

/- Whatever is asked, the keys stay distinct and no more than the cache may hold. -/

theorem sound_of_sublist {cache next : Cache α} (sound : cache.Sound)
    (size : next.maxSize = cache.maxSize) (part : next.entries.Sublist cache.entries) :
    next.Sound where
  distinct := sound.distinct.sublist (part.map _)
  size := size ▸ part.length_le.trans sound.size
  positive := size ▸ sound.positive

theorem Sound.set {cache : Cache α} (sound : cache.Sound) (key : CacheKey) (value : α) :
    (cache.set key value).Sound := by
  obtain ⟨distinct, size, positive⟩ := sound
  have put_sound (room : List (CacheKey × α)) (part : room.Sublist cache.entries)
      (space : room.length < cache.maxSize) :
      ((put key value room).map (·.1)).Nodup ∧ (put key value room).length ≤ cache.maxSize := by
    have distinctRoom : (room.map (·.1)).Nodup := distinct.sublist (part.map _)
    by_cases present : key ∈ room.map (·.1)
    · obtain ⟨front, old, back, rfl, before, _⟩ := exists_append distinctRoom present
      rw [put_append before]
      exact ⟨by simpa using distinctRoom, by simp at space ⊢; omega⟩
    · rw [put_of_not_mem present, List.map_append, List.length_append]
      refine ⟨List.nodup_append_comm.mpr (List.nodup_cons.mpr ⟨present, distinctRoom⟩), ?_⟩
      rw [List.length_singleton]
      omega
  unfold Cache.size at size
  by_cases full : cache.maxSize ≤ cache.size
  · obtain ⟨distinctPut, sizePut⟩ := put_sound _ (List.drop_sublist 1 cache.entries)
      (by rw [List.length_drop]; omega)
    rw [← entries_set_of_full full] at distinctPut sizePut
    exact ⟨distinctPut, sizePut, positive⟩
  · obtain ⟨distinctPut, sizePut⟩ := put_sound _ (List.Sublist.refl _) (Nat.lt_of_not_le full)
    rw [← entries_set_of_room full] at distinctPut sizePut
    exact ⟨distinctPut, sizePut, positive⟩

/-- A value that is found is the last one used from then on. -/
theorem Sound.get_cases {cache : Cache α} (sound : cache.Sound) (key : CacheKey) :
    (key ∉ cache.keys ∧ (cache.get key).1 = none ∧ (cache.get key).2.entries = cache.entries) ∨
      ∃ value, (key, value) ∈ cache.entries ∧ (cache.get key).1 = some value ∧
        (cache.get key).2.entries = cache.renewed key value := by
  unfold Cache.get
  cases found : cache.peek? key with
  | none =>
    refine .inl ⟨?_, rfl, rfl⟩
    intro present
    obtain ⟨entry, member, same⟩ := List.mem_map.mp present
    have differs := List.lookup_eq_none_iff.mp found entry member
    simp [same] at differs
  | some value =>
    obtain ⟨front, back, split, _⟩ := List.lookup_eq_some_iff.mp found
    have member : (key, value) ∈ cache.entries := by simp [split]
    obtain ⟨front, old, back, split, before, behind⟩ :=
      exists_append sound.distinct (List.mem_map_of_mem member)
    refine .inr ⟨value, member, rfl, ?_⟩
    rw [renewed_of_append split sound.size before behind, split,
      without_append before behind]

theorem Sound.get {cache : Cache α} (sound : cache.Sound) (key : CacheKey) :
    (cache.get key).2.Sound := by
  have size : (cache.get key).2.maxSize = cache.maxSize := by
    unfold Cache.get
    split <;> rfl
  rcases sound.get_cases key with ⟨_, _, same⟩ | ⟨value, member, _, renewed⟩
  · exact sound_of_sublist sound size (same ▸ List.Sublist.refl _)
  · obtain ⟨front, old, back, split, before, behind⟩ :=
      exists_append sound.distinct (List.mem_map_of_mem member)
    obtain ⟨distinct, small, positive⟩ := sound
    rw [renewed_of_append split small before behind] at renewed
    have sameKeys : ((cache.get key).2.entries.map (·.1)).Perm (cache.entries.map (·.1)) := by
      rw [renewed, split, List.append_assoc, List.map_append, List.map_append, List.map_append]
      exact List.perm_append_comm.append_left _
    refine ⟨sameKeys.nodup_iff.mpr distinct, ?_, size ▸ positive⟩
    have sameLength := sameKeys.length_eq
    rw [List.length_map, List.length_map] at sameLength
    rw [Cache.size, sameLength, size]
    exact small

theorem Sound.serve {cache : Cache α} (sound : cache.Sound) (request : Request α) :
    (cache.serve request).2.Sound := by
  cases request with
  | get key => exact sound.get key
  | set key value => exact sound.set key value
  | discardStale version => exact sound_of_sublist sound rfl List.filter_sublist
  | clear => exact sound_of_sublist sound rfl (List.nil_sublist _)

theorem maxSize_serve (cache : Cache α) (request : Request α) :
    (cache.serve request).2.maxSize = cache.maxSize := by
  cases request with
  | get key =>
    simp only [Cache.serve, Cache.get]
    split <;> rfl
  | set key value => rfl
  | discardStale version => rfl
  | clear => rfl

end Cache

/- A ledger by the order of last use. -/

namespace Ledger

theorem mostRecent_perm (count : Nat) {xs ys : List (Record α)} (same : xs.Perm ys) :
    (mostRecent count xs).Perm (mostRecent count ys) := by
  have later (r : Record α) : (xs.filter fun s => r.lastUse < s.lastUse).length =
      (ys.filter fun s => r.lastUse < s.lastUse).length := (same.filter _).length_eq
  simp only [mostRecent, later]
  exact same.filter _

theorem mostRecent_of_pairwise (count : Nat) {sorted : List (Record α)}
    (ordered : sorted.Pairwise fun r s => r.lastUse < s.lastUse) :
    mostRecent count sorted = sorted.drop (sorted.length - count) := by
  induction ordered with
  | nil => rw [mostRecent, List.filter_nil, List.drop_nil]
  | @cons r rest after ordered ih =>
    have first : (r :: rest).filter (fun s => r.lastUse < s.lastUse) = rest := by
      rw [List.filter_cons_of_neg (by simp)]
      exact List.filter_eq_self.mpr fun s member => decide_eq_true (after s member)
    have further : rest.filter (fun s =>
        ((r :: rest).filter fun t => s.lastUse < t.lastUse).length < count) =
          mostRecent count rest := by
      refine List.filter_congr fun s member => ?_
      have before := after s member
      rw [List.filter_cons_of_neg (by simp only [decide_eq_true_eq]; omega)]
    rw [mostRecent, List.filter_cons, further, ih, first, List.length_cons]
    by_cases room : rest.length < count
    · have none : rest.length - count = 0 := by omega
      have noneToo : rest.length + 1 - count = 0 := by omega
      rw [if_pos (decide_eq_true room), none, noneToo, List.drop_zero, List.drop_zero]
    · have one : rest.length + 1 - count = rest.length - count + 1 := by omega
      rw [if_neg (by simpa using room), one, List.drop_succ_cons]

end Ledger

namespace Cache

/-- A sound cache that shows a ledger of its size, whose uses all lie in the past. -/
structure Reflects (cache : Cache α) (ledger : Ledger α) : Prop where
  sound : cache.Sound
  shows : cache.Shows ledger
  capacity : ledger.capacity = cache.maxSize
  past : ∀ r ∈ ledger.records, r.lastUse < ledger.now

namespace Reflects

variable {cache : Cache α} {ledger : Ledger α} (reflects : cache.Reflects ledger)
include reflects

theorem mem_entries_iff {entry : CacheKey × α} :
    entry ∈ cache.entries ↔ ∃ r ∈ ledger.records, r.entry = entry := by
  obtain ⟨sorted, same, _, entries⟩ := reflects.shows
  rw [entries, List.mem_map]
  simp only [same.mem_iff]

/-- There is only one cache content that shows the ledger after a use. -/
theorem shows_use_iff {next : Cache α} {key : CacheKey} {value : α} :
    next.Shows (ledger.use key value) ↔ next.entries = cache.renewed key value := by
  obtain ⟨sorted, same, ordered, entries⟩ := reflects.shows
  let last : Record α := ⟨key, value, ledger.now⟩
  let rest := sorted.filter fun r => r.key != key
  have restRecords : rest.Perm (ledger.others key) := same.filter _
  have orderedUsed : (rest ++ [last]).Pairwise fun r s => r.lastUse < s.lastUse := by
    refine List.pairwise_append.mpr ⟨ordered.filter _, List.pairwise_singleton _ _, ?_⟩
    intro r member s latest
    cases List.mem_singleton.mp latest
    exact reflects.past r (same.mem_iff.mp (List.mem_filter.mp member).1)
  have kept : without key cache.entries = rest.map Record.entry := by
    rw [entries, without, List.filter_map]
    rfl
  have usedSame : ((rest ++ [last]).drop (rest.length + 1 - cache.maxSize)).Perm
      (ledger.use key value).records := by
    have recent := Ledger.mostRecent_of_pairwise ledger.capacity orderedUsed
    rw [List.length_append, List.length_singleton, reflects.capacity] at recent
    rw [← recent, ← reflects.capacity]
    exact Ledger.mostRecent_perm _ (List.perm_append_comm.trans (restRecords.cons last))
  have renewed : cache.renewed key value =
      ((rest ++ [last]).drop (rest.length + 1 - cache.maxSize)).map Record.entry := by
    rw [renewed_eq_drop kept, List.length_map, List.map_drop, List.map_append]
    rfl
  rw [renewed]
  constructor
  · rintro ⟨others, sameOthers, orderedOthers, shown⟩
    have equal := List.Perm.eq_of_pairwise (fun r s _ _ less more => absurd less (by omega))
      orderedOthers (orderedUsed.drop) (sameOthers.trans usedSame.symm)
    rw [shown, equal]
  · exact fun shown => ⟨_, usedSame, orderedUsed.drop, shown⟩

theorem past_use (key : CacheKey) (value : α) :
    ∀ r ∈ (ledger.use key value).records, r.lastUse < (ledger.use key value).now := by
  intro r member
  rcases List.mem_cons.mp (List.mem_filter.mp member).1 with rfl | other
  · exact Nat.lt_succ_self _
  · exact Nat.lt_succ_of_lt (reflects.past r (List.mem_filter.mp other).1)

theorem find?_of_mem {key : CacheKey} {value : α} (member : (key, value) ∈ cache.entries) :
    ∃ r, ledger.records.find? (fun r => r.key == key) = some r ∧ r.value = value := by
  obtain ⟨r, recorded, same⟩ := reflects.mem_entries_iff.mp member
  cases found : ledger.records.find? fun r => r.key == key with
  | none =>
    have differs := List.find?_eq_none.mp found r recorded
    cases same
    simp at differs
  | some s =>
    have here : s.key = key := by simpa using List.find?_some found
    have there := reflects.mem_entries_iff.mpr ⟨s, List.mem_of_find?_eq_some found, rfl⟩
    have equal := List.inj_on_of_nodup_map reflects.sound.distinct there member here
    exact ⟨s, rfl, congrArg Prod.snd equal⟩

theorem find?_of_not_mem {key : CacheKey} (absent : key ∉ cache.keys) :
    ledger.records.find? (fun r => r.key == key) = none := by
  refine List.find?_eq_none.mpr fun r recorded same => absent ?_
  have member := reflects.mem_entries_iff.mpr ⟨r, recorded, rfl⟩
  rw [← beq_iff_eq.mp same]
  exact List.mem_map_of_mem member

theorem filter {next : Cache α} (kept : CacheKey → Bool) (sound : next.Sound)
    (size : next.maxSize = cache.maxSize)
    (entries : next.entries = cache.entries.filter fun entry => kept entry.1) :
    next.Reflects { ledger with records := ledger.records.filter fun r => kept r.key } where
  sound := sound
  shows := by
    obtain ⟨sorted, same, ordered, shown⟩ := reflects.shows
    refine ⟨sorted.filter fun r => kept r.key, same.filter _, ordered.filter _, ?_⟩
    rw [entries, shown, List.filter_map]
    rfl
  capacity := reflects.capacity.trans size.symm
  past := fun r member => reflects.past r (List.mem_filter.mp member).1

theorem get (key : CacheKey) :
    (cache.get key).1 = (ledger.get key).1 ∧ (cache.get key).2.Reflects (ledger.get key).2 := by
  have size := maxSize_serve cache (.get key)
  have sound := reflects.sound.get key
  unfold Ledger.get
  rcases reflects.sound.get_cases key with ⟨absent, nothing, same⟩ | ⟨value, member, given, renewed⟩
  · rw [reflects.find?_of_not_mem absent]
    obtain ⟨sorted, perm, ordered, shown⟩ := reflects.shows
    exact ⟨nothing, sound, ⟨sorted, perm, ordered, same.trans shown⟩,
      reflects.capacity.trans size.symm, reflects.past⟩
  · obtain ⟨r, found, rfl⟩ := reflects.find?_of_mem member
    rw [found]
    exact ⟨given, sound, reflects.shows_use_iff.mpr renewed, reflects.capacity.trans size.symm,
      reflects.past_use key r.value⟩

/-- A request is answered from the ledger, and the cache still shows the ledger just where the
request is timely. -/
theorem serve (request : Request α) :
    (cache.serve request).1 = (ledger.serve request).1 ∧
      (cache.Timely request → (cache.serve request).2.Reflects (ledger.serve request).2) ∧
      ((cache.serve request).2.Shows (ledger.serve request).2 → cache.Timely request) := by
  cases request with
  | get key =>
    obtain ⟨same, next⟩ := reflects.get key
    exact ⟨same, fun _ => next, fun _ => trivial⟩
  | set key value =>
    have timely := reflects.sound.timely_iff key value
    refine ⟨rfl, fun inTime => ?_, fun shown => timely.mpr (reflects.shows_use_iff.mp shown)⟩
    exact ⟨reflects.sound.set key value, reflects.shows_use_iff.mpr (timely.mp inTime),
      reflects.capacity, reflects.past_use key value⟩
  | discardStale version =>
    exact ⟨rfl, fun _ => reflects.filter (fun key => key.version == version)
      (reflects.sound.serve (.discardStale version)) rfl rfl, fun _ => trivial⟩
  | clear =>
    refine ⟨rfl, fun _ => ?_, fun _ => trivial⟩
    exact ⟨reflects.sound.serve .clear, ⟨[], .nil, .nil, rfl⟩, reflects.capacity,
      fun r never => nomatch never⟩

theorem follows_iff (requests : List (Request α)) :
    cache.Follows ledger requests ↔ cache.AllTimely requests := by
  induction requests generalizing cache ledger with
  | nil => exact iff_of_true reflects.shows trivial
  | cons request later ih =>
    obtain ⟨same, onward, back⟩ := reflects.serve request
    constructor
    · rintro ⟨_, _, follows⟩
      have shown : (cache.serve request).2.Shows (ledger.serve request).2 := by
        cases later with
        | nil => exact follows
        | cons next later => exact follows.1
      have timely := back shown
      exact ⟨timely, (ih (onward timely)).mp follows⟩
    · rintro ⟨timely, allTimely⟩
      exact ⟨reflects.shows, same, (ih (onward timely)).mpr allTimely⟩

end Reflects

theorem Sound.serveAll {cache : Cache α} (sound : cache.Sound) (requests : List (Request α)) :
    (cache.serveAll requests).Sound ∧ (cache.serveAll requests).maxSize = cache.maxSize := by
  induction requests generalizing cache with
  | nil => exact ⟨sound, rfl⟩
  | cons request later ih =>
    obtain ⟨kept, size⟩ := ih (sound.serve request)
    exact ⟨kept, size.trans (maxSize_serve cache request)⟩

theorem reflects_of_ofSetting {given : Setting} {cache : Cache α}
    (made : ofSetting given = .ok cache) : cache.Reflects (.empty cache.maxSize) := by
  unfold ofSetting at made
  split at made
  · rename_i n large
    cases made
    have positive := Setting.le_of_atLeast? large
    refine ⟨⟨.nil, Nat.zero_le _, ?_⟩, ⟨[], .nil, .nil, rfl⟩, rfl, fun r never => nomatch never⟩
    change 1 ≤ n.toNat
    omega
  · cases made

/-- A cache never holds more than it may. It holds what was used most recently, in the order of
use, and gives what was set last just where each value is set under a key that is new, or that
leaves to make room, or that was used last. -/
theorem follows_iff_allTimely {given : Setting} {cache : Cache α}
    (made : ofSetting given = .ok cache) (requests : List (Request α)) :
    (cache.serveAll requests).size ≤ cache.maxSize ∧
      (cache.Follows (.empty cache.maxSize) requests ↔ cache.AllTimely requests) := by
  have reflects := reflects_of_ofSetting made
  obtain ⟨sound, size⟩ := reflects.sound.serveAll requests
  exact ⟨size ▸ sound.size, reflects.follows_iff requests⟩

instance decidableTimely (cache : Cache α) :
    (request : Request α) → Decidable (cache.Timely request)
  | .set _ _ => inferInstanceAs (Decidable (_ ∨ _))
  | .get _ | .discardStale _ | .clear => inferInstanceAs (Decidable True)

instance decidableAllTimely (cache : Cache α) :
    (requests : List (Request α)) → Decidable (cache.AllTimely requests)
  | [] => inferInstanceAs (Decidable True)
  | request :: later =>
    have := decidableAllTimely (cache.serve request).2 later
    inferInstanceAs (Decidable (_ ∧ _))

/-- A value is found again before a third one needs its room. -/
def foundAgain : List (Request Nat) :=
  [.set ⟨"a", 0⟩ 1, .set ⟨"b", 0⟩ 2, .get ⟨"a", 0⟩, .set ⟨"c", 0⟩ 3, .get ⟨"b", 0⟩]

/-- The second of two values is set again, and the first one leaves. -/
def setAgain : List (Request Nat) := [.set ⟨"a", 0⟩ 1, .set ⟨"b", 0⟩ 2, .set ⟨"b", 0⟩ 3]

theorem follows_iff_allTimely_again :
    ofSetting (.whole 2) = .ok (.empty 2 : Cache Nat) ∧
      ((Cache.empty 2).serveAll foundAgain).size ≤ 2 ∧
      (Cache.empty 2).Follows (.empty 2) foundAgain ∧
      ¬ (Cache.empty 2).Follows (.empty 2) setAgain := by
  have made : ofSetting (.whole 2) = .ok (.empty 2 : Cache Nat) := rfl
  obtain ⟨size, found⟩ := follows_iff_allTimely made foundAgain
  obtain ⟨_, again⟩ := follows_iff_allTimely made setAgain
  exact ⟨made, size, found.mpr (by decide), mt again.mp (by decide)⟩

end Cache
end InfixCalc
