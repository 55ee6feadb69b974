import InfixCalc.Cache
import Mathlib.Data.List.Forall2

/-!
# Caches that match

Caches match if they have the same keys in the same order and values that are related one by one.
What a cache does depends on its keys only, so caches that match answer alike and still match
afterwards.
-/

namespace InfixCalc.Cache

variable {α β : Type} {R : α → β → Prop}

/-- The entries have the same key, and their values are related. -/
def EntryMatches (R : α → β → Prop) (x : CacheKey × α) (y : CacheKey × β) : Prop :=
  x.1 = y.1 ∧ R x.2 y.2

structure Matches (R : α → β → Prop) (c : Cache α) (d : Cache β) : Prop where
  entries : List.Forall₂ (EntryMatches R) c.entries d.entries
  maxSize : c.maxSize = d.maxSize
  hits : c.hits = d.hits
  misses : c.misses = d.misses

theorem matches_empty (R : α → β → Prop) (maxSize : Nat) :
    Matches R (.empty maxSize) (.empty maxSize) :=
  ⟨.nil, rfl, rfl, rfl⟩

theorem Matches.mono {S : α → β → Prop} {c : Cache α} {d : Cache β} (hold : Matches R c d)
    (weaker : ∀ x y, R x y → S x y) : Matches S c d :=
  ⟨hold.entries.imp fun _ _ same => ⟨same.1, weaker _ _ same.2⟩, hold.maxSize, hold.hits,
    hold.misses⟩

theorem Matches.size_eq {c : Cache α} {d : Cache β} (hold : Matches R c d) : c.size = d.size :=
  hold.entries.length_eq

theorem forall₂_filter {xs : List (CacheKey × α)} {ys : List (CacheKey × β)}
    (hold : List.Forall₂ (EntryMatches R) xs ys) (keep : CacheKey → Bool) :
    List.Forall₂ (EntryMatches R) (xs.filter fun x => keep x.1) (ys.filter fun y => keep y.1) :=
  List.rel_filter (fun _ _ same => iff_of_eq (congrArg (keep · = true) same.1)) hold

theorem forall₂_put {xs : List (CacheKey × α)} {ys : List (CacheKey × β)}
    (hold : List.Forall₂ (EntryMatches R) xs ys) (key : CacheKey) {x : α} {y : β}
    (related : R x y) : List.Forall₂ (EntryMatches R) (put key x xs) (put key y ys) := by
  induction hold with
  | nil => exact .cons ⟨rfl, related⟩ .nil
  | @cons first second xs ys same rest ih =>
    rw [put, put, same.1]
    split
    · exact .cons ⟨rfl, related⟩ rest
    · exact .cons ⟨rfl, same.2⟩ ih

theorem rel_lookup {xs : List (CacheKey × α)} {ys : List (CacheKey × β)}
    (hold : List.Forall₂ (EntryMatches R) xs ys) (key : CacheKey) :
    Option.Rel R (xs.lookup key) (ys.lookup key) := by
  induction hold with
  | nil => exact .none
  | @cons first second xs ys same _ ih =>
    rw [List.lookup_cons, List.lookup_cons, same.1]
    split
    · exact .some same.2
    · exact ih

theorem Matches.get {c : Cache α} {d : Cache β} (hold : Matches R c d) (key : CacheKey) :
    Option.Rel R (c.get key).1 (d.get key).1 ∧ Matches R (c.get key).2 (d.get key).2 := by
  obtain ⟨entries, maxSize, hits, misses⟩ := hold
  have found := rel_lookup entries key
  unfold Cache.get peek?
  generalize c.entries.lookup key = mine at found
  generalize d.entries.lookup key = theirs at found
  cases found with
  | none => exact ⟨.none, entries, maxSize, hits, congrArg (· + 1) misses⟩
  | some related =>
    refine ⟨.some related, ?_, maxSize, congrArg (· + 1) hits, misses⟩
    exact List.rel_append (forall₂_filter entries (· != key)) (.cons ⟨rfl, related⟩ .nil)

theorem Matches.set {c : Cache α} {d : Cache β} (hold : Matches R c d) (key : CacheKey) {x : α}
    {y : β} (related : R x y) : Matches R (c.set key x) (d.set key y) := by
  obtain ⟨entries, maxSize, hits, misses⟩ := hold
  refine ⟨?_, maxSize, hits, misses⟩
  unfold Cache.set
  simp only [maxSize, entries.length_eq]
  split
  · exact forall₂_put (List.forall₂_drop 1 entries) key related
  · exact forall₂_put entries key related

theorem Matches.discardStale {c : Cache α} {d : Cache β} (hold : Matches R c d) (version : Nat) :
    Matches R (c.discardStale version) (d.discardStale version) :=
  ⟨forall₂_filter hold.entries (·.version == version), hold.maxSize, hold.hits, hold.misses⟩

end InfixCalc.Cache
