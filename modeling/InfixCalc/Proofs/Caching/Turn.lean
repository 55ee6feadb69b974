import InfixCalc.Builder
import InfixCalc.Proofs.Outcome

/-!
# What a build does to the cache

A build drops what the cache holds for other versions of the vocabulary. Then its text is found in
the cache, or it is refused, or an expression is made of it. The expression is stored before it is
printed.
-/

namespace InfixCalc.Builder

variable {σ α : Type}

/-- The key of a text for the version of the vocabulary. -/
def key (b : Builder σ α) (text : String) : CacheKey := ⟨text, b.vocabulary.version⟩

/-- The builder after a look-up that left the cache given. -/
def looked (b : Builder σ α) (cache : Cache (Expression σ α)) : Builder σ α :=
  { b with cache := some cache, cacheVersion := b.vocabulary.version }

/-- The builder after a look-up and an attempt to make an expression. -/
def attempted (b : Builder σ α) (cache : Cache (Expression σ α)) : Builder σ α :=
  { b.remember with
    cache := some cache
    cacheVersion := b.vocabulary.version
    nextStamp := b.nextStamp + 1 }

/-- The result of a build and the builder afterwards, where `cache` is what is left of the cache
when other versions are dropped. -/
inductive Turn (b : Builder σ α) (cache : Cache (Expression σ α)) (text : String) :
    Except Failure (Expression σ α) → Builder σ α → Prop where
  | found {e : Expression σ α} : (cache.get (b.key text)).1 = some e →
      Turn b cache text (.ok e) (b.looked (cache.get (b.key text)).2)
  | refused {cause : Failure} : (cache.get (b.key text)).1 = none →
      (b.construct text).1 = .error cause →
      Turn b cache text (.error cause) (b.attempted (cache.get (b.key text)).2)
  | made {e : Expression σ α} {written : String} : (cache.get (b.key text)).1 = none →
      (b.construct text).1 = .ok e → e.written = .ok written →
      Turn b cache text (.ok e) (b.attempted ((cache.get (b.key text)).2.set (b.key text) e))
  | unprinted {e : Expression σ α} {cause : Failure} : (cache.get (b.key text)).1 = none →
      (b.construct text).1 = .ok e → e.written = .error cause →
      Turn b cache text (.error cause) (b.attempted ((cache.get (b.key text)).2.set (b.key text) e))

theorem refresh_eq (b : Builder σ α) :
    b.refresh = { b with cache := b.refresh.cache, cacheVersion := b.vocabulary.version } := by
  unfold refresh
  split
  · rename_i current
    rw [← current]
  · rfl

theorem refresh_of_seen {b : Builder σ α} (seen : b.cacheVersion = b.vocabulary.version) :
    b.refresh = b := if_pos seen

theorem lookUp_eq {b : Builder σ α} {cache : Cache (Expression σ α)}
    (left : b.refresh.cache = some cache) (text : String) :
    b.lookUp text = ((cache.get (b.key text)).1, b.looked (cache.get (b.key text)).2) := by
  have present : b.cache ≠ none := by
    intro absent
    have dropped : b.refresh.cache = none := by
      unfold refresh
      split
      · exact absent
      · exact congrArg (Option.map _) absent
    cases dropped.symm.trans left
  have same := b.refresh_eq
  unfold lookUp
  split
  · contradiction
  · simp only [left]
    rw [same]
    rfl

theorem turn_build {b : Builder σ α} {cache : Cache (Expression σ α)}
    (left : b.refresh.cache = some cache) (text : String) :
    Turn b cache text (b.build text).1 (b.build text).2 := by
  unfold build
  rw [lookUp_eq left]
  cases found : (cache.get (b.key text)).1 with
  | some e => exact .found found
  | none =>
    -- An attempt does not read the cache.
    have attempt : (b.looked (cache.get (b.key text)).2).construct text =
        ((b.construct text).1, b.attempted (cache.get (b.key text)).2) := rfl
    simp only [attempt]
    cases made : (b.construct text).1 with
    | error cause => exact .refused found made
    | ok e =>
      simp only
      cases shown : e.written with
      | error cause => exact .unprinted found made shown
      | ok written => exact .made found made shown

/- A new expression has a new stamp. -/

theorem of_construct_eq_ok {b : Builder σ α} {text : String} {e : Expression σ α}
    (made : (b.construct text).1 = .ok e) : e.print = b.config.print ∧ e.stamp = b.nextStamp := by
  unfold construct at made
  obtain ⟨symbols, postfixed, rest⟩ := bind_eq_ok_iff.mp made
  obtain ⟨root, assembled, same⟩ := bind_eq_ok_iff.mp rest
  cases same
  exact ⟨rfl, rfl⟩

end InfixCalc.Builder
