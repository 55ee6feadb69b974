import InfixCalc.Failure

/-!
# Least recently used cache

Values under keys, at most `maxSize` of them. A key is an expression text with the version of the
vocabulary it was built against. Keys stand in the order of their last use, oldest first, and the
oldest leaves when room is needed.
-/

namespace InfixCalc

structure CacheKey where
  text : String
  version : Nat
  deriving DecidableEq, Repr

/-- A cache of values by keys, least recently used first. -/
structure Cache (α : Type) where
  entries : List (CacheKey × α)
  maxSize : Nat
  hits : Nat
  misses : Nat

namespace Cache

variable {α : Type}

def empty (maxSize : Nat) : Cache α := ⟨[], maxSize, 0, 0⟩

def ofSetting (given : Setting) : Except Failure (Cache α) :=
  match given.atLeast? 1 with
  | some n => .ok (empty n.toNat)
  | none => .error (.showing given (.invalidCacheSize given))

def keys (cache : Cache α) : List CacheKey := cache.entries.map (·.1)

def size (cache : Cache α) : Nat := cache.entries.length

def peek? (cache : Cache α) (key : CacheKey) : Option α := cache.entries.lookup key

def without (key : CacheKey) (entries : List (CacheKey × α)) : List (CacheKey × α) :=
  entries.filter fun entry => entry.1 != key

def get (cache : Cache α) (key : CacheKey) : Option α × Cache α :=
  match cache.peek? key with
  | some value =>
    (some value,
      { cache with entries := without key cache.entries ++ [(key, value)], hits := cache.hits + 1 })
  | none => (none, { cache with misses := cache.misses + 1 })

/-- The entries with a value put under a key: a new key goes to the end, one that is there keeps
its place. -/
def put (key : CacheKey) (value : α) : List (CacheKey × α) → List (CacheKey × α)
  | [] => [(key, value)]
  | (k, v) :: rest => if k = key then (key, value) :: rest else (k, v) :: put key value rest

def set (cache : Cache α) (key : CacheKey) (value : α) : Cache α :=
  let room :=
    if cache.maxSize ≤ cache.entries.length then cache.entries.drop 1 else cache.entries
  { cache with entries := put key value room }

def discardStale (cache : Cache α) (version : Nat) : Cache α :=
  { cache with entries := cache.entries.filter fun entry => entry.1.version == version }

def clear (cache : Cache α) : Cache α := empty cache.maxSize

def hitRate (cache : Cache α) : Float :=
  let total := cache.hits + cache.misses
  if total = 0 then 0 else Binary64.ofInt cache.hits / Binary64.ofInt total

end Cache
end InfixCalc
