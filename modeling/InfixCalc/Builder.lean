import InfixCalc.Cache
import InfixCalc.Expression
import InfixCalc.Postfix
import InfixCalc.Token.Scan

/-!
# Builders

A builder turns texts into expressions over a vocabulary that may change between builds. It
remembers what it scans for, and optionally the expressions it has built, each for one version of
the vocabulary.
-/

namespace InfixCalc

/-- A configuration, a vocabulary, and what is remembered of earlier work. `labels` holds the
labels to scan for with the version they belong to; `nextStamp` is the stamp of the next
expression. -/
structure Builder (σ α : Type) where
  config : Config α
  vocabulary : Vocabulary σ α
  cache : Option (Cache (Expression σ α))
  cacheVersion : Nat
  labels : Option (Nat × List (List Char))
  nextStamp : Nat

namespace Builder

variable {σ α : Type}

/-- The cache of a builder whose cache size is a setting; without a size there is none. -/
def cacheOf (size : Setting) : Except Failure (Option (Cache (Expression σ α))) :=
  if size.isTruthy then do return some (← Cache.ofSetting size) else .ok none

def make (config : Config α) (vocabulary : Vocabulary σ α) (cacheSize : Setting) :
    Except Failure (Builder σ α) := do
  let cache ← cacheOf cacheSize
  return ⟨config, vocabulary, cache, vocabulary.version, none, 0⟩

/-- A builder with the same configuration over its own copy of the vocabulary. A cache that holds
entries is replaced by an empty one of its size; an empty cache is not carried over. -/
def copy (b : Builder σ α) : Builder σ α where
  config := b.config
  vocabulary := b.vocabulary.copy
  cache :=
    match b.cache with
    | some cache => if cache.size = 0 then none else some (.empty cache.maxSize)
    | none => none
  cacheVersion := b.vocabulary.copy.version
  labels := none
  nextStamp := b.nextStamp

/-- The labels to scan for: those remembered, unless the vocabulary has changed. -/
def currentLabels (b : Builder σ α) : List (List Char) :=
  match b.labels with
  | some (version, labels) =>
    if version = b.vocabulary.version then labels else Scanner.labelChars b.vocabulary
  | none => Scanner.labelChars b.vocabulary

def remember (b : Builder σ α) : Builder σ α :=
  { b with labels := some (b.vocabulary.version, b.currentLabels) }

def tokenize (b : Builder σ α) (text : String) :
    Except Failure (List (Token σ α)) × Builder σ α :=
  (Scanner.scan ⟨b.vocabulary, b.config, b.currentLabels⟩ text, b.remember)

def postfixed (b : Builder σ α) (text : String) :
    Except Failure (List (Symbol σ α)) × Builder σ α :=
  let (tokens, b) := b.tokenize text
  (tokens >>= Postfix.ofTokens b.config.display b.config.maxDepth, b)

def construct (b : Builder σ α) (text : String) :
    Except Failure (Expression σ α) × Builder σ α :=
  let (symbols, b) := b.postfixed text
  let built := do
    let root ← Tree.ofPostfix (Symbol.text b.config.display) b.config.maxDepth (← symbols)
    return ⟨root, b.vocabulary.constants, b.config.print, b.nextStamp⟩
  (built, { b with nextStamp := b.nextStamp + 1 })

def store (b : Builder σ α) (text : String) (e : Expression σ α) : Builder σ α :=
  { b with cache := b.cache.map (·.set ⟨text, b.vocabulary.version⟩ e) }

/-- The builder with the cache entries of other versions dropped, if the version has changed since
the last build. -/
def refresh (b : Builder σ α) : Builder σ α :=
  if b.cacheVersion = b.vocabulary.version then b
  else { b with
    cache := b.cache.map (·.discardStale b.vocabulary.version)
    cacheVersion := b.vocabulary.version }

def lookUp (b : Builder σ α) (text : String) : Option (Expression σ α) × Builder σ α :=
  match b.cache with
  | none => (none, b)
  | some _ =>
    let b := b.refresh
    match b.cache with
    | none => (none, b)
    | some cache =>
      let (found, cache) := cache.get ⟨text, b.vocabulary.version⟩
      (found, { b with cache := some cache })

/-- The expression of a text. A new one is stored before it is printed for the log, so one that
cannot be printed fails here but is found by the next build. -/
def build (b : Builder σ α) (text : String) : Except Failure (Expression σ α) × Builder σ α :=
  match b.lookUp text with
  | (some e, b) => (.ok e, b)
  | (none, b) =>
    match b.construct text with
    | (.error cause, b) => (.error cause, b)
    | (.ok e, b) => (e.written.map fun _ => e, b.store text e)

end Builder
end InfixCalc
