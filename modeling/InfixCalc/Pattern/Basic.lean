import InfixCalc.Text.Character

/-!
# Lexical patterns

Regular expressions with look-ahead, matched at the start of a text. A pattern has a list of ways
to match, in order of preference; each is given by what remains of the text. The first way decides
what a token is, so greedy repetition and the order of alternatives matter.
-/

namespace InfixCalc

inductive CharSet where
  | one (c : Char)
  | range (low high : Char)
  | digit
  | blank
  | any
  | notIn (inner : CharSet)
  | either (left right : CharSet)
  | none
  deriving DecidableEq, Repr

def CharSet.contains : CharSet → Char → Bool
  | .one c, x => x == c
  | .range low high, x => low.toNat ≤ x.toNat && x.toNat ≤ high.toNat
  | .digit, x => Text.isDigit x
  | .blank, x => Text.isBlank x
  | .any, x => x != '\n'
  | .notIn inner, x => !inner.contains x
  | .either left right, x => left.contains x || right.contains x
  | .none, _ => false

inductive Pattern where
  | empty
  | char (set : CharSet)
  | seq (first second : Pattern)
  | alt (first second : Pattern)
  | optional (inner : Pattern)
  | many (inner : Pattern)
  | ahead (expected : Bool) (inner : Pattern)
  | atEnd
  deriving DecidableEq, Repr

namespace Pattern

/-- Repetition by a way to match once, most repetitions first. A round that takes nothing is not
repeated, so the length of the text bounds the rounds. -/
def repeated (once : List Char → List (List Char)) : Nat → List Char → List (List Char)
  | 0, text => [text]
  | fuel + 1, text =>
    ((once text).filter (·.length < text.length)).flatMap (repeated once fuel) ++ [text]

/-- What remains of the text after each way to match the pattern at its start, best first. -/
def remainders : Pattern → List Char → List (List Char)
  | .empty, text => [text]
  | .char set, text =>
    match text with
    | [] => []
    | c :: rest => if set.contains c then [rest] else []
  | .seq first second, text => (first.remainders text).flatMap second.remainders
  | .alt first second, text => first.remainders text ++ second.remainders text
  | .optional inner, text => inner.remainders text ++ [text]
  | .many inner, text => repeated inner.remainders text.length text
  | .ahead expected inner, text =>
    if (inner.remainders text).isEmpty == expected then [] else [text]
  | .atEnd, text => if text.isEmpty || text == ['\n'] then [text] else []

def atLeastOnce (inner : Pattern) : Pattern := .seq inner (.many inner)

def remainder? (p : Pattern) (text : List Char) : Option (List Char) := (p.remainders text).head?

def split? (p : Pattern) (text : List Char) : Option (List Char × List Char) :=
  (p.remainder? text).map fun rest => (text.take (text.length - rest.length), rest)

def matchesEmpty (p : Pattern) : Bool := (p.remainder? []).isSome

def matchesStart (p : Pattern) (text : List Char) : Bool := (p.remainder? text).isSome

def literal (word : List Char) : Pattern :=
  word.foldr (fun c p => .seq (.char (.one c)) p) .empty

theorem suffix_of_mem_repeated {once : List Char → List (List Char)}
    (suffix : ∀ text rest, rest ∈ once text → rest <:+ text) (fuel : Nat) :
    ∀ text rest, rest ∈ repeated once fuel text → rest <:+ text := by
  induction fuel with
  | zero =>
    intro text rest h
    simp only [repeated, List.mem_singleton] at h
    exact h ▸ List.suffix_rfl
  | succ fuel ih =>
    intro text rest h
    simp only [repeated, List.mem_append, List.mem_flatMap, List.mem_filter,
      List.mem_singleton] at h
    rcases h with ⟨middle, ⟨inOnce, _⟩, inRest⟩ | rfl
    · exact (ih middle rest inRest).trans (suffix text middle inOnce)
    · exact List.suffix_rfl

theorem suffix_of_mem_remainders (p : Pattern) :
    ∀ text rest, rest ∈ p.remainders text → rest <:+ text := by
  induction p with
  | empty =>
    intro text rest h
    simp only [remainders, List.mem_singleton] at h
    exact h ▸ List.suffix_rfl
  | char set =>
    intro text rest h
    cases text with
    | nil => simp [remainders] at h
    | cons c more =>
      simp only [remainders] at h
      split at h
      · simp only [List.mem_singleton] at h
        exact h ▸ List.suffix_cons c more
      · simp at h
  | seq first second ihFirst ihSecond =>
    intro text rest h
    simp only [remainders, List.mem_flatMap] at h
    obtain ⟨middle, inFirst, inSecond⟩ := h
    exact (ihSecond middle rest inSecond).trans (ihFirst text middle inFirst)
  | alt first second ihFirst ihSecond =>
    intro text rest h
    simp only [remainders, List.mem_append] at h
    exact h.elim (ihFirst text rest) (ihSecond text rest)
  | optional inner ih =>
    intro text rest h
    simp only [remainders, List.mem_append, List.mem_singleton] at h
    rcases h with h | rfl
    · exact ih text rest h
    · exact List.suffix_rfl
  | many inner ih =>
    intro text rest h
    exact suffix_of_mem_repeated ih _ text rest h
  | ahead expected inner _ =>
    intro text rest h
    simp only [remainders] at h
    split at h
    · simp at h
    · simp only [List.mem_singleton] at h
      exact h ▸ List.suffix_rfl
  | atEnd =>
    intro text rest h
    simp only [remainders] at h
    split at h
    · simp only [List.mem_singleton] at h
      exact h ▸ List.suffix_rfl
    · simp at h

theorem append_eq_of_split? {p : Pattern} {text taken rest : List Char}
    (h : p.split? text = some (taken, rest)) : taken ++ rest = text := by
  obtain ⟨found, inHead, same⟩ := Option.map_eq_some_iff.mp h
  obtain ⟨front, rfl⟩ :=
    suffix_of_mem_remainders p text found (List.mem_of_head? inHead)
  obtain ⟨rfl, rfl⟩ := Prod.mk.inj same
  simp

end Pattern

/- Matchers. -/

/-- What an engine for regular expressions turns the text of a pattern into. All that scanning
relies on is that a match takes some front of what is left; besides, a matcher may look at what
stands behind its place. -/
structure Matcher where
  /-- What is taken and what remains, from what stands behind a place and what is left there. -/
  split? (behind text : List Char) : Option (List Char × List Char)
  append_eq {behind text taken rest : List Char} :
    split? behind text = some (taken, rest) → taken ++ rest = text

namespace Matcher

def matchesEmpty (m : Matcher) : Bool := (m.split? [] []).isSome

/-- Whether a match depends only on what is left. -/
def Forgets (m : Matcher) : Prop :=
  ∀ behind other text, m.split? behind text = m.split? other text

/-- A matcher that matches at some place without taking text matches the empty text. -/
def Steady (m : Matcher) : Prop :=
  ∀ behind text, m.split? behind text = some ([], text) → m.matchesEmpty = true

end Matcher

def Pattern.matcher (p : Pattern) : Matcher := ⟨fun _ text => p.split? text, append_eq_of_split?⟩

end InfixCalc
