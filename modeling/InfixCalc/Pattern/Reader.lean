import InfixCalc.Pattern.Basic

/-!
# Reading patterns

The written form of patterns: literals, classes and sets of characters, groups, look-ahead,
alternatives and the repetitions `*`, `+` and `?`. A text that is no pattern is refused with its
first fault and the position of that fault. A text that is a pattern of another kind is refused as
well, and never read as something else: one that counts its repetitions, takes as little as it can,
looks behind or at the bounds of words and lines, refers to a group, sets a flag or names a
character by its number.
-/

namespace InfixCalc.Pattern

inductive Fault where
  | nothingToRepeat (position : Nat)
  | repeatedTwice (position : Nat)
  | openSet (position : Nat)
  | openGroup (position : Nat)
  | unopenedGroup (position : Nat)
  | openEscape (position : Nat)
  | unknownEscape (c : Char) (position : Nat)
  | unknownGroup (c : Char) (position : Nat)
  | unendedGroup (position : Nat)
  | badRange (low high : List Char) (position : Nat)
  | notProvided (position : Nat)
  deriving DecidableEq, Repr

def Fault.message : Fault → String
  | .nothingToRepeat position => s!"nothing to repeat at position {position}"
  | .repeatedTwice position => s!"multiple repeat at position {position}"
  | .openSet position => s!"unterminated character set at position {position}"
  | .openGroup position => s!"missing ), unterminated subpattern at position {position}"
  | .unopenedGroup position => s!"unbalanced parenthesis at position {position}"
  | .openEscape position => s!"bad escape (end of pattern) at position {position}"
  | .unknownEscape c position => "bad escape \\" ++ s!"{c} at position {position}"
  | .unknownGroup c position => s!"unknown extension ?{c} at position {position}"
  | .unendedGroup position => s!"unexpected end of pattern at position {position}"
  | .badRange low high position =>
    s!"bad character range {String.ofList low}-{String.ofList high} at position {position}"
  | .notProvided position => s!"kind of pattern not provided at position {position}"

def escapeSet? : Char → Option CharSet
  | 'd' => some .digit
  | 'D' => some (.notIn .digit)
  | 's' => some .blank
  | 'S' => some (.notIn .blank)
  | 'n' => some (.one '\n')
  | 't' => some (.one '\t')
  | 'r' => some (.one '\r')
  | 'f' => some (.one '\x0c')
  | 'v' => some (.one '\x0b')
  | 'a' => some (.one '\x07')
  | c => if c.isAlphanum then none else some (.one c)

/-- Whether the character, escaped, stands for a kind of pattern that is not provided: the
characters of words, a bound of words or of the text, a group by its number, a character by its
number. -/
def escapesOther (c : Char) : Bool := c.isDigit || "AbBZwWxuUN".toList.contains c

/-- What an escaped character at some position stands for. -/
def readEscape (c : Char) (position : Nat) : Except Fault CharSet :=
  match escapeSet? c with
  | some set => .ok set
  | none => .error (if escapesOther c then .notProvided position else .unknownEscape c position)

structure Cursor where
  position : Nat
  rest : List Char
  deriving Repr

def Cursor.skip (cursor : Cursor) (n : Nat) : Cursor :=
  ⟨cursor.position + n, cursor.rest.drop n⟩

/-- One member of a set: a class or a single character, with the cursor behind it. In a set an
escaped `b` is the character that goes one place back. -/
def setMember (start : Nat) (cursor : Cursor) : Except Fault (CharSet × Cursor) :=
  match cursor.rest with
  | [] => .error (.openSet start)
  | ['\\'] => .error (.openEscape cursor.position)
  | '\\' :: 'b' :: _ => .ok (.one '\x08', cursor.skip 2)
  | '\\' :: c :: _ => do return (← readEscape c cursor.position, cursor.skip 2)
  | c :: _ => .ok (.one c, cursor.skip 1)

/-- The range between two members, of which the first stands between `start` and `middle`, and the
second begins behind `middle` and a hyphen. -/
def rangeOf (low high : CharSet) (start middle beyond : Cursor) : Except Fault CharSet :=
  let refused : Fault := .badRange (start.rest.take (middle.position - start.position))
    ((middle.rest.drop 1).take (beyond.position - middle.position - 1)) start.position
  match low, high with
  | .one low, .one high =>
    if high.toNat < low.toNat then .error refused else .ok (.range low high)
  | _, _ => .error refused

/-- The members of a set up to its closing bracket, which stands for itself in first place. -/
def setMembers (start : Nat) (first : Bool) :
    Nat → Cursor → Except Fault (CharSet × Cursor)
  | 0, _ => .error (.openSet start)
  | fuel + 1, cursor =>
    match cursor.rest with
    | [] => .error (.openSet start)
    | c :: _ =>
      if c == ']' && !first then .ok (.none, cursor.skip 1)
      else do
        let (low, next) ← setMember start cursor
        let (member, next) ←
          match next.rest with
          | '-' :: more =>
            if more.head? == some ']' then .ok (low, next)
            else do
              let (high, beyond) ← setMember start (next.skip 1)
              .ok (← rangeOf low high cursor next beyond, beyond)
          | _ => .ok (low, next)
        let (others, beyond) ← setMembers start false fuel next
        .ok (.either member others, beyond)

def readSet (start : Nat) (cursor : Cursor) : Except Fault (CharSet × Cursor) :=
  match cursor.rest with
  | '^' :: _ => do
    let (set, next) ← setMembers start true cursor.rest.length (cursor.skip 1)
    .ok (.notIn set, next)
  | _ => setMembers start true (cursor.rest.length + 1) cursor

/-- A read part of a sequence; a part that is a repetition, or no part of the text, cannot be
repeated. -/
structure Part where
  pattern : Pattern
  isRepetition : Bool
  isPosition : Bool

/-- Whether a count of repetitions stands behind an opening brace: one number, or a least and a
greatest one, of which each may be left out. Other braces stand for themselves. -/
def beginsCount (text : List Char) : Bool :=
  let behindLeast := text.dropWhile Char.isDigit
  let behindBoth := match behindLeast with
    | ',' :: more => more.dropWhile Char.isDigit
    | other => other
  text.head? != some '}' && behindBoth.head? == some '}'

def join (parts : List Part) : Pattern :=
  parts.foldl (fun whole part => .seq part.pattern whole) .empty

mutual

def readAlternatives : Nat → Cursor → Except Fault (Pattern × Cursor)
  | 0, cursor => .ok (.empty, cursor)
  | fuel + 1, cursor => do
    let (first, next) ← readSequence fuel [] cursor
    match next.rest with
    | '|' :: _ =>
      let (others, beyond) ← readAlternatives fuel (next.skip 1)
      .ok (.alt first others, beyond)
    | _ => .ok (first, next)

def readSequence : Nat → List Part → Cursor → Except Fault (Pattern × Cursor)
  | 0, parts, cursor => .ok (join parts, cursor)
  | fuel + 1, parts, cursor =>
    let single (pattern : Pattern) (width : Nat) :=
      readSequence fuel (⟨pattern, false, false⟩ :: parts) (cursor.skip width)
    let repetition (make : Pattern → Pattern) :=
      match parts with
      | [] => .error (.nothingToRepeat cursor.position)
      | part :: before =>
        if part.isPosition then .error (.nothingToRepeat cursor.position)
        else if part.isRepetition then .error (.repeatedTwice cursor.position)
        else if (cursor.rest.drop 1).head?.any fun c => c == '?' || c == '+' then
          .error (.notProvided cursor.position)
        else readSequence fuel (⟨make part.pattern, true, false⟩ :: before) (cursor.skip 1)
    let group (width : Nat) (make : Pattern → Pattern) := do
      let (inner, next) ← readAlternatives fuel (cursor.skip width)
      match next.rest with
      | ')' :: _ => readSequence fuel (⟨make inner, false, false⟩ :: parts) (next.skip 1)
      | _ => .error (.openGroup cursor.position)
    match cursor.rest with
    | [] | '|' :: _ | ')' :: _ => .ok (join parts, cursor)
    | ['\\'] => .error (.openEscape cursor.position)
    | '\\' :: c :: _ => do
      let set ← readEscape c cursor.position
      single (.char set) 2
    | '[' :: _ => do
      let (set, next) ← readSet cursor.position (cursor.skip 1)
      readSequence fuel (⟨.char set, false, false⟩ :: parts) next
    | '(' :: '?' :: ':' :: _ => group 3 id
    | '(' :: '?' :: '=' :: _ => group 3 (.ahead true)
    | '(' :: '?' :: '!' :: _ => group 3 (.ahead false)
    | ['(', '?'] => .error (.unendedGroup (cursor.position + 2))
    | '(' :: '?' :: c :: _ =>
      .error (if "P<>#(aiLmsux-".toList.contains c then .notProvided cursor.position
        else .unknownGroup c (cursor.position + 1))
    | '(' :: _ => group 1 id
    | '^' :: _ => .error (.notProvided cursor.position)
    | '{' :: more =>
      if beginsCount more then .error (.notProvided cursor.position)
      else single (.char (.one '{')) 1
    | '.' :: _ => single (.char .any) 1
    | '$' :: _ => readSequence fuel (⟨.atEnd, false, true⟩ :: parts) (cursor.skip 1)
    | '*' :: _ => repetition .many
    | '+' :: _ => repetition .atLeastOnce
    | '?' :: _ => repetition .optional
    | c :: _ => single (.char (.one c)) 1

end

def read (text : String) : Except Fault Pattern := do
  let chars := text.toList
  let (pattern, next) ← readAlternatives (2 * chars.length + 2) ⟨0, chars⟩
  match next.rest with
  | [] => .ok pattern
  | _ => .error (.unopenedGroup next.position)

/-- The text as a way to find tokens, or what is wrong with it. -/
def compile (text : String) : Except String Matcher :=
  match read text with
  | .ok pattern => .ok pattern.matcher
  | .error fault => .error fault.message

end InfixCalc.Pattern
