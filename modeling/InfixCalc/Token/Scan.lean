import InfixCalc.Config
import InfixCalc.Vocabulary.Basic

/-!
# Scanning

A text becomes tokens from left to right. At each place the scanner tries, in order: a separator,
a sign where an operand is expected, the longest label of the vocabulary, the operand patterns,
the variable pattern and blanks. Between an operand that is complete and one that begins it puts
the multiplication that the writer implied, as in `5x`, `2(3)` and `(a)(b)`.
-/

namespace InfixCalc

/-- A vocabulary and a configuration, ready to scan; `labels` has the longest labels first. -/
structure Scanner (σ α : Type) where
  vocabulary : Vocabulary σ α
  config : Config α
  labels : List (List Char)

namespace Scanner

variable {σ α : Type}

def labelChars (v : Vocabulary σ α) : List (List Char) := v.labels.map String.toList

def make (vocabulary : Vocabulary σ α) (config : Config α) : Scanner σ α :=
  ⟨vocabulary, config, labelChars vocabulary⟩

/-- What has been scanned, last token first, and what is left. A sign is a sign, not an operator
between operands, where `expectsSign` holds. -/
structure State (σ α : Type) where
  tokens : List (Token σ α)
  expectsSign : Bool
  rest : List Char

/-- What stands behind the place of the scanner in the whole text. -/
def State.behind (state : State σ α) (whole : List Char) : List Char :=
  whole.take (whole.length - state.rest.length)

def State.operandEnded (state : State σ α) : Bool :=
  match state.tokens with
  | last :: _ => last.endsOperand
  | [] => false

/-- The tokens, with the implied multiplication if an operand has just ended. -/
def withProduct (scanner : Scanner σ α) (state : State σ α) :
    Except Failure (List (Token σ α)) :=
  if state.operandEnded then do
    let product ← scanner.vocabulary.marker impliedProduct
    return .symbol (.operator product) :: state.tokens
  else .ok state.tokens

/-- The operator of a label whose fixity fits behind the last token. After an operand one that
stands only before operands still fits: `5 sin 5` multiplies. -/
def resolveOperator (scanner : Scanner σ α) (label : String) (afterOperand : Bool) :
    Except Failure (Operator σ α) :=
  let v := scanner.vocabulary
  let found :=
    if afterOperand then
      v.between.get? label <|> v.after.get? label <|> v.before.get? label
    else v.before.get? label
  match found with
  | some op => .ok op
  | none => .error (.undefinedSymbol label)

def scanSeparator (scanner : Scanner σ α) (state : State σ α) (s : Separator)
    (rest : List Char) : Except Failure (State σ α) := do
  let before ← if s = .openParen then scanner.withProduct state else pure state.tokens
  return ⟨.separator s :: before, s != .closeParen, rest⟩

def scanSign (scanner : Scanner σ α) (state : State σ α) (label : String) (rest : List Char) :
    Except Failure (State σ α) := do
  let sign ← scanner.vocabulary.marker label
  return { state with tokens := .symbol (.operator sign) :: state.tokens, rest := rest }

def scanLabel (scanner : Scanner σ α) (state : State σ α) (label : String)
    (rest : List Char) : Except Failure (State σ α) :=
  match scanner.vocabulary.callable? label with
  | some callable => do
    let before ← scanner.withProduct state
    return ⟨.symbol (.call callable) :: before, false, rest⟩
  | none => do
    let op ← scanner.resolveOperator label state.operandEnded
    let before ← if op.fixity = .before then scanner.withProduct state else pure state.tokens
    return ⟨.symbol (.operator op) :: before, op.fixity != .after, rest⟩

def scanOperand (scanner : Scanner σ α) (state : State σ α) (text rest : List Char) :
    Except Failure (State σ α) := do
  let before ← scanner.withProduct state
  match scanner.config.read (String.ofList text) with
  | some value => return ⟨.symbol (.operand value) :: before, false, rest⟩
  | none => throw (.unreadableOperand (String.ofList text))

def scanVariable (scanner : Scanner σ α) (state : State σ α) (text rest : List Char) :
    Except Failure (State σ α) := do
  let before ← scanner.withProduct state
  return ⟨.symbol (.variable (String.ofList text)) :: before, false, rest⟩

def signLabel? : Char → Option String
  | '+' => some unaryPlus
  | '-' => some unaryMinus
  | _ => none

def labelAt? (scanner : Scanner σ α) (text : List Char) : Option (List Char) :=
  scanner.labels.find? (·.isPrefixOf text)

def operandAt? (scanner : Scanner σ α) (behind text : List Char) :
    Option (List Char × List Char) :=
  scanner.config.operandPatterns.findSome? (·.matcher.split? behind text)

/-- One round, with what stands behind the place of the scanner. -/
def step (scanner : Scanner σ α) (behind : List Char) (state : State σ α) :
    Except Failure (State σ α) :=
  match state.rest with
  | [] => .ok state
  | c :: rest =>
    match Separator.ofChar? c with
    | some s => scanner.scanSeparator state s rest
    | none =>
      match (if state.expectsSign then signLabel? c else none) with
      | some label => scanner.scanSign state label rest
      | none =>
        match scanner.labelAt? state.rest with
        | some label =>
          scanner.scanLabel state (String.ofList label) (state.rest.drop label.length)
        | none =>
          match scanner.operandAt? behind state.rest with
          | some (text, after) => scanner.scanOperand state text after
          | none =>
            match scanner.config.variablePattern.matcher.split? behind state.rest with
            | some (text, after) => scanner.scanVariable state text after
            | none =>
              if Text.isBlank c then .ok { state with rest := rest.dropWhile Text.isBlank }
              else .error (.unexpectedCharacter behind.length c)

/-- Scan the whole text to its end. A pattern that takes nothing keeps the scanner in place. It
cannot go on if an implied product is undefined; otherwise it would stay there for ever, and that is
reported. -/
def scanAll (scanner : Scanner σ α) (whole : List Char) (state : State σ α) :
    Except Failure (List (Token σ α)) :=
  if state.rest.isEmpty then .ok state.tokens.reverse
  else
    let behind := state.behind whole
    match scanner.step behind state with
    | .error cause => .error cause
    | .ok next =>
      if next.rest.length < state.rest.length then scanner.scanAll whole next
      else
        match scanner.step behind next with
        | .error cause => .error cause
        | .ok _ => .error (.stalledPattern behind.length)
termination_by state.rest.length

def scan (scanner : Scanner σ α) (text : String) : Except Failure (List (Token σ α)) :=
  let chars := text.toList
  if chars.all Text.isBlank then .error .blankExpression
  else scanner.scanAll chars ⟨[], true, chars⟩

end Scanner
end InfixCalc
