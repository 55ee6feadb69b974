import InfixCalc.Text.Character

/-!
# Assignments

A line `name = expression` stores a value under a name. A second equals sign behind the first one
makes a comparison, which is no assignment.
-/

namespace InfixCalc.Calculator

structure Assignment where
  name : String
  source : String
  deriving DecidableEq, Repr

def isNameStart (c : Char) : Bool := c.isAlpha

def isNamePart (c : Char) : Bool := c.isAlpha || c.isDigit

def singleLine? (text : List Char) : Option (List Char) :=
  let line := text.takeWhile (· != '\n')
  let behind := text.dropWhile (· != '\n')
  if line.isEmpty then none
  else if behind.isEmpty || behind == ['\n'] then some line
  else none

/-- The expression behind an equals sign: what follows the blanks, or the last of the blanks when
nothing follows. -/
def assigned? (text : List Char) : Option (List Char) :=
  match Text.trimStart text with
  | [] =>
    match text.reverse with
    | '\n' :: c :: _ => if c == '\n' then none else some [c]
    | c :: _ => if c == '\n' then none else some [c]
    | [] => none
  | rest => singleLine? rest

def Assignment.ofLine? (line : String) : Option Assignment :=
  match Text.trimStart line.toList with
  | [] => none
  | c :: rest =>
    if isNameStart c then
      let name := c :: rest.takeWhile isNamePart
      match Text.trimStart (rest.dropWhile isNamePart) with
      | '=' :: '=' :: _ => none
      | '=' :: behind =>
        (assigned? behind).map fun source => ⟨String.ofList name, String.ofList source⟩
      | _ => none
    else none

end InfixCalc.Calculator
