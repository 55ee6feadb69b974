import InfixCalc.Binary64.Shortest
import InfixCalc.Text.Character

/-!
# Text of doubles

Printing uses the shortest digits that read back, positionally for decimal exponents from -4 to
15 and with an exponent of at least two digits otherwise. Reading takes what people write for a
number: blanks around it, a sign, digits of any script with single underscores between them, a
point, an exponent, or the name of a special value.
-/

namespace InfixCalc.Binary64

open InfixCalc.Number InfixCalc.Text

structure Layout where
  leastPositional : Int
  mostPositional : Int
  keepsPoint : Bool
  deriving DecidableEq, Repr

def general : Layout := ⟨-4, 15, true⟩

def plain : Layout := ⟨-4, 15, false⟩

def exponentText (exponent : Int) : List Char :=
  let digits := digitChars exponent.natAbs
  'e' :: (if exponent < 0 then '-' else '+') ::
    (List.replicate (2 - digits.length) '0' ++ digits)

def mantissaText : List Char → List Char
  | [] => []
  | [d] => [d]
  | d :: ds => d :: '.' :: ds

def Layout.render (layout : Layout) (d : Digits) : List Char :=
  let digits := digitChars d.digits
  let top := d.exponent + digits.length - 1
  if top < layout.leastPositional || layout.mostPositional < top then
    mantissaText digits ++ exponentText top
  else if 0 ≤ d.exponent then
    digits ++ List.replicate d.exponent.toNat '0' ++ (if layout.keepsPoint then ['.', '0'] else [])
  else if 0 ≤ top then
    let whole := (top + 1).toNat
    digits.take whole ++ '.' :: digits.drop whole
  else
    ['0', '.'] ++ List.replicate (-top - 1).toNat '0' ++ digits

def Layout.text (layout : Layout) (x : Float) : String :=
  match decode x with
  | .undefined => "nan"
  | .infinite negative => if negative then "-inf" else "inf"
  | .finite negative significand exponent =>
    let magnitude :=
      if significand = 0 then (if layout.keepsPoint then ['0', '.', '0'] else ['0'])
      else layout.render (shortest significand exponent)
    String.ofList (if negative then '-' :: magnitude else magnitude)

def text (x : Float) : String := general.text x

def scientific (count : Nat) (x : Float) : String :=
  match decode x with
  | .undefined => "nan"
  | .infinite negative => if negative then "-inf" else "inf"
  | .finite negative significand exponent =>
    let magnitude :=
      if significand = 0 then
        mantissaText (List.replicate count '0') ++ exponentText 0
      else
        let d := significant count significand exponent
        mantissaText (digitChars d.digits) ++ exponentText (d.exponent + ((count : Int) - 1))
    String.ofList (if negative then '-' :: magnitude else magnitude)

/-- A run of digits and what follows it. After a digit, one underscore may lead to the next. -/
def digitRun (afterDigit : Bool) : List Char → List Nat × List Char
  | [] => ([], [])
  | c :: rest =>
    match digitValue? c with
    | some d =>
      let (ds, after) := digitRun true rest
      (d :: ds, after)
    | none =>
      if afterDigit && c == '_' then
        match digitRun false rest with
        | ([], _) => ([], c :: rest)
        | run => run
      else ([], c :: rest)

def signOf : List Char → Bool × List Char
  | '-' :: rest => (true, rest)
  | '+' :: rest => (false, rest)
  | rest => (false, rest)

def exponentOf : List Char → Option Int
  | [] => some 0
  | c :: rest =>
    if c == 'e' || c == 'E' then
      let (negative, digits) := signOf rest
      match digitRun false digits with
      | ([], _) => none
      | (ds, []) =>
        let n : Int := digitsValue ds
        some (if negative then -n else n)
      | _ => none
    else none

/-- The digits, the number of them after the point, and the exponent of an unsigned number. -/
def unsigned (text : List Char) : Option (Nat × Int) :=
  let (whole, rest) := digitRun false text
  let (part, rest) :=
    match rest with
    | '.' :: more => digitRun false more
    | _ => ([], rest)
  if whole.isEmpty && part.isEmpty then none
  else (exponentOf rest).map fun exponent =>
    (digitsValue (whole ++ part), exponent - part.length)

def lowerCase (text : List Char) : String := String.ofList (text.map Char.toLower)

def read (source : String) : Option Float :=
  let (negative, body) := signOf (trim source.toList)
  match lowerCase body with
  | "inf" | "infinity" => some (signed negative infinityWord)
  | "nan" => some (signed negative (infinityWord + Nat.pow 2 51))
  | _ => (unsigned body).map fun (digits, exponent) => ofDecimal negative digits exponent

end InfixCalc.Binary64
