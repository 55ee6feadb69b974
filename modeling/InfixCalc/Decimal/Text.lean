import InfixCalc.Decimal.Context
import InfixCalc.Text.Character

/-!
# Text of decimal numbers

Three forms are written: the scientific one, which shows coefficient and exponent as they are; the
plain one, which never has an exponent; and one with a fixed number of significant digits. Reading
takes signs, digits of any script, a point, an exponent and the names of the special values, and
drops underscores and blanks around the number.
-/

namespace InfixCalc.Decimal

open InfixCalc.Number InfixCalc.Text

def withSign (negative : Bool) (text : List Char) : List Char :=
  if negative then '-' :: text else text

def pointed (digits : List Char) (places : Nat) : List Char :=
  if places = 0 then digits
  else
    let padded := List.replicate (places + 1 - digits.length) '0' ++ digits
    padded.take (padded.length - places) ++ '.' :: padded.drop (padded.length - places)

def signedDigits (n : Int) : List Char :=
  (if n < 0 then '-' else '+') :: digitChars n.natAbs

def withExponent (mark : Char) (digits : List Char) (exponent : Int) : List Char :=
  pointed digits (digits.length - 1) ++ mark :: signedDigits exponent

def specialText : Decimal → List Char
  | .infinite _ => "Infinity".toList
  | .undefined _ signaling payload =>
    (if signaling then "sNaN" else "NaN").toList ++
      (if payload = 0 then [] else digitChars payload)
  | .finite .. => []

/-- The scientific form: an exponent is written if it is positive or if the leading digit stands
behind the sixth decimal place. -/
def text (x : Decimal) : String :=
  match x with
  | .finite negative coefficient exponent =>
    let digits := digitChars coefficient
    let top := leading coefficient exponent
    String.ofList (withSign negative (
      if exponent ≤ 0 ∧ -6 ≤ top then pointed digits (-exponent).toNat
      else withExponent 'E' digits top))
  | x => String.ofList (withSign x.isNegative (specialText x))

def stripTrailing (text : List Char) : List Char := (text.reverse.dropWhile (· == '0')).reverse

/-- The text of a finite magnitude without exponent and without zeros at the end of the fraction.
-/
def plainDigits (coefficient : Nat) (exponent : Int) : List Char :=
  if 0 ≤ exponent then
    if coefficient = 0 then ['0']
    else digitChars coefficient ++ List.replicate exponent.toNat '0'
  else
    let stripped := stripTrailing (pointed (digitChars coefficient) (-exponent).toNat)
    if stripped.getLast? == some '.' then stripped.dropLast else stripped

def plain (x : Decimal) : String :=
  match x with
  | .finite negative coefficient exponent =>
    String.ofList (withSign negative (plainDigits coefficient exponent))
  | x => String.ofList (withSign x.isNegative (specialText x))

/-- The number with `count` significant digits, halves to the even neighbour. -/
def scientific (count : Nat) (x : Decimal) : String :=
  match x with
  | .finite negative coefficient exponent =>
    if coefficient = 0 then "0"
    else
      let padded := coefficient * Nat.pow 10 (count - digitCount coefficient)
      let place := exponent - ((count - digitCount coefficient : Nat) : Int)
      let (kept, last) :=
        (Context.mk count .halfEven 0 (place - count)).fit negative padded place
      String.ofList (withSign negative (withExponent 'e' (digitChars kept) (leading kept last)))
  | x => x.text

instance : Shown Decimal where
  text := text
  quoted x := "Decimal('" ++ x.text ++ "')"

/-- The blanks at both ends and the underscores taken away, and the digits of other scripts replaced
by those of ASCII. -/
def normalized (text : String) : List Char :=
  let inner := (text.toList.dropWhile isBlank).reverse.dropWhile isBlank
  (inner.reverse.filter (· != '_')).map fun c =>
    match digitValue? c with
    | some d => Nat.digitChar d
    | none => c

def digitsOf (text : List Char) : List Char × List Char := text.span Char.isDigit

def valueOf (digits : List Char) : Nat := digits.foldl (fun n c => 10 * n + (c.toNat - 48)) 0

def exponentOf : List Char → Option Int
  | [] => some 0
  | c :: rest =>
    if c == 'e' || c == 'E' then
      let (negative, digits) :=
        match rest with
        | '-' :: more => (true, more)
        | '+' :: more => (false, more)
        | more => (false, more)
      match digitsOf digits with
      | ([], _) => none
      | (ds, []) => some (signed negative (valueOf ds))
      | _ => none
    else none

def readableExponent : Int := 999999999999999999

def isReadable (coefficient : Nat) (exponent : Int) : Bool :=
  (if coefficient = 0 then exponent else leading coefficient exponent) ≤ readableExponent &&
    1 - 2 * readableExponent ≤ exponent

def readFinite (negative : Bool) (text : List Char) : Option Decimal :=
  let (whole, rest) := digitsOf text
  let (part, rest) :=
    match rest with
    | '.' :: more => digitsOf more
    | _ => ([], rest)
  if whole.isEmpty && part.isEmpty then none
  else
    match exponentOf rest with
    | none => none
    | some exponent =>
      let coefficient := valueOf (whole ++ part)
      let last := exponent - part.length
      if isReadable coefficient last then some (.finite negative coefficient last) else none

def readSpecial (negative : Bool) (text : List Char) : Option Decimal :=
  let lower := text.map Char.toLower
  let payload (signaling : Bool) (digits : List Char) : Option Decimal :=
    if digits.all Char.isDigit then some (.undefined negative signaling (valueOf digits)) else none
  if lower == "inf".toList || lower == "infinity".toList then some (.infinite negative)
  else
    match lower with
    | 's' :: 'n' :: 'a' :: 'n' :: digits => payload true digits
    | 'n' :: 'a' :: 'n' :: digits => payload false digits
    | _ => none

def read (text : String) : Option Decimal :=
  let (negative, unsigned) :=
    match normalized text with
    | '-' :: rest => (true, rest)
    | '+' :: rest => (false, rest)
    | rest => (false, rest)
  readSpecial negative unsigned <|> readFinite negative unsigned

end InfixCalc.Decimal
