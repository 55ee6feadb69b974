import InfixCalc.Binary64.Text

/-!
# Text of integers

Integers are read with blanks around them, a sign, and digits of any script with single
underscores between them. Neither reading nor writing goes beyond a fixed number of digits.
-/

namespace InfixCalc.Number

open InfixCalc.Text

/-- The largest number of digits of an integer that is read or written out. -/
def maxIntegerDigits : Nat := 4300

/-- Whether the integer is written out. -/
@[irreducible] def isWritable (n : Int) : Bool := n.natAbs < Nat.pow 10 maxIntegerDigits

def readInteger (source : String) : Option Int :=
  let (negative, body) := Binary64.signOf (trim source.toList)
  match Binary64.digitRun false body with
  | ([], _) => none
  | (digits, []) =>
    if maxIntegerDigits < digits.length then none
    else
      let n : Int := digitsValue digits
      some (if negative then -n else n)
  | _ => none

end InfixCalc.Number
