import InfixCalc.Binary64.Text
import InfixCalc.Text.Quoted

/-!
# Settings

Limits and sizes arrive as values of any scalar kind. A setting keeps what was given, so that a
refusal can show it.
-/

namespace InfixCalc

/-- A scalar that a caller supplied where a number was expected. -/
inductive Setting where
  | absent
  | flag (value : Bool)
  | whole (value : Int)
  | real (value : Float)
  | text (value : String)

namespace Setting

def shown : Setting → String
  | .absent => "None"
  | .flag true => "True"
  | .flag false => "False"
  | .whole n => toString n
  | .real x => Binary64.text x
  | .text s => Text.quoted s

/-- The whole number from `least` on that the setting gives; a flag is not a number. -/
def atLeast? (least : Int) : Setting → Option Int
  | .whole n => if least ≤ n then some n else none
  | _ => none

/-- Whether the setting switches something on when it is tested as a condition. -/
def isTruthy : Setting → Bool
  | .absent => false
  | .flag value => value
  | .whole n => n != 0
  | .real x => x != 0
  | .text s => !s.isEmpty

end Setting
end InfixCalc
