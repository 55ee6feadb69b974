import InfixCalc.Binary64.Text
import InfixCalc.Token

/-!
# How real numbers are shown

Expressions show integers below 10^16 without a fraction. Results are shown with two places and
an exponent where they are very small or very large.
-/

namespace InfixCalc.Real

def format (x : Float) : String := if x == 0 then "0" else Binary64.plain.text x

def formatResult (x : Float) : String :=
  if !x.isFinite then Binary64.text x
  else if (x.abs < 1e-10 && x != 0) || x.abs > 1e10 then Binary64.scientific 3 x
  else if Binary64.isInteger x then format x
  else Binary64.text x

instance : Shown Float := ⟨Binary64.text, Binary64.text⟩

end InfixCalc.Real
