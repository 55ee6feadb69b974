import InfixCalc.Complex.Basic
import InfixCalc.Decimal.Text
import InfixCalc.Grid.Basic
import InfixCalc.Number.Integer
import InfixCalc.Number.Random
import InfixCalc.Text.Quoted

/-!
# Mixed values

Values of all kinds that expressions can be about, for vocabularies whose words pass from one kind
to another. Their evaluations share a record of the words that were called, a counter, and a source
of random numbers.
-/

namespace InfixCalc

inductive Value where
  | whole (n : Int)
  | real (x : Float)
  | decimal (x : Decimal)
  | complex (z : Complex)
  | grid (g : Grid)
  | text (s : String)
  | pair (first second : Value)
  | nothing

namespace Value

def quoted : Value → String
  | .whole n => toString n
  | .real x => Shown.quoted x
  | .decimal x => Shown.quoted x
  | .complex z => Shown.quoted z
  | .grid g => Shown.quoted g
  | .text s => Text.quoted s
  | .pair x y => "(" ++ x.quoted ++ ", " ++ y.quoted ++ ")"
  | .nothing => "None"

def shown : Value → String
  | .real x => Shown.text x
  | .decimal x => Shown.text x
  | .complex z => Shown.text z
  | .grid g => Shown.text g
  | .text s => s
  | v => v.quoted

instance : Shown Value := ⟨shown, quoted⟩

/-- Whether the value can be shown: integers with too many digits are not written out. -/
def isWritable : Value → Bool
  | .whole n => Number.isWritable n
  | .pair x y => x.isWritable && y.isWritable
  | _ => true

def display (v : Value) : Except Failure String :=
  if v.isWritable then .ok v.shown else .error .unreadableValue

/-- Whether the value counts as true: it is not zero and not empty. A grid must have one cell. -/
def holds : Value → Except Failure Bool
  | .whole n => .ok (n != 0)
  | .real x => .ok (x != 0)
  | .decimal x => .ok (!x.isZero)
  | .complex z => .ok (!(z.re == 0 && z.im == 0))
  | .grid g =>
    match g.cells.toFlags with
    | [flag] => .ok flag
    | _ => .error .unreadableValue
  | .text s => .ok (!s.isEmpty)
  | .pair .. => .ok true
  | .nothing => .ok false

end Value

/- Journals. -/

/-- The calls so far, the latest first, with the counter and the source of random numbers. -/
structure Journal where
  entries : List String
  ticks : Nat
  seed : Number.Seed

namespace Journal

def empty : Journal := ⟨[], 0, .initial⟩

def note (journal : Journal) (entry : String) : Journal :=
  { journal with entries := entry :: journal.entries }

def record (journal : Journal) : List String := journal.entries.reverse

def turnPage (journal : Journal) : Journal := { journal with entries := [] }

instance : Number.RandomSource Journal where
  draw journal :=
    let (x, seed) := journal.seed.next
    (x, { journal with seed := seed })

end Journal
end InfixCalc
