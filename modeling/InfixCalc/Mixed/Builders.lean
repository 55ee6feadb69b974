import InfixCalc.Complex.Vocabulary
import InfixCalc.Decimal.Vocabulary
import InfixCalc.Grid.Library
import InfixCalc.Mixed.Value
import InfixCalc.Mixed.Lift
import InfixCalc.Number.Integer

/-!
# Builders over mixed values

The ready-made vocabularies over mixed values, and builders that start without any words, whose
operands are read and printed in one of several ways.
-/

namespace InfixCalc

inductive Reader where
  | whole
  | real
  | text
  | picky
  deriving DecidableEq, Repr

def refusedText : String := "13"

def Reader.read (reader : Reader) (source : String) : Option Value :=
  match reader with
  | .whole => (Number.readInteger source).map .whole
  | .real => (Binary64.read source).map .real
  | .text => some (.text source)
  | .picky =>
    if source == refusedText then none else (Number.readInteger source).map .whole

inductive Printer where
  | plain
  | angled
  | failing
  deriving DecidableEq, Repr

def Printer.print (printer : Printer) (v : Value) : Except Failure String :=
  match printer with
  | .plain => v.display
  | .angled => do return "<" ++ (← v.display) ++ ">"
  | .failing => .error (.raised "unprintable")

namespace Mixed

abbrev Workbench := Builder Journal Value

/-- A builder with the words of a vocabulary over one type. What is wrong with the settings shows
in the order configuration, cache size, words. -/
def embedded {α : Type} (emb : Embedding α) (config : Except Failure (Config α))
    (book : Except Failure (Wordbook Journal α)) (cacheSize : Setting) :
    Except Failure Workbench := do
  let config ← config
  let _ : Option (Cache (Expression Journal Value)) ← Builder.cacheOf cacheSize
  Builder.make (emb.config config) (emb.wordbook (← book)).vocabulary cacheSize

def real (cacheSize maxDepth : Setting) : Except Failure Workbench :=
  embedded .real (Real.config maxDepth) (.ok Real.wordbook) cacheSize

def decimal (precision rounding cacheSize maxDepth : Setting) : Except Failure Workbench :=
  embedded .decimal (Decimal.config maxDepth) (Decimal.readWordbook precision rounding) cacheSize

def complex (cacheSize maxDepth : Setting) : Except Failure Workbench :=
  embedded .complex (Complex.config maxDepth) (.ok Complex.wordbook) cacheSize

def grid (cacheSize maxDepth : Setting) : Except Failure Workbench :=
  embedded .grid (Grid.library.config maxDepth) (.ok Grid.library.wordbook) cacheSize

def bare (config : Except Failure (Config Value)) (cacheSize : Setting) :
    Except Failure Workbench := do
  Builder.make (← config) Vocabulary.empty cacheSize

end Mixed
end InfixCalc
