import InfixCalc.Arrays.Vocabulary

/-!
# Frames

A frame has labelled columns over an index of rows. An expression is evaluated over all rows at
once: each of its variables that names a column stands for that column. Formulas add columns one
after another, so that later formulas may use the columns of earlier ones.
-/

namespace InfixCalc

/-- A library for frames of type `F`, with columns of type `S` that have arrays in them, indices of
type `I`, and labels of type `K`. -/
structure FrameLibrary (A F S I K : Type) where
  index : F → I
  length : I → Nat
  /-- The columns under a label, of which there may be many. -/
  columns : F → K → List S
  /-- The label that a text is. -/
  label : String → K
  /-- The cells of the columns under one label. -/
  array : List S → A
  /-- A column over an index. -/
  series : A → I → Except Fault S
  values : S → A
  copy : F → F
  /-- The frame with the column in the place of all columns under the label, or as a new one. -/
  insert : F → K → S → F

namespace FrameLibrary

variable {A F S I K σ : Type} (frames : FrameLibrary A F S I K) (lib : ArrayLibrary A)

/-- The cells that a name stands for in a frame. -/
def column? (frame : F) (name : String) : Option A :=
  match frames.columns frame (frames.label name) with
  | [] => none
  | columns => some (frames.array columns)

/-- What the variables of an expression stand for; columns go before other bindings. -/
def bindings (frame : F) (e : Expression σ A) (others : List (String × A)) : List (String × A) :=
  e.variableLabels.filterMap (fun label => (frames.column? frame label).map (label, ·)) ++ others

/-- A value as an array over so many rows: a single number is repeated. -/
def spread (count : Nat) (a : A) : A :=
  match lib.shape (lib.asArray a), lib.items (lib.asArray a) with
  | [], item :: _ => lib.full count item
  | _, _ => lib.asArray a

/-- The column that an expression comes to over a frame. -/
def evaluate (frame : F) (e : Expression σ A) (others : List (String × A)) : Effect σ S := do
  let value ← e.evaluate (frames.bindings frame e others)
  let index := frames.index frame
  require ((frames.series (spread lib (frames.length index) value) index).mapError Fault.failure)

/-- Each formula is built, evaluated over the frame as it is then, and told to the log when its
column has been set. -/
def assignAll (others : List (String × A)) :
    Builder σ A → F → List (String × String) → Effect σ F
  | _, frame, [] => pure frame
  | b, frame, (name, text) :: formulas =>
    let (built, b) := b.build text
    do
      let e ← require built
      let series ← frames.evaluate lib frame e others
      let frame := frames.insert frame (frames.label name) series
      let _ ← require e.written
      assignAll others b frame formulas

/-- A copy of the frame with the columns of the formulas. -/
def assign (frame : F) (b : Builder σ A) (formulas : Entries String) (others : List (String × A)) :
    Effect σ F :=
  frames.assignAll lib others b (frames.copy frame) formulas.toList

end FrameLibrary
end InfixCalc
