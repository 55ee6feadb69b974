import InfixCalc.Arrays.Vocabulary
import InfixCalc.Proofs.Arrays.Shape

/-!
# Laws of array libraries

What is relied on of a library for arrays. Its operations join shapes or refuse them, and take
numbers of every kind but for the sign and the difference of flags. They work cell by cell, and the
kind of a result depends on the kinds of the operands alone.
-/

namespace InfixCalc.ArrayLibrary

variable {A : Type}

/-- Flags have no sign. -/
def Unary.Suits (operation : Unary) (kind : Kind) : Prop := operation = .negative → kind ≠ .flags

/-- Flags have no difference. -/
def Binary.Suits (operation : Binary) (left right : Kind) : Prop :=
  operation = .subtract → left = .flags → right ≠ .flags

/-- The operation gives an array of the shape. -/
def Gives (lib : ArrayLibrary A) (numeric : A → Prop) (shape : List Nat)
    (outcome : Except Fault A) : Prop :=
  ∃ value, outcome = .ok value ∧ numeric value ∧ lib.shape value = shape

/-- The operation refuses the values of its operands. -/
def Refuses {β : Type} (outcome : Except Fault β) : Prop := ∃ text, outcome = .error (.value text)

/-- A library has arrays with this many axes, and may have arrays with more. -/
def leastAxes : Nat := 32

/-- The operations join the shapes of arrays of numbers, and refuse arrays without a common
shape. -/
structure Broadcasts (lib : ArrayLibrary A) (numeric : A → Prop) : Prop where
  ofFloat : ∀ x, numeric (lib.ofFloat x) ∧ lib.shape (lib.ofFloat x) = []
  plain : ∀ x, numeric (lib.plain x) ∧ lib.shape (lib.plain x) = []
  reals : ∀ shape xs, xs.length = Shape.size shape →
    numeric (lib.reals shape xs) ∧ lib.shape (lib.reals shape xs) = shape
  length_items : ∀ a, numeric a → (lib.items a).length = Shape.size (lib.shape a)
  unary : ∀ operation a, numeric a → operation.Suits (lib.kind a) →
    lib.Gives numeric (lib.shape a) (lib.unary operation a)
  negative_flags : ∀ a, numeric a → lib.kind a = .flags →
    lib.unary .negative a = .error .unsuited
  binary : ∀ operation a b shape, numeric a → numeric b →
    operation.Suits (lib.kind a) (lib.kind b) →
    Shape.join? (lib.shape a) (lib.shape b) = some shape →
      lib.Gives numeric shape (lib.binary operation a b)
  binary_apart : ∀ operation a b, numeric a → numeric b →
    operation.Suits (lib.kind a) (lib.kind b) →
    Shape.join? (lib.shape a) (lib.shape b) = none → Refuses (lib.binary operation a b)
  subtract_flags : ∀ a b, numeric a → numeric b → lib.kind a = .flags → lib.kind b = .flags →
    lib.binary .subtract a b = .error .unsuited
  select : ∀ condition a b shape, numeric condition → numeric a → numeric b →
    Shape.joinAll? [lib.shape condition, lib.shape a, lib.shape b] = some shape →
      lib.Gives numeric shape (lib.select condition a b)
  select_apart : ∀ condition a b, numeric condition → numeric a → numeric b →
    Shape.joinAll? [lib.shape condition, lib.shape a, lib.shape b] = none →
      Refuses (lib.select condition a b)
  broadcast : ∀ arrays shape, (∀ a ∈ arrays, numeric a) →
    Shape.joinAll? (arrays.map lib.shape) = some shape →
      ∃ layers, lib.broadcast arrays = .ok layers ∧ layers.length = arrays.length ∧
        ∀ layer ∈ layers, numeric layer ∧ lib.shape layer = shape
  broadcast_apart : ∀ arrays, (∀ a ∈ arrays, numeric a) →
    Shape.joinAll? (arrays.map lib.shape) = none → Refuses (lib.broadcast arrays)
  /-- There may be a limit for the number of axes, and any fault behind it. -/
  stack : ∀ layers shape, layers ≠ [] →
    (∀ layer ∈ layers, numeric layer ∧ lib.shape layer = shape) →
      lib.Gives numeric (layers.length :: shape) (lib.stack layers) ∨
        leastAxes ≤ shape.length ∧ ∃ fault, lib.stack layers = .error fault
  reduce : ∀ reduction a count shape, numeric a → lib.shape a = (count + 1) :: shape →
    lib.Gives numeric shape (lib.reduce reduction a)

/-- The cells of an array, repeated to fill a shape. -/
def spreadItems (lib : ArrayLibrary A) (a : A) (shape : List Nat) : List Item :=
  Shape.spread (lib.shape a) shape (lib.items a)

/-- The operations work cell by cell, and kinds of cells come from kinds of cells. -/
structure Elementwise (lib : ArrayLibrary A) (numeric : A → Prop) : Prop
    extends lib.Broadcasts numeric where
  reals_cells : ∀ shape xs, xs.length = Shape.size shape →
    lib.kind (lib.reals shape xs) = .reals 64 ∧ lib.items (lib.reals shape xs) = xs.map .real
  unary_cells : ∀ operation, ∃ (kind : Kind → Kind) (f : Kind → Item → Item), ∀ a value,
    numeric a → lib.unary operation a = .ok value →
      lib.kind value = kind (lib.kind a) ∧ lib.items value = (lib.items a).map (f (lib.kind a))
  binary_cells : ∀ operation, ∃ (kind : Kind → Kind → Kind) (f : Kind → Kind → Item → Item → Item),
    ∀ a b value, numeric a → numeric b → lib.binary operation a b = .ok value →
      lib.kind value = kind (lib.kind a) (lib.kind b) ∧
      lib.items value = List.zipWith (f (lib.kind a) (lib.kind b))
        (lib.spreadItems a (lib.shape value)) (lib.spreadItems b (lib.shape value))
  select_cells : ∃ (kind : Kind → Kind → Kind) (f : Kind → Kind → Item → Item × Item → Item),
    ∀ condition a b value, numeric condition → numeric a → numeric b →
    lib.select condition a b = .ok value →
      lib.kind value = kind (lib.kind a) (lib.kind b) ∧
      lib.items value = List.zipWith (f (lib.kind a) (lib.kind b))
        (lib.spreadItems condition (lib.shape value))
        ((lib.spreadItems a (lib.shape value)).zip (lib.spreadItems b (lib.shape value)))
  /-- A number from outside may become one of the library. -/
  broadcast_cells : ∃ kind : Kind → Kind, ∀ arrays layers shape, (∀ a ∈ arrays, numeric a) →
    Shape.joinAll? (arrays.map lib.shape) = some shape → lib.broadcast arrays = .ok layers →
      List.Forall₂ (fun a layer => lib.kind layer = kind (lib.kind a) ∧
        lib.items layer = lib.spreadItems a shape) arrays layers
  stack_cells : ∃ (kind : List Kind → Kind) (cast : Kind → Kind → Item → Item), ∀ layers value,
    (∀ layer ∈ layers, numeric layer) → lib.stack layers = .ok value →
      lib.kind value = kind (layers.map lib.kind) ∧
      lib.items value = layers.flatMap fun layer =>
        (lib.items layer).map (cast (lib.kind layer) (lib.kind value))
  /-- The mean of many cells may depend on where they are. -/
  reduce_cells : ∀ reduction, reduction ≠ .mean →
    ∃ (kind : Kind → Kind) (f : Kind → List Item → Item), ∀ a value count shape,
    numeric a → lib.shape a = (count + 1) :: shape → lib.reduce reduction a = .ok value →
      lib.kind value = kind (lib.kind a) ∧
      lib.items value = (List.range (Shape.size shape)).map fun place => f (lib.kind a)
        ((Shape.blocks (Shape.size shape) (count + 1) (lib.items a)).filterMap (·[place]?))
  asArray : ∀ a, numeric a → numeric (lib.asArray a) ∧
    lib.shape (lib.asArray a) = lib.shape a ∧ lib.items (lib.asArray a) = lib.items a
  full : ∀ count a item, numeric a → item ∈ lib.items a → numeric (lib.full count item) ∧
    lib.shape (lib.full count item) = [count] ∧
      lib.items (lib.full count item) = List.replicate count item

end InfixCalc.ArrayLibrary
