import InfixCalc.Proofs.Arrays.Laws
import InfixCalc.Proofs.Outcome

/-!
# Rows

Over some rows an array is a single number or a column with one cell for each row. In a row stands a
single number for it, with its cell of that row. The operations of a library that work cell by cell
give, for what stands in a row for their operands, what stands there for what they give.
-/

namespace InfixCalc

/- Lists. -/

/-- The element at a place alone. -/
def only {α : Type} (i : Nat) (xs : List α) : List α := xs[i]?.toList

/-- What a row has of cells along the axes of a shape: without axes they are the same in all
rows. -/
def pick {α : Type} (shape : List Nat) (i : Nat) (xs : List α) : List α :=
  if shape = [] then xs else only i xs

section

variable {α β γ : Type} (shape : List Nat) (i : Nat)

theorem only_map (f : α → β) (xs : List α) : only i (xs.map f) = (only i xs).map f := by
  rw [only, only, List.getElem?_map]
  cases xs[i]? <;> rfl

theorem only_zipWith (f : α → β → γ) (xs : List α) (ys : List β) :
    only i (xs.zipWith f ys) = (only i xs).zipWith f (only i ys) := by
  rw [only, only, only, List.getElem?_zipWith]
  cases xs[i]? <;> cases ys[i]? <;> rfl

theorem only_forall₂ {R : α → β → Prop} {xs : List α} {ys : List β}
    (related : List.Forall₂ R xs ys) : List.Forall₂ R (only i xs) (only i ys) := by
  induction related generalizing i with
  | nil => exact .nil
  | cons first _ ih =>
    cases i with
    | zero => exact .cons first .nil
    | succ i => exact ih i

theorem mapM_pick {ε : Type} {f g : α → Except ε β} (same : ∀ x y, f x = .ok y → g x = .ok y)
    {shape : List Nat} {i : Nat} {xs : List α} {ys : List β} (came : xs.mapM f = .ok ys) :
    (pick shape i xs).mapM g = .ok (pick shape i ys) := by
  have related := (mapM_eq_ok_iff.mp came).imp same
  refine mapM_eq_ok_iff.mpr ?_
  rw [pick, pick]
  split
  · exact related
  · exact only_forall₂ i related

theorem pick_map (f : α → β) (xs : List α) : pick shape i (xs.map f) = (pick shape i xs).map f := by
  rw [pick, pick]
  split
  · rfl
  · exact only_map i f xs

theorem pick_zipWith (f : α → β → γ) (xs : List α) (ys : List β) :
    pick shape i (xs.zipWith f ys) = (pick shape i xs).zipWith f (pick shape i ys) := by
  rw [pick, pick, pick]
  split
  · rfl
  · exact only_zipWith i f xs ys

/-- The place that a row has among the cells along the axes of a shape. -/
def placeOf (shape : List Nat) (i : Nat) : Nat := if shape = [] then 0 else i

theorem getElem?_pick (xs : List α) : (pick shape i xs)[0]? = xs[placeOf shape i]? := by
  rw [pick, placeOf]
  split
  · rfl
  · rw [only]
    cases xs[i]? <;> rfl

theorem pick_eq_singleton {shape : List Nat} {i : Nat} {xs : List α} {x : α}
    (there : xs[placeOf shape i]? = some x) (single : shape = [] → xs.length = 1) :
    pick shape i xs = [x] := by
  rw [placeOf] at there
  rw [pick]
  split at there
  · rename_i none_
    obtain ⟨y, rfl⟩ := List.length_eq_one_iff.mp (single none_)
    rw [if_pos none_]
    simpa using there
  · rename_i some_
    rw [if_neg some_, only, there]
    rfl

theorem pick_zip (xs : List α) (ys : List β) :
    pick shape i (xs.zip ys) = (pick shape i xs).zip (pick shape i ys) :=
  pick_zipWith shape i Prod.mk xs ys

end

theorem Fault.adapted_eq_ok_iff {α : Type} {outcome : Except Fault α} {value : α} :
    Fault.adapted outcome = .ok value ↔ outcome = .ok value := by
  cases outcome <;> simp [Fault.adapted, Except.mapError]

namespace ArrayLibrary

variable {A : Type}

/-- The array is a single number or a column of so many cells. -/
structure Fits (lib : ArrayLibrary A) (numeric : A → Prop) (count : Nat) (a : A) : Prop where
  numeric : numeric a
  shape : lib.shape a = [] ∨ lib.shape a = [count]

/-- What a row has of the cells of an array. -/
def itemsAt (lib : ArrayLibrary A) (i : Nat) (a : A) : List Item :=
  pick (lib.shape a) i (lib.items a)

/-- The second array is a single number that stands in a row for the first one: it has the cell of
that row, and is of the same kind. -/
structure IsRow (lib : ArrayLibrary A) (numeric : A → Prop) (i : Nat) (a row : A) : Prop where
  numeric : numeric row
  shape : lib.shape row = []
  kind : lib.kind row = lib.kind a
  items : lib.items row = lib.itemsAt i a

/-- The array fits so many rows, and in one of them the second one stands for it. -/
structure HasRow (lib : ArrayLibrary A) (numeric : A → Prop) (count i : Nat) (a row : A) :
    Prop where
  fits : lib.Fits numeric count a
  row : lib.IsRow numeric i a row

variable {lib : ArrayLibrary A} {numeric : A → Prop} {count i : Nat} {a b row other : A}

/-- A single number stands for itself. -/
theorem hasRow_self (given : numeric a) (single : lib.shape a = []) :
    lib.HasRow numeric count i a a := by
  refine ⟨⟨given, .inl single⟩, given, single, rfl, ?_⟩
  rw [itemsAt, pick, if_pos single]

theorem IsRow.spreadItems (isRow : lib.IsRow numeric i a row) :
    lib.spreadItems row [] = lib.itemsAt i a := by
  rw [ArrayLibrary.spreadItems, isRow.shape, isRow.items]
  rfl

/-- The shape has no axes, and the array has none, or there is one along the rows. -/
def Reaches (lib : ArrayLibrary A) (count : Nat) (a : A) (shape : List Nat) : Prop :=
  shape = [] ∧ lib.shape a = [] ∨ shape = [count]

theorem Fits.join (fits : lib.Fits numeric count a) (fitsToo : lib.Fits numeric count b) :
    ∃ shape, Shape.join? (lib.shape a) (lib.shape b) = some shape ∧ lib.Reaches count a shape ∧
      lib.Reaches count b shape := by
  rcases fitsToo.shape with single | column
  · rcases fits.shape with singleToo | columnToo
    · exact ⟨[], by rw [single, singleToo]; rfl, .inl ⟨rfl, singleToo⟩, .inl ⟨rfl, single⟩⟩
    · exact ⟨[count], by rw [single, columnToo, Shape.join?_comm, Shape.join?_nil], .inr rfl,
        .inr rfl⟩
  · refine ⟨[count], ?_, .inr rfl, .inr rfl⟩
    rcases fits.shape with singleToo | columnToo
    · rw [column, singleToo, Shape.join?_nil]
    · rw [column, columnToo, Shape.join?_self]

theorem Fits.joinAll {condition : A} (fits : lib.Fits numeric count condition)
    (fitsLeft : lib.Fits numeric count a) (fitsRight : lib.Fits numeric count b) :
    ∃ shape, Shape.joinAll? [lib.shape condition, lib.shape a, lib.shape b] = some shape ∧
      lib.Reaches count condition shape ∧ lib.Reaches count a shape ∧
      lib.Reaches count b shape := by
  obtain ⟨shape, joined, reachesLeft, reachesRight⟩ := fitsLeft.join fitsRight
  rw [Shape.joinAll?_three, joined, Option.bind_some]
  rcases reachesLeft with ⟨rfl, left⟩ | rfl
  · rcases fits.shape with single | column
    · exact ⟨[], by rw [single]; rfl, .inl ⟨rfl, single⟩, .inl ⟨rfl, left⟩, reachesRight⟩
    · exact ⟨[count], by rw [column, Shape.join?_comm, Shape.join?_nil], .inr rfl, .inr rfl,
        .inr rfl⟩
  · refine ⟨[count], ?_, .inr rfl, .inr rfl, .inr rfl⟩
    rcases fits.shape with single | column
    · rw [single, Shape.join?_nil]
    · rw [column, Shape.join?_self]

theorem Reaches.fits {shape : List Nat} (reaches : lib.Reaches count a shape) :
    shape = [] ∨ shape = [count] :=
  reaches.imp_left And.left

section

variable (elementwise : lib.Elementwise numeric)
include elementwise

/-- Brought to the shape of the rows, an array has in each row what the row has of it. -/
theorem Fits.pick_spreadItems (fits : lib.Fits numeric count a) (small : i < count)
    {shape : List Nat} (reaches : lib.Reaches count a shape) :
    pick shape i (lib.spreadItems a shape) = lib.itemsAt i a := by
  have length := elementwise.length_items a fits.numeric
  rcases reaches with ⟨rfl, single⟩ | rfl
  · rw [itemsAt, spreadItems, single]
    rfl
  · rw [itemsAt, spreadItems, pick, if_neg (List.cons_ne_nil _ _)]
    rcases fits.shape with single | column
    · rw [single] at length ⊢
      obtain ⟨x, items⟩ := List.length_eq_one_iff.mp length
      rw [items, Shape.spread_singleton, pick, if_pos rfl, only,
        List.getElem?_replicate_of_lt small]
      rfl
    · rw [column] at length ⊢
      rw [Shape.spread_column (length.trans (Nat.mul_one count)), pick,
        if_neg (List.cons_ne_nil _ _)]

/- Operations. -/

theorem unary_row {operation : Unary} (hasRow : lib.HasRow numeric count i a row) {value : A}
    (came : lib.unary operation a = .ok value) :
    ∃ image, lib.unary operation row = .ok image ∧ lib.HasRow numeric count i value image := by
  obtain ⟨kind, f, cells⟩ := elementwise.unary_cells operation
  obtain ⟨fits, isRow⟩ := hasRow
  have suits : operation.Suits (lib.kind a) := by
    rintro rfl flags
    rw [elementwise.negative_flags a fits.numeric flags] at came
    cases came
  obtain ⟨_, made, holds, shape⟩ := elementwise.unary operation a fits.numeric suits
  cases came.symm.trans made
  obtain ⟨image, imaged, number, shapeToo⟩ :=
    elementwise.unary operation row isRow.numeric (isRow.kind ▸ suits)
  obtain ⟨kinds, items⟩ := cells a value fits.numeric came
  obtain ⟨kindsToo, itemsToo⟩ := cells row image isRow.numeric imaged
  refine ⟨image, imaged, ⟨holds, shape ▸ fits.shape⟩, number, shapeToo.trans isRow.shape, ?_, ?_⟩
  · rw [kindsToo, kinds, isRow.kind]
  · rw [itemsToo, isRow.items, isRow.kind, itemsAt, itemsAt, items, shape, pick_map]

theorem binary_row (small : i < count) {operation : Binary}
    (hasRow : lib.HasRow numeric count i a row) (hasRowToo : lib.HasRow numeric count i b other)
    {value : A} (came : lib.binary operation a b = .ok value) :
    ∃ image, lib.binary operation row other = .ok image ∧
      lib.HasRow numeric count i value image := by
  obtain ⟨kind, f, cells⟩ := elementwise.binary_cells operation
  obtain ⟨fits, isRow⟩ := hasRow
  obtain ⟨fitsToo, isRowToo⟩ := hasRowToo
  have suits : operation.Suits (lib.kind a) (lib.kind b) := by
    rintro rfl left right
    rw [elementwise.subtract_flags a b fits.numeric fitsToo.numeric left right] at came
    cases came
  obtain ⟨shape, joined, reaches, reachesToo⟩ := fits.join fitsToo
  obtain ⟨_, made, holds, rfl⟩ :=
    elementwise.binary operation a b shape fits.numeric fitsToo.numeric suits joined
  cases came.symm.trans made
  have joinedToo : Shape.join? (lib.shape row) (lib.shape other) = some [] := by
    rw [isRow.shape, isRowToo.shape]
    rfl
  obtain ⟨image, imaged, number, single⟩ := elementwise.binary operation row other [] isRow.numeric
    isRowToo.numeric (isRow.kind ▸ isRowToo.kind ▸ suits) joinedToo
  obtain ⟨kinds, items⟩ := cells a b value fits.numeric fitsToo.numeric came
  obtain ⟨kindsToo, itemsToo⟩ := cells row other image isRow.numeric isRowToo.numeric imaged
  refine ⟨image, imaged, ⟨holds, reaches.fits⟩, number, single, ?_, ?_⟩
  · rw [kindsToo, kinds, isRow.kind, isRowToo.kind]
  · calc lib.items image
      _ = List.zipWith (f (lib.kind a) (lib.kind b)) (lib.itemsAt i a) (lib.itemsAt i b) := by
        rw [itemsToo, single, isRow.spreadItems, isRowToo.spreadItems, isRow.kind, isRowToo.kind]
      _ = pick (lib.shape value) i (lib.items value) := by
        rw [items, pick_zipWith, fits.pick_spreadItems elementwise small reaches,
          fitsToo.pick_spreadItems elementwise small reachesToo]

theorem select_row (small : i < count) {condition flag : A}
    (hasFlag : lib.HasRow numeric count i condition flag)
    (hasRow : lib.HasRow numeric count i a row) (hasRowToo : lib.HasRow numeric count i b other)
    {value : A} (came : lib.select condition a b = .ok value) :
    ∃ image, lib.select flag row other = .ok image ∧
      lib.HasRow numeric count i value image := by
  obtain ⟨kind, f, cells⟩ := elementwise.select_cells
  obtain ⟨fitsFlag, isFlag⟩ := hasFlag
  obtain ⟨fits, isRow⟩ := hasRow
  obtain ⟨fitsToo, isRowToo⟩ := hasRowToo
  obtain ⟨shape, joined, reachesFlag, reaches, reachesToo⟩ := fitsFlag.joinAll fits fitsToo
  obtain ⟨_, made, holds, rfl⟩ := elementwise.select condition a b shape fitsFlag.numeric
    fits.numeric fitsToo.numeric joined
  cases came.symm.trans made
  have joinedToo : Shape.joinAll? [lib.shape flag, lib.shape row, lib.shape other] = some [] := by
    rw [isFlag.shape, isRow.shape, isRowToo.shape]
    rfl
  obtain ⟨image, imaged, number, single⟩ := elementwise.select flag row other [] isFlag.numeric
    isRow.numeric isRowToo.numeric joinedToo
  obtain ⟨kinds, items⟩ :=
    cells condition a b value fitsFlag.numeric fits.numeric fitsToo.numeric came
  obtain ⟨kindsToo, itemsToo⟩ :=
    cells flag row other image isFlag.numeric isRow.numeric isRowToo.numeric imaged
  refine ⟨image, imaged, ⟨holds, reaches.fits⟩, number, single, ?_, ?_⟩
  · rw [kindsToo, kinds, isRow.kind, isRowToo.kind]
  · calc lib.items image
      _ = List.zipWith (f (lib.kind a) (lib.kind b)) (lib.itemsAt i condition)
          ((lib.itemsAt i a).zip (lib.itemsAt i b)) := by
        rw [itemsToo, single, isFlag.spreadItems, isRow.spreadItems, isRowToo.spreadItems,
          isRow.kind, isRowToo.kind]
      _ = pick (lib.shape value) i (lib.items value) := by
        rw [items, pick_zipWith, pick_zip, fitsFlag.pick_spreadItems elementwise small reachesFlag,
          fits.pick_spreadItems elementwise small reaches,
          fitsToo.pick_spreadItems elementwise small reachesToo]

end

end ArrayLibrary
end InfixCalc
