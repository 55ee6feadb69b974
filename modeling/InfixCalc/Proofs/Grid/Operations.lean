import InfixCalc.Grid.Library
import InfixCalc.Proofs.Arrays.Laws

/-!
# Operations cell by cell

An operation on grids is told by what it does to single cells of each kind, where cells of two kinds
are first brought to the wider one. The operations on one grid change each cell by itself, and those
on two grids each pair of cells, once the grids have been brought to their common shape. A selection
does so with three grids.
-/

namespace InfixCalc

namespace Item

def holds : Item → Bool
  | .flag b => b
  | .whole n => Int64.ofInt n != 0
  | .real x => x != 0

def toWhole : Item → Int64
  | .flag b => Cells.wholeOfFlag b
  | .whole n => Int64.ofInt n
  | .real x => x.toInt64

end Item

namespace Cells

theorem kind_flags (xs : List Bool) : (flags xs).kind = .flags := rfl

theorem kind_wholes (xs : List Int64) : (wholes xs).kind = .wholes 64 := rfl

theorem kind_reals (xs : List Float) : (reals xs).kind = .reals 64 := rfl

theorem items_flags (xs : List Bool) : (flags xs).items = xs.map .flag := rfl

theorem items_wholes (xs : List Int64) : (wholes xs).items = xs.map fun n => .whole n.toInt := rfl

theorem items_reals (xs : List Float) : (reals xs).items = xs.map .real := rfl

theorem length_items_flags (xs : List Bool) : (flags xs).items.length = xs.length := by
  rw [items_flags, List.length_map]

theorem length_items_wholes (xs : List Int64) : (wholes xs).items.length = xs.length := by
  rw [items_wholes, List.length_map]

theorem length_items_reals (xs : List Float) : (reals xs).items.length = xs.length := by
  rw [items_reals, List.length_map]

theorem toFlags_eq (cells : Cells) : cells.toFlags = cells.items.map Item.holds := by
  cases cells <;> simp [toFlags, items, Item.holds, Function.comp_def]

theorem toWholes_eq (cells : Cells) : cells.toWholes = cells.items.map Item.toWhole := by
  cases cells <;> simp [toWholes, items, Item.toWhole, Function.comp_def]

theorem toReals_eq (cells : Cells) : cells.toReals = cells.items.map Item.toFloat := by
  cases cells with
  | flags xs => simp [toReals, items, Item.toFloat, Function.comp_def, realOfFlag]
  | wholes xs => simp [toReals, items, Item.toFloat, Function.comp_def, realOfWhole]
  | reals xs => simp [toReals, items, Item.toFloat, Function.comp_def]

/-- The kind at which cells of two kinds meet. -/
def meet {β : Type} (flags wholes reals : β) : Kind → Kind → β
  | .flags, .flags => flags
  | .reals _, _ => reals
  | _, .reals _ => reals
  | _, _ => wholes

/-- A cell as a cell of a kind. -/
def cast : Kind → Item → Item
  | .flags, item => .flag item.holds
  | .reals _, item => .real item.toFloat
  | _, item => .whole item.toWhole.toInt

theorem map_cast_flags (items : List Item) :
    items.map (cast .flags) = (items.map Item.holds).map .flag := by
  simp [cast, Function.comp_def]

theorem map_cast_wholes (items : List Item) (bits : Nat) :
    items.map (cast (.wholes bits)) = (items.map Item.toWhole).map (fun n => .whole n.toInt) := by
  simp [cast, Function.comp_def]

theorem map_cast_reals (items : List Item) (bits : Nat) :
    items.map (cast (.reals bits)) = (items.map Item.toFloat).map .real := by
  simp [cast, Function.comp_def]

end Cells

/-- What is done to pairs of cells is done to each pair by itself. -/
structure CellPairs.Cellwise (f : CellPairs → Cells) (kind : Kind → Kind → Kind)
    (cell : Kind → Kind → Item → Item → Item) : Prop where
  kind_of : ∀ xs ys : Cells, (f (.of xs ys)).kind = kind xs.kind ys.kind
  items_of : ∀ xs ys : Cells,
    (f (.of xs ys)).items = List.zipWith (cell xs.kind ys.kind) xs.items ys.items

/-- Functions for pairs of each kind are functions for the kinds at which others meet. -/
theorem CellPairs.cellwise {f : CellPairs → Cells} {narrow middle wide : Kind}
    {onFlags : Bool → Bool → Item} {onWholes : Int64 → Int64 → Item}
    {onReals : Float → Float → Item}
    (flags_of : ∀ xs ys, (f (.flags xs ys)).kind = narrow ∧
      (f (.flags xs ys)).items = xs.zipWith onFlags ys)
    (wholes_of : ∀ xs ys, (f (.wholes xs ys)).kind = middle ∧
      (f (.wholes xs ys)).items = xs.zipWith onWholes ys)
    (reals_of : ∀ xs ys, (f (.reals xs ys)).kind = wide ∧
      (f (.reals xs ys)).items = xs.zipWith onReals ys) :
    CellPairs.Cellwise f (Cells.meet narrow middle wide) (Cells.meet
      (fun x y => onFlags x.holds y.holds) (fun x y => onWholes x.toWhole y.toWhole)
      fun x y => onReals x.toFloat y.toFloat) where
  kind_of xs ys := by
    cases xs <;> cases ys <;>
      simp only [CellPairs.of, flags_of, wholes_of, reals_of, Cells.kind_flags, Cells.kind_wholes,
        Cells.kind_reals, Cells.meet]
  items_of xs ys := by
    cases xs <;> cases ys <;>
      simp only [CellPairs.of, flags_of, wholes_of, reals_of, Cells.kind_flags, Cells.kind_wholes,
        Cells.kind_reals, Cells.meet, Cells.toReals_eq] <;>
      simp [Cells.items, Item.holds, Item.toWhole, List.zipWith_map_left, List.zipWith_map_right]

end InfixCalc

namespace InfixCalc.Grid

open InfixCalc.ArrayLibrary

/-- There is a cell for each place of the shape. -/
def IsFull (g : Grid) : Prop := g.cells.items.length = Shape.size g.shape

variable {g h : Grid} {shape : List Nat}

/- One operand. -/

/-- The operation changes each cell by itself, where it suits the kind of the cells. -/
def Maps (suits : Kind → Prop) (f : Grid → Except Fault Grid) (kind : Kind → Kind)
    (cell : Kind → Item → Item) : Prop :=
  ∀ g : Grid, suits g.cells.kind → ∃ cells, f g = .ok ⟨g.shape, cells⟩ ∧
    cells.kind = kind g.cells.kind ∧ cells.items = g.cells.items.map (cell g.cells.kind)

theorem maps_mapReals (suits : Kind → Prop) (f : Float → Float) :
    Maps suits (.ok ∘ mapReals f) (fun _ => .reals 64) fun _ item => .real (f item.toFloat) := by
  intro g _
  refine ⟨_, rfl, rfl, ?_⟩
  rw [Cells.toReals_eq]
  simp [Cells.items, Function.comp_def]

/-- What the operation does to one item of any kind, if it is told kind by kind. -/
def ofKinds (flags : Bool → Item) (wholes : Int64 → Item) (reals : Float → Item) :
    Kind → Item → Item
  | .flags, item => flags item.holds
  | .reals _, item => reals item.toFloat
  | _, item => wholes item.toWhole

theorem maps_mapRounding (suits : Kind → Prop) (f : Float → Float) :
    Maps suits (.ok ∘ mapRounding f) id
      (ofKinds .flag (fun n => .whole n.toInt) fun x => .real (f x)) := by
  rintro ⟨shape, cells⟩ _
  cases cells <;> exact ⟨_, rfl, rfl, by
    simp [Cells.items, Cells.kind, ofKinds, Item.holds, Item.toWhole, Item.toFloat,
      Function.comp_def]⟩

theorem maps_abs (suits : Kind → Prop) :
    Maps suits (.ok ∘ abs) id
      (ofKinds .flag (fun n => .whole n.abs.toInt) fun x => .real x.abs) := by
  rintro ⟨shape, cells⟩ _
  cases cells <;> exact ⟨_, rfl, rfl, by
    simp [Cells.items, Cells.kind, ofKinds, Item.holds, Item.toWhole, Item.toFloat,
      Function.comp_def]⟩

theorem maps_negate : Maps (· ≠ .flags) negate id
    (ofKinds .flag (fun n => .whole (-n).toInt) fun x => .real (-x)) := by
  rintro ⟨shape, cells⟩ suits
  cases cells with
  | flags xs => exact absurd rfl suits
  | wholes xs => exact ⟨_, rfl, rfl, by
      simp [Cells.items, Cells.kind, ofKinds, Item.toWhole, Function.comp_def]⟩
  | reals xs => exact ⟨_, rfl, rfl, by
      simp [Cells.items, Cells.kind, ofKinds, Item.toFloat, Function.comp_def]⟩

theorem exists_maps_unary (operation : Unary) :
    ∃ kind cell, Maps operation.Suits (unary operation) kind cell := by
  cases operation with
  | negative => exact ⟨_, _, fun g suits => maps_negate g (suits rfl)⟩
  | absolute => exact ⟨_, _, maps_abs _⟩
  | floor => exact ⟨_, _, maps_mapRounding _ _⟩
  | ceil => exact ⟨_, _, maps_mapRounding _ _⟩
  | _ => exact ⟨_, _, maps_mapReals _ _⟩

theorem negate_flags (flags : g.cells.kind = .flags) : negate g = .error .unsuited := by
  obtain ⟨shape, cells⟩ := g
  cases cells with
  | flags xs => rfl
  | wholes xs => cases flags
  | reals xs => cases flags

/- Two operands. -/

theorem kind_spread (g : Grid) (shape : List Nat) : (g.spread shape).kind = g.cells.kind := by
  rw [spread]
  cases g.cells <;> rfl

theorem items_spread (g : Grid) (shape : List Nat) :
    (g.spread shape).items = library.spreadItems g shape := by
  rw [spread, spreadItems]
  change _ = Shape.spread g.shape shape g.cells.items
  cases g.cells <;> simp only [Cells.rearrange, Cells.items, Shape.spread_map]

theorem length_spreadItems (full : g.IsFull) (joined : Shape.join? g.shape shape = some shape) :
    (library.spreadItems g shape).length = Shape.size shape :=
  Shape.length_spread joined full

theorem meet?_eq (g h : Grid) : g.meet? h = (Shape.join? g.shape h.shape).map fun shape =>
    (shape, CellPairs.of (g.spread shape) (h.spread shape)) := by
  cases joined : Shape.join? g.shape h.shape <;> simp [meet?, joined]

/-- The operation joins the shapes and changes each pair of cells by itself, where it suits the
kinds of the cells. -/
structure Pairs (suits : Kind → Kind → Prop) (f : Grid → Grid → Except Fault Grid)
    (kind : Kind → Kind → Kind) (cell : Kind → Kind → Item → Item → Item) : Prop where
  refused : ∀ {g h : Grid}, suits g.cells.kind h.cells.kind →
    Shape.join? g.shape h.shape = none → f g h = .error apart
  given : ∀ {g h : Grid} {shape : List Nat}, suits g.cells.kind h.cells.kind →
    Shape.join? g.shape h.shape = some shape → ∃ cells, f g h = .ok ⟨shape, cells⟩ ∧
      cells.kind = kind g.cells.kind h.cells.kind ∧
      cells.items = List.zipWith (cell g.cells.kind h.cells.kind) (library.spreadItems g shape)
        (library.spreadItems h shape)

theorem pairs_combine {f : CellPairs → Cells} {kind : Kind → Kind → Kind}
    {cell : Kind → Kind → Item → Item → Item} (cellwise : CellPairs.Cellwise f kind cell)
    (suits : Kind → Kind → Prop) : Pairs suits (combine f) kind cell where
  refused := by
    intro g h _ apart
    rw [combine, meet?_eq, apart]
    rfl
  given := by
    intro g h shape _ joined
    refine ⟨f (.of (g.spread shape) (h.spread shape)), ?_, ?_, ?_⟩
    · rw [combine, meet?_eq, joined]
      rfl
    · rw [cellwise.kind_of, kind_spread, kind_spread]
    · rw [cellwise.items_of, kind_spread, kind_spread, items_spread, items_spread]

/-- Functions for pairs of each kind make an operation on grids. -/
theorem exists_pairs_combine {f : CellPairs → Cells} {narrow middle wide : Kind}
    {onFlags : Bool → Bool → Item} {onWholes : Int64 → Int64 → Item}
    {onReals : Float → Float → Item} (suits : Kind → Kind → Prop)
    (flags_of : ∀ xs ys, (f (.flags xs ys)).kind = narrow ∧
      (f (.flags xs ys)).items = xs.zipWith onFlags ys)
    (wholes_of : ∀ xs ys, (f (.wholes xs ys)).kind = middle ∧
      (f (.wholes xs ys)).items = xs.zipWith onWholes ys)
    (reals_of : ∀ xs ys, (f (.reals xs ys)).kind = wide ∧
      (f (.reals xs ys)).items = xs.zipWith onReals ys) :
    ∃ kind cell, Pairs suits (combine f) kind cell :=
  ⟨_, _, pairs_combine (CellPairs.cellwise flags_of wholes_of reals_of) suits⟩

theorem exists_pairs_compare (suits : Kind → Kind → Prop) (c : Comparison) :
    ∃ kind cell, Pairs suits (compare c) kind cell :=
  exists_pairs_combine suits (fun _ _ => ⟨rfl, List.map_zipWith⟩)
    (fun _ _ => ⟨rfl, List.map_zipWith⟩) fun _ _ => ⟨rfl, List.map_zipWith⟩

theorem exists_pairs_add (suits : Kind → Kind → Prop) :
    ∃ kind cell, Pairs suits add kind cell :=
  exists_pairs_combine suits (fun _ _ => ⟨rfl, List.map_zipWith⟩)
    (fun _ _ => ⟨rfl, List.map_zipWith⟩) fun _ _ => ⟨rfl, List.map_zipWith⟩

theorem exists_pairs_mul (suits : Kind → Kind → Prop) :
    ∃ kind cell, Pairs suits mul kind cell :=
  exists_pairs_combine suits (fun _ _ => ⟨rfl, List.map_zipWith⟩)
    (fun _ _ => ⟨rfl, List.map_zipWith⟩) fun _ _ => ⟨rfl, List.map_zipWith⟩

theorem exists_pairs_modulo (suits : Kind → Kind → Prop) :
    ∃ kind cell, Pairs suits modulo kind cell :=
  exists_pairs_combine suits
    (fun _ _ => ⟨rfl, by simp only [Cells.items, List.zipWith_map, List.map_zipWith]; rfl⟩)
    (fun _ _ => ⟨rfl, List.map_zipWith⟩) fun _ _ => ⟨rfl, List.map_zipWith⟩

theorem exists_pairs_combineReals (suits : Kind → Kind → Prop) (f : Float → Float → Float) :
    ∃ kind cell, Pairs suits (combineReals f) kind cell := by
  refine ⟨fun _ _ => .reals 64, fun _ _ x y => .real (f x.toFloat y.toFloat), ?_, ?_⟩
  · intro g h _ apart
    rw [combineReals, apart]
  · intro g h shape _ joined
    refine ⟨.reals ((g.spread shape).toReals.zipWith f (h.spread shape).toReals), ?_, rfl, ?_⟩
    · rw [combineReals, joined]
    · rw [Cells.toReals_eq, Cells.toReals_eq, items_spread, items_spread, Cells.items,
        List.map_zipWith, List.zipWith_map]

theorem sub_flags (left : g.cells.kind = .flags) (right : h.cells.kind = .flags) :
    sub g h = .error .unsuited :=
  if_pos ⟨left, right⟩

/-- Where there are not only flags, the difference is an operation on pairs of cells. -/
theorem exists_pairs_sub : ∃ kind cell, Pairs (Binary.Suits .subtract) sub kind cell := by
  obtain ⟨kind, cell, pairs⟩ : ∃ kind cell,
      Pairs (Binary.Suits .subtract) (combine differences) kind cell :=
    exists_pairs_combine _ (fun _ _ => ⟨rfl, List.map_zipWith⟩)
      (fun _ _ => ⟨rfl, List.map_zipWith⟩) fun _ _ => ⟨rfl, List.map_zipWith⟩
  have same {g h : Grid} (suits : Binary.Suits .subtract g.cells.kind h.cells.kind) :
      sub g h = combine differences g h := if_neg fun flags => suits rfl flags.1 flags.2
  refine ⟨kind, cell, fun suits apart => ?_, fun suits joined => ?_⟩
  · rw [same suits]
    exact pairs.refused suits apart
  · rw [same suits]
    exact pairs.given suits joined

theorem exists_pairs_binary (operation : Binary) :
    ∃ kind cell, Pairs operation.Suits (binary operation) kind cell := by
  cases operation with
  | add => exact exists_pairs_add _
  | subtract => exact exists_pairs_sub
  | multiply => exact exists_pairs_mul _
  | divide => exact exists_pairs_combineReals _ _
  | modulo => exact exists_pairs_modulo _
  | power => exact exists_pairs_combineReals _ _
  | _ => exact exists_pairs_compare _ _

/- The selection. -/

/-- The wider one of two kinds. -/
def wider : Kind → Kind → Kind := Cells.meet .flags (.wholes 64) (.reals 64)

/-- Cells of two kinds are selected at the wider one. -/
theorem items_selected (flags : List Bool) (xs ys : Cells) :
    (selected flags (.of xs ys)).kind = wider xs.kind ys.kind ∧
      (selected flags (.of xs ys)).items = List.zipWith (fun holds pair =>
        Cells.cast (wider xs.kind ys.kind) (if holds then pair.1 else pair.2)) flags
        (xs.items.zip ys.items) := by
  cases xs <;> cases ys <;> refine ⟨rfl, ?_⟩ <;>
    simp only [CellPairs.of, selected, selected.choose, Cells.kind_flags, Cells.kind_wholes,
      Cells.kind_reals, wider, Cells.meet, Cells.toReals, Cells.items, List.map_zipWith,
      List.zip_map_left, List.zip_map_right, List.zipWith_map_right]
  all_goals
    congr
    funext holds pair
    cases holds <;>
      simp [Cells.cast, Item.holds, Item.toWhole, Item.toFloat, Cells.realOfFlag,
        Cells.realOfWhole]

theorem select_refused {condition : Grid}
    (apart_ : Shape.joinAll? [condition.shape, g.shape, h.shape] = none) :
    select condition g h = .error apart := by
  rw [select, apart_]

theorem select_given {condition : Grid}
    (joined : Shape.joinAll? [condition.shape, g.shape, h.shape] = some shape) :
    ∃ cells, select condition g h = .ok ⟨shape, cells⟩ ∧
      cells.kind = wider g.cells.kind h.cells.kind ∧
      cells.items = List.zipWith (fun item pair => Cells.cast (wider g.cells.kind h.cells.kind)
          (if item.holds then pair.1 else pair.2)) (library.spreadItems condition shape)
        ((library.spreadItems g shape).zip (library.spreadItems h shape)) := by
  obtain ⟨kind, items⟩ := items_selected (condition.spread shape).toFlags (g.spread shape)
    (h.spread shape)
  refine ⟨_, by rw [select, joined], ?_, ?_⟩
  · rw [kind, kind_spread, kind_spread]
  · rw [items, kind_spread, kind_spread, items_spread, items_spread, Cells.toFlags_eq,
      items_spread, List.zipWith_map_left]

end InfixCalc.Grid
