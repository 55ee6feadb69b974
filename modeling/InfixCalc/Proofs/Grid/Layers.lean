import InfixCalc.Proofs.Grid.Operations

/-!
# Layers of grids

Grids are brought to one shape and put together as the layers of one grid. The layers are brought
together place by place.
-/

namespace InfixCalc.Grid

open InfixCalc.ArrayLibrary

variable {g : Grid} {shape : List Nat}

theorem items_gather (grids : List Grid) :
    (gather grids).items =
      grids.flatMap fun g => g.cells.items.map (Cells.cast (gather grids).kind) := by
  unfold gather
  split
  · rw [Cells.kind_flags, Cells.items_flags, List.map_flatMap]
    simp only [Cells.map_cast_flags, Cells.toFlags_eq]
  · split
    · rw [Cells.kind_reals, Cells.items_reals, List.map_flatMap]
      simp only [Cells.map_cast_reals, Cells.toReals_eq]
    · rw [Cells.kind_wholes, Cells.items_wholes, List.map_flatMap]
      simp only [Cells.map_cast_wholes, Cells.toWholes_eq]

theorem broadcast_given {grids : List Grid}
    (joined : Shape.joinAll? (grids.map Grid.shape) = some shape) :
    broadcast grids = .ok (grids.map fun g => ⟨shape, g.spread shape⟩) := by
  rw [broadcast, joined]

theorem broadcast_refused {grids : List Grid}
    (joined : Shape.joinAll? (grids.map Grid.shape) = none) :
    broadcast grids = .error apart := by
  rw [broadcast, joined]

theorem stack_given {grids : List Grid} (some_ : grids ≠ [])
    (shapes : ∀ g ∈ grids, g.shape = shape) :
    stack grids = .ok ⟨grids.length :: shape, gather grids⟩ := by
  cases grids with
  | nil => exact absurd rfl some_
  | cons g grids =>
    obtain ⟨rfl, rest⟩ := List.forall_mem_cons.mp shapes
    rw [stack, if_pos (List.all_eq_true.mpr fun h member => decide_eq_true (rest h member))]

/-- The widest of many kinds. -/
def widest (kinds : List Kind) : Kind :=
  if kinds.all (· = .flags) then .flags
  else if kinds.any (· = .reals 64) then .reals 64
  else .wholes 64

theorem kind_gather (grids : List Grid) :
    (gather grids).kind = widest (grids.map fun g => g.cells.kind) := by
  rw [widest, List.all_map, List.any_map, gather]
  simp only [Function.comp_def]
  split
  · rfl
  · split <;> rfl

/-- Values brought together, from the first to the last. -/
def fold {α : Type} (f : α → α → α) (default : α) (xs : List α) : α :=
  xs.tail.foldl f (xs.headD default)

section

variable {α : Type} {f : α → α → α} {layers : List (List α)} {size : Nat}

theorem length_foldl_zipWith {layer : List α} (full : layer.length = size)
    (fullToo : ∀ layer ∈ layers, layer.length = size) :
    (layers.foldl (List.zipWith f) layer).length = size := by
  induction layers generalizing layer with
  | nil => exact full
  | cons next layers ih =>
    obtain ⟨first, rest⟩ := List.forall_mem_cons.mp fullToo
    exact ih (by rw [List.length_zipWith, full, first, Nat.min_self]) rest

theorem getElem?_foldl_zipWith {layer : List α} {place : Nat} {x : α}
    (there : layer[place]? = some x) (small : place < size)
    (full : ∀ layer ∈ layers, layer.length = size) :
    (layers.foldl (List.zipWith f) layer)[place]? =
      some ((layers.filterMap (·[place]?)).foldl f x) := by
  induction layers generalizing layer x with
  | nil => exact there
  | cons next layers ih =>
    obtain ⟨first, rest⟩ := List.forall_mem_cons.mp full
    have thereToo := List.getElem?_eq_getElem (first.symm ▸ small : place < next.length)
    rw [List.foldl_cons, List.filterMap_cons, thereToo]
    refine ih ?_ rest
    rw [List.getElem?_zipWith, there, thereToo]

/-- Layers are brought together place by place. -/
theorem foldLayers_eq (some_ : layers ≠ []) (full : ∀ layer ∈ layers, layer.length = size)
    (default : α) : foldLayers f layers =
      (List.range size).map fun place => fold f default (layers.filterMap (·[place]?)) := by
  cases layers with
  | nil => exact absurd rfl some_
  | cons layer layers =>
    obtain ⟨first, rest⟩ := List.forall_mem_cons.mp full
    refine List.ext_getElem? fun place => ?_
    by_cases small : place < size
    · have there := List.getElem?_eq_getElem (first.symm ▸ small : place < layer.length)
      rw [foldLayers, getElem?_foldl_zipWith there small rest, List.getElem?_map,
        List.getElem?_range small, Option.map_some, List.filterMap_cons, there]
      rfl
    · rw [foldLayers, List.getElem?_eq_none
        (by rw [length_foldl_zipWith first rest]; exact Nat.le_of_not_lt small),
        List.getElem?_eq_none (by simpa using small)]

/-- What layers of cells of one kind come to, as items. -/
theorem map_foldLayers (wrap : α → Item) (unwrap : Item → α)
    (inverse : ∀ x, unwrap (wrap x) = x) (default : α) {count : Nat} {xs : List α}
    (full : xs.length = (count + 1) * size) :
    (foldLayers f (Shape.blocks size (count + 1) xs)).map wrap =
      (List.range size).map fun place => wrap (fold f default
        (((Shape.blocks size (count + 1) (xs.map wrap)).filterMap (·[place]?)).map unwrap)) := by
  have cells (place : Nat) :
      ((Shape.blocks size (count + 1) (xs.map wrap)).filterMap (·[place]?)).map unwrap =
        (Shape.blocks size (count + 1) xs).filterMap (·[place]?) := by
    rw [Shape.blocks_map, List.filterMap_map, List.map_filterMap]
    refine List.filterMap_congr fun block _ => ?_
    cases there : block[place]? <;> simp [there, inverse]
  have some_ : Shape.blocks size (count + 1) xs ≠ [] := List.cons_ne_nil _ _
  simp only [cells]
  rw [foldLayers_eq some_ (fun block member => Shape.length_of_mem_blocks full member) default,
    List.map_map]
  rfl

end

/-- Items of one place, brought together in the way for their kind. -/
def foldItems (flags : Bool → Bool → Bool) (wholes : Int64 → Int64 → Int64)
    (reals : Float → Float → Float) : Kind → List Item → Item
  | .flags, items => .flag (fold flags false (items.map Item.holds))
  | .reals _, items => .real (fold reals 0 (items.map Item.toFloat))
  | _, items => .whole (fold wholes 0 (items.map Item.toWhole)).toInt

section

variable {size count : Nat} {cells : Cells}

theorem items_reduceCells (flags : Bool → Bool → Bool) (wholes : Int64 → Int64 → Int64)
    (reals : Float → Float → Float) (full : cells.items.length = (count + 1) * size) :
    (reduceCells flags wholes reals size (count + 1) cells).kind = cells.kind ∧
      (reduceCells flags wholes reals size (count + 1) cells).items =
        (List.range size).map fun place => foldItems flags wholes reals cells.kind
          ((Shape.blocks size (count + 1) cells.items).filterMap (·[place]?)) := by
  cases cells with
  | flags xs =>
    rw [Cells.length_items_flags] at full
    exact ⟨rfl, map_foldLayers .flag Item.holds (fun _ => rfl) false full⟩
  | wholes xs =>
    rw [Cells.length_items_wholes] at full
    exact ⟨rfl, map_foldLayers (fun n : Int64 => .whole n.toInt) Item.toWhole
      (fun n => Int64.ofInt_toInt n) 0 full⟩
  | reals xs =>
    rw [Cells.length_items_reals] at full
    exact ⟨rfl, map_foldLayers .real Item.toFloat (fun _ => rfl) 0 full⟩

/-- There is one cell for each place of the layers. -/
theorem length_items_reduceTo (reduction : Reduction)
    (full : cells.items.length = (count + 1) * size) :
    (reduceTo reduction size (count + 1) cells).items.length = size := by
  cases reduction with
  | max =>
    rw [reduceTo, (items_reduceCells _ _ _ full).2, List.length_map, List.length_range]
  | min =>
    rw [reduceTo, (items_reduceCells _ _ _ full).2, List.length_map, List.length_range]
  | mean =>
    have layers : Shape.blocks size (count + 1) cells.toReals ≠ [] := List.cons_ne_nil _ _
    have each : ∀ layer ∈ Shape.blocks size (count + 1) cells.toReals, layer.length = size :=
      fun layer member => Shape.length_of_mem_blocks (by
        rw [Cells.toReals_eq, List.length_map, full]) member
    rw [reduceTo, Cells.length_items_reals, List.length_map, foldLayers_eq layers each 0,
      List.length_map, List.length_range]

theorem exists_reduces {reduction : Reduction} (other : reduction ≠ .mean) :
    ∃ f : Kind → List Item → Item, ∀ {cells : Cells} {size count : Nat},
      cells.items.length = (count + 1) * size →
        (reduceTo reduction size (count + 1) cells).kind = cells.kind ∧
        (reduceTo reduction size (count + 1) cells).items = (List.range size).map fun place =>
          f cells.kind ((Shape.blocks size (count + 1) cells.items).filterMap (·[place]?)) := by
  cases reduction with
  | max => exact ⟨_, items_reduceCells _ _ _⟩
  | min => exact ⟨_, items_reduceCells _ _ _⟩
  | mean => exact absurd rfl other

end

theorem reduce_eq (reduction : Reduction) {count : Nat} (layered : g.shape = count :: shape) :
    reduce reduction g = .ok ⟨shape, reduceTo reduction (Shape.size shape) count g.cells⟩ := by
  rw [reduce, layered]

end InfixCalc.Grid
