import InfixCalc.Proofs.Arrays.Rows

/-!
# Rows of layers

Arrays over some rows are brought to one shape, put together as layers, and the layers are brought
together again. In a row this gives what it gives for what stands there for the arrays.
-/

namespace InfixCalc.ArrayLibrary

variable {A : Type} {lib : ArrayLibrary A} {numeric : A → Prop} {count i : Nat}
  {arrays rows : List A}

/-- Arrays over the rows have a common shape, and reach it. -/
theorem exists_joinAll (fits : ∀ a ∈ arrays, lib.Fits numeric count a) :
    ∃ shape, Shape.joinAll? (arrays.map lib.shape) = some shape ∧
      ∀ a ∈ arrays, lib.Reaches count a shape := by
  have run (start : List Nat) (arrays : List A) (fits : ∀ a ∈ arrays, lib.Fits numeric count a)
      (begins : start = [] ∨ start = [count]) :
      ∃ shape, (arrays.map lib.shape).foldlM Shape.join? start = some shape ∧
        (shape = [] ∧ start = [] ∨ shape = [count]) ∧ ∀ a ∈ arrays, lib.Reaches count a shape := by
    induction arrays generalizing start with
    | nil => exact ⟨start, rfl, begins.imp_left fun same => ⟨same, same⟩, List.forall_mem_nil _⟩
    | cons a arrays ih =>
      obtain ⟨first, rest⟩ := List.forall_mem_cons.mp fits
      obtain ⟨next, joined, goes⟩ : ∃ next, Shape.join? start (lib.shape a) = some next ∧
          (next = [] ∧ start = [] ∧ lib.shape a = [] ∨ next = [count]) := by
        rcases begins with rfl | rfl
        · rcases first.shape with single | column
          · exact ⟨[], by rw [single]; rfl, .inl ⟨rfl, rfl, single⟩⟩
          · exact ⟨[count], by rw [column, Shape.join?_nil], .inr rfl⟩
        · refine ⟨[count], ?_, .inr rfl⟩
          rcases first.shape with single | column
          · rw [single, Shape.join?_comm, Shape.join?_nil]
          · rw [column, Shape.join?_self]
      obtain ⟨shape, came, ends, each⟩ := ih next rest (goes.imp_left And.left)
      refine ⟨shape, ?_, ?_, List.forall_mem_cons.mpr ⟨?_, each⟩⟩
      · rw [List.map_cons, List.foldlM_cons, joined]
        exact came
      · refine ends.imp_left fun ⟨last, same⟩ => ⟨last, ?_⟩
        exact (goes.resolve_right (same ▸ (List.cons_ne_nil _ _).symm)).2.1
      · refine ends.imp_left fun ⟨last, same⟩ => ⟨last, ?_⟩
        exact (goes.resolve_right (same ▸ (List.cons_ne_nil _ _).symm)).2.2
  obtain ⟨shape, came, _, each⟩ := run [] arrays fits (.inl rfl)
  exact ⟨shape, came, each⟩

/-- A layer has the cells of the array, repeated to the shape, at the kind that the library takes
for layers of such arrays. -/
def Covers (lib : ArrayLibrary A) (kind : Kind → Kind) (shape : List Nat) (a layer : A) : Prop :=
  lib.kind layer = kind (lib.kind a) ∧ lib.items layer = lib.spreadItems a shape

variable (elementwise : lib.Elementwise numeric)
include elementwise

/-- Arrays are brought to the shape that they have in common, as layers. -/
theorem exists_layers : ∃ kind : Kind → Kind, ∀ {arrays : List A} {shape : List Nat},
    (∀ a ∈ arrays, numeric a) → Shape.joinAll? (arrays.map lib.shape) = some shape →
      ∃ layers, lib.broadcast arrays = .ok layers ∧
        (∀ layer ∈ layers, numeric layer ∧ lib.shape layer = shape) ∧
        List.Forall₂ (lib.Covers kind shape) arrays layers := by
  obtain ⟨kind, spreads⟩ := elementwise.broadcast_cells
  refine ⟨kind, fun {arrays shape} given joined => ?_⟩
  obtain ⟨layers, came, _, each⟩ := elementwise.broadcast arrays shape given joined
  exact ⟨layers, came, each, spreads arrays layers shape given joined came⟩

/-- Layers with at most one axis are put together and brought together again, place by place. -/
theorem exists_brought {reduction : Reduction} (other : reduction ≠ .mean) :
    ∃ (kind : List Kind → Kind) (cell : List Kind → List (Option Item) → Item),
      ∀ {layers : List A} {common : List Nat}, layers ≠ [] → common.length ≤ 1 →
        (∀ layer ∈ layers, numeric layer ∧ lib.shape layer = common) →
        ∃ stacked value, lib.stack layers = .ok stacked ∧
          lib.reduce reduction stacked = .ok value ∧ numeric value ∧ lib.shape value = common ∧
          lib.kind value = kind (layers.map lib.kind) ∧
          ∀ place < Shape.size common, (lib.items value)[place]? =
            some (cell (layers.map lib.kind)
              (layers.map fun layer => (lib.items layer)[place]?)) := by
  obtain ⟨kindOf, cast, piles⟩ := elementwise.stack_cells
  obtain ⟨kindTo, f, reduces⟩ := elementwise.reduce_cells reduction other
  refine ⟨fun kinds => kindTo (kindOf kinds), fun kinds cells => f (kindOf kinds)
    ((kinds.zip cells).filterMap fun (kind, cell) => cell.map (cast kind (kindOf kinds))), ?_⟩
  intro layers common some_ flat each
  obtain ⟨stacked, piled, holds, shaped⟩ :=
    (elementwise.stack layers common some_ each).resolve_right
    fun never => absurd (Nat.le_trans never.1 flat) (by decide)
  obtain ⟨more, length⟩ := Nat.exists_eq_add_one.mpr (List.length_pos_iff.mpr some_)
  rw [length] at shaped
  obtain ⟨value, came, numbers, shape⟩ :=
    elementwise.reduce reduction stacked more common holds shaped
  obtain ⟨kinds, items⟩ := piles layers stacked (fun layer member => (each layer member).1) piled
  obtain ⟨kind, cells⟩ := reduces stacked value more common holds shaped came
  refine ⟨stacked, value, piled, came, numbers, shape, kind.trans (congrArg kindTo kinds),
    fun place small => ?_⟩
  -- The blocks of the pile are the layers, each at the kind of the pile.
  have full : ∀ block ∈ layers.map (fun layer =>
      (lib.items layer).map (cast (lib.kind layer) (lib.kind stacked))),
      block.length = Shape.size common := by
    refine List.forall_mem_map.mpr fun layer member => ?_
    obtain ⟨given, rfl⟩ := each layer member
    rw [List.length_map, elementwise.length_items layer given]
  have blocks : Shape.blocks (Shape.size common) (more + 1) (lib.items stacked) =
      layers.map fun layer => (lib.items layer).map (cast (lib.kind layer) (lib.kind stacked)) := by
    have whole := Shape.blocks_flatten full
    rwa [List.length_map, length, ← List.flatMap_def, ← items] at whole
  rw [cells, List.getElem?_map, List.getElem?_range small, Option.map_some, blocks,
    List.filterMap_map]
  beta_reduce
  rw [List.zip_map', List.filterMap_map, kinds]
  simp only [Function.comp_def, List.getElem?_map]

/-- In a row, the layers have the cells of what stands there for the arrays. -/
theorem places_of_layers (small : i < count) {kind : Kind → Kind} {common : List Nat}
    {layers single : List A} (hasRows : List.Forall₂ (lib.HasRow numeric count i) arrays rows)
    (reaches : ∀ a ∈ arrays, lib.Reaches count a common)
    (cells : List.Forall₂ (lib.Covers kind common) arrays layers)
    (cellsToo : List.Forall₂ (lib.Covers kind []) rows single) :
    single.map lib.kind = layers.map lib.kind ∧
      (single.map fun layer => (lib.items layer)[0]?) =
        layers.map fun layer => (lib.items layer)[placeOf common i]? := by
  induction hasRows generalizing layers single with
  | nil =>
    cases cells
    cases cellsToo
    exact ⟨rfl, rfl⟩
  | @cons a _ _ _ hasRow _ ih =>
    obtain ⟨first, rest⟩ := List.forall_mem_cons.mp reaches
    cases cells with
    | cons here cells =>
      cases cellsToo with
      | cons hereToo cellsToo =>
        obtain ⟨kinds, places⟩ := ih rest cells cellsToo
        have same := hereToo.1.trans ((congrArg kind hasRow.row.kind).trans here.1.symm)
        have place := getElem?_pick common i (lib.spreadItems a common)
        rw [hasRow.fits.pick_spreadItems elementwise small first, ← hasRow.row.spreadItems,
          ← hereToo.2, ← here.2] at place
        exact ⟨List.cons_eq_cons.mpr ⟨same, kinds⟩, List.cons_eq_cons.mpr ⟨place, places⟩⟩

omit elementwise in
theorem fits_of_hasRows (hasRows : List.Forall₂ (lib.HasRow numeric count i) arrays rows) :
    (∀ a ∈ arrays, lib.Fits numeric count a) ∧
      ∀ row ∈ rows, numeric row ∧ lib.shape row = [] := by
  induction hasRows with
  | nil => exact ⟨List.forall_mem_nil _, List.forall_mem_nil _⟩
  | cons hasRow _ ih =>
    exact ⟨List.forall_mem_cons.mpr ⟨hasRow.fits, ih.1⟩,
      List.forall_mem_cons.mpr ⟨⟨hasRow.row.numeric, hasRow.row.shape⟩, ih.2⟩⟩

omit elementwise in
theorem joinAll?_singles (single : ∀ row ∈ rows, lib.shape row = []) :
    Shape.joinAll? (rows.map lib.shape) = some [] := by
  induction rows with
  | nil => rfl
  | cons row rows ih =>
    obtain ⟨first, rest⟩ := List.forall_mem_cons.mp single
    rw [List.map_cons, Shape.joinAll?_cons, first]
    exact ih rest

/-- Arrays that are piled up and brought together give in each row what stands there for them. -/
theorem reduce_row (small : i < count) {reduction : Reduction} (other : reduction ≠ .mean)
    (some_ : arrays ≠ []) (hasRows : List.Forall₂ (lib.HasRow numeric count i) arrays rows)
    {layers : List A} {stacked value : A} (spread : lib.broadcast arrays = .ok layers)
    (piled : lib.stack layers = .ok stacked) (came : lib.reduce reduction stacked = .ok value) :
    ∃ single below image, lib.broadcast rows = .ok single ∧ lib.stack single = .ok below ∧
      lib.reduce reduction below = .ok image ∧ lib.HasRow numeric count i value image := by
  obtain ⟨kind, cell, brought⟩ := exists_brought elementwise other
  obtain ⟨_, layered⟩ := exists_layers elementwise
  obtain ⟨fits, singles⟩ := fits_of_hasRows hasRows
  -- The layers of the arrays have a common shape, and those of the row have no axes.
  obtain ⟨common, joined, reaches⟩ := exists_joinAll fits
  obtain ⟨_, spreads, each, cells⟩ := layered (fun a member => (fits a member).numeric) joined
  cases spread.symm.trans spreads
  obtain ⟨single, spreadToo, eachToo, cellsToo⟩ := layered
    (fun row member => (singles row member).1)
    (joinAll?_singles fun row member => (singles row member).2)
  obtain ⟨kinds, places⟩ :=
    places_of_layers elementwise small hasRows reaches cells cellsToo
  have filled : layers ≠ [] := fun none_ => some_ (List.eq_nil_of_length_eq_zero
    (cells.length_eq.trans (congrArg List.length none_)))
  have filledToo : single ≠ [] := fun none_ => filled (List.map_eq_nil_iff.mp
    (kinds.symm.trans (congrArg _ none_)))
  have narrow : common = [] ∨ common = [count] := by
    obtain ⟨a, member⟩ := List.exists_mem_of_ne_nil _ some_
    exact (reaches a member).fits
  have flat : common.length ≤ 1 := by rcases narrow with rfl | rfl <;> simp
  have inside : placeOf common i < Shape.size common := by
    rcases narrow with rfl | rfl
    · exact Nat.one_pos
    · simpa [placeOf, Shape.size] using small
  obtain ⟨_, _, piled', came', numbers, shape, kind_, at_⟩ := brought filled flat each
  cases piled.symm.trans piled'
  cases came.symm.trans came'
  have flatToo : ([] : List Nat).length ≤ 1 := Nat.zero_le 1
  obtain ⟨below, image, piledToo, cameToo, number, shapeToo, kindToo, atToo⟩ :=
    brought filledToo flatToo eachToo
  refine ⟨single, below, image, spreadToo, piledToo, cameToo, ⟨numbers, shape ▸ narrow⟩, number,
    shapeToo, by rw [kindToo, kind_, kinds], ?_⟩
  have same := atToo 0 Nat.one_pos
  rw [kinds, places, ← at_ _ inside] at same
  have length := elementwise.length_items value numbers
  rw [shape] at length
  have lengthToo := elementwise.length_items image number
  rw [shapeToo] at lengthToo
  obtain ⟨x, items⟩ := List.length_eq_one_iff.mp lengthToo
  rw [items] at same
  rw [items, itemsAt, shape, pick_eq_singleton same.symm fun none_ => by rw [length, none_]; rfl]

theorem aggregate_row (small : i < count) {reduction : Reduction} (other : reduction ≠ .mean)
    (hasRows : List.Forall₂ (lib.HasRow numeric count i) arrays rows) {value : A}
    (came : lib.aggregate reduction arrays = .ok value) :
    ∃ image, lib.aggregate reduction rows = .ok image ∧
      lib.HasRow numeric count i value image := by
  cases hasRows with
  | nil =>
    cases came
    obtain ⟨given, single⟩ := elementwise.ofFloat 0
    exact ⟨_, rfl, hasRow_self given single⟩
  | @cons a row arrays rows hasRow hasRows =>
    obtain ⟨stacked, piled, reduced⟩ := bind_eq_ok_iff.mp came
    obtain ⟨layers, spread, topped⟩ := bind_eq_ok_iff.mp piled
    obtain ⟨single, below, image, spreadToo, stacksToo, reducedToo, holds⟩ :=
      reduce_row elementwise small other (List.cons_ne_nil a arrays) (.cons hasRow hasRows)
        (Fault.adapted_eq_ok_iff.mp spread) (Fault.adapted_eq_ok_iff.mp topped)
        (Fault.adapted_eq_ok_iff.mp reduced)
    refine ⟨image, ?_, holds⟩
    refine bind_eq_ok_iff.mpr ⟨below, bind_eq_ok_iff.mpr ⟨single, ?_, ?_⟩, ?_⟩
    · exact Fault.adapted_eq_ok_iff.mpr spreadToo
    · exact Fault.adapted_eq_ok_iff.mpr stacksToo
    · exact Fault.adapted_eq_ok_iff.mpr reducedToo

end InfixCalc.ArrayLibrary
