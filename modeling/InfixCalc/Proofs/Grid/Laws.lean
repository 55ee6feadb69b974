import InfixCalc.Proofs.Grid.Layers

/-!
# Grids obey the laws of array libraries

The operations on grids that have a cell for each place of their shape join shapes, and they work
cell by cell.
-/

namespace InfixCalc.Grid

open InfixCalc.ArrayLibrary

theorem length_zipWith_full {xs ys zs : List Item} {f : Item → Item → Item} {size : Nat}
    (made : zs = List.zipWith f xs ys) (left : xs.length = size) (right : ys.length = size) :
    zs.length = size := by
  rw [made, List.length_zipWith, left, right, Nat.min_self]

theorem broadcasts_library : library.Broadcasts IsFull where
  ofFloat x := ⟨rfl, rfl⟩
  plain x := ⟨rfl, rfl⟩
  reals shape xs full := ⟨(Cells.length_items_reals xs).trans full, rfl⟩
  length_items g full := full
  unary := by
    intro operation g full suits
    obtain ⟨kind, cell, maps⟩ := exists_maps_unary operation
    obtain ⟨cells, came, _, items⟩ := maps g suits
    refine ⟨⟨g.shape, cells⟩, came, ?_, rfl⟩
    change cells.items.length = _
    rw [items, List.length_map]
    exact full
  negative_flags g _ flags := negate_flags flags
  binary := by
    intro operation g h shape full fullToo suits joined
    obtain ⟨kind, cell, pairs⟩ := exists_pairs_binary operation
    obtain ⟨cells, came, _, items⟩ := pairs.given suits joined
    exact ⟨⟨shape, cells⟩, came, length_zipWith_full items
      (length_spreadItems full (Shape.join?_absorb joined))
      (length_spreadItems fullToo (Shape.join?_absorb_right joined)), rfl⟩
  binary_apart := by
    intro operation g h _ _ suits joined
    obtain ⟨kind, cell, pairs⟩ := exists_pairs_binary operation
    exact ⟨_, pairs.refused suits joined⟩
  subtract_flags g h _ _ left right := sub_flags left right
  select := by
    intro condition g h shape full fullLeft fullRight joined
    obtain ⟨cells, came, _, items⟩ := select_given joined
    have within := Shape.joinAll?_absorb joined
    have flags := length_spreadItems full (within _ List.mem_cons_self)
    have left := length_spreadItems fullLeft (within g.shape (by simp [library]))
    have right := length_spreadItems fullRight (within h.shape (by simp [library]))
    refine ⟨⟨shape, cells⟩, came, ?_, rfl⟩
    change cells.items.length = _
    rw [items, List.length_zipWith, List.length_zip, flags, left, right, Nat.min_self,
      Nat.min_self]
  select_apart condition g h _ _ _ joined := ⟨_, select_refused joined⟩
  broadcast := by
    intro grids shape full joined
    refine ⟨_, broadcast_given joined, List.length_map _, ?_⟩
    refine List.forall_mem_map.mpr fun g member => ⟨?_, rfl⟩
    change (g.spread shape).items.length = _
    rw [items_spread]
    exact length_spreadItems (full g member)
      (Shape.joinAll?_absorb joined _ (List.mem_map_of_mem member))
  broadcast_apart grids _ joined := ⟨_, broadcast_refused joined⟩
  stack := by
    intro grids shape some_ each
    have shapes (g : Grid) (member : g ∈ grids) : g.shape = shape := (each g member).2
    refine .inl ⟨_, stack_given some_ shapes, ?_, rfl⟩
    change (gather grids).items.length = grids.length * Shape.size shape
    rw [items_gather, List.length_flatMap,
      List.map_congr_left (g := fun _ => Shape.size shape) fun g member => ?_]
    · simp
    · rw [List.length_map, ← shapes g member]
      exact (each g member).1
  reduce := by
    intro reduction g count shape full layered
    refine ⟨_, reduce_eq reduction layered, ?_, rfl⟩
    have size : g.cells.items.length = (count + 1) * Shape.size shape :=
      Eq.trans full (congrArg Shape.size layered)
    exact length_items_reduceTo reduction size

theorem isFull_full (count : Nat) (item : Item) : (full count item).IsFull := by
  have size : Shape.size [count] = count := Nat.mul_one count
  cases item <;> simp [full, IsFull, Cells.items, size]

theorem elementwise_library : library.Elementwise IsFull where
  toBroadcasts := broadcasts_library
  reals_cells shape xs _ := ⟨rfl, rfl⟩
  unary_cells := by
    intro operation
    obtain ⟨kind, cell, maps⟩ := exists_maps_unary operation
    refine ⟨kind, cell, fun g value full came => ?_⟩
    have suits : operation.Suits g.cells.kind := by
      rintro rfl flags
      rw [show library.unary .negative g = _ from negate_flags flags] at came
      cases came
    obtain ⟨cells, made, holds⟩ := maps g suits
    cases came.symm.trans made
    exact holds
  binary_cells := by
    intro operation
    obtain ⟨kind, cell, pairs⟩ := exists_pairs_binary operation
    refine ⟨kind, cell, fun g h value _ _ came => ?_⟩
    have suits : operation.Suits g.cells.kind h.cells.kind := by
      rintro rfl left right
      rw [show library.binary .subtract g h = _ from sub_flags left right] at came
      cases came
    cases joined : Shape.join? g.shape h.shape with
    | none => cases came.symm.trans (pairs.refused suits joined)
    | some shape =>
      obtain ⟨cells, made, holds⟩ := pairs.given suits joined
      cases came.symm.trans made
      exact holds
  select_cells := by
    refine ⟨wider, fun left right item pair =>
      Cells.cast (wider left right) (if item.holds then pair.1 else pair.2),
      fun condition g h value _ _ _ came => ?_⟩
    cases joined : Shape.joinAll? [condition.shape, g.shape, h.shape] with
    | none => cases came.symm.trans (select_refused joined)
    | some shape =>
      obtain ⟨cells, made, holds⟩ := select_given joined
      cases came.symm.trans made
      exact holds
  broadcast_cells := by
    refine ⟨id, fun grids layers shape _ joined came => ?_⟩
    cases came.symm.trans (broadcast_given joined)
    refine List.forall₂_map_right_iff.mpr (List.forall₂_same.mpr fun g _ => ?_)
    exact ⟨kind_spread g shape, items_spread g shape⟩
  stack_cells := by
    refine ⟨widest, fun _ => Cells.cast, fun grids value _ came => ?_⟩
    change stack grids = .ok value at came
    unfold stack at came
    split at came
    · cases came
    · split at came
      · cases came
        exact ⟨kind_gather _, items_gather _⟩
      · cases came
  reduce_cells := by
    intro reduction other
    obtain ⟨f, reduces⟩ := exists_reduces other
    refine ⟨id, f, fun g value count shape full layered came => ?_⟩
    cases came.symm.trans (reduce_eq reduction layered)
    exact reduces (Eq.trans full (congrArg Shape.size layered))
  asArray g full := ⟨full, rfl, rfl⟩
  full := by
    rintro count ⟨shape, cells⟩ item _ member
    refine ⟨isFull_full count item, ?_⟩
    cases cells with
    | flags xs =>
      obtain ⟨x, _, rfl⟩ := List.mem_map.mp member
      exact ⟨rfl, List.map_replicate⟩
    | wholes xs =>
      obtain ⟨n, _, rfl⟩ := List.mem_map.mp member
      refine ⟨rfl, List.map_replicate.trans ?_⟩
      rw [Int64.ofInt_toInt]
    | reals xs =>
      obtain ⟨x, _, rfl⟩ := List.mem_map.mp member
      exact ⟨rfl, List.map_replicate⟩

end InfixCalc.Grid
