import InfixCalc.Arrays.Shape
import Mathlib.Data.List.Forall2

/-!
# Joined shapes

Arrays have a common shape or they have none, in whatever order they are joined. Each of them can
be spread to the common shape, and then it has as many cells as the shape has places.
-/

namespace InfixCalc.Shape

/- Axes. -/

theorem joinAxis?_one (n : Nat) : joinAxis? 1 n = some n := by
  unfold joinAxis?
  split <;> simp_all

theorem joinAxis?_assoc (k m n : Nat) :
    (joinAxis? k m).bind (joinAxis? · n) = (joinAxis? m n).bind (joinAxis? k) := by
  by_cases first : k = 1
  · subst first
    rw [joinAxis?_one, Option.bind_some]
    cases joinAxis? m n with
    | none => rfl
    | some j => exact (joinAxis?_one j).symm
  by_cases second : m = 1
  · subst second
    rw [joinAxis?_one, Option.bind_some, joinAxis?_comm k 1, joinAxis?_one, Option.bind_some]
  by_cases third : n = 1
  · subst third
    rw [joinAxis?_comm m 1, joinAxis?_one, Option.bind_some]
    cases joinAxis? k m with
    | none => rfl
    | some j => rw [Option.bind_some, joinAxis?_comm, joinAxis?_one]
  -- Without an axis of length one, lengths can only be joined with themselves.
  have plain (i j : Nat) (long : i ≠ 1) (longToo : j ≠ 1) :
      joinAxis? i j = if i = j then some i else none := by
    rw [joinAxis?, if_neg long, if_neg longToo]
  rw [plain k m first second, plain m n second third]
  by_cases same : k = m
  · subst same
    by_cases sameToo : k = n
    · simp [sameToo]
    · simp [sameToo, plain k n first third]
  · by_cases sameToo : m = n
    · subst sameToo
      simp [same, plain k m first second]
    · simp [same, sameToo]

theorem joinAxes?_nil (s : List Nat) : joinAxes? s [] = some s := by cases s <;> rfl

theorem joinAxes?_cons (m n : Nat) (ms ns : List Nat) :
    joinAxes? (m :: ms) (n :: ns) =
      (joinAxis? m n).bind fun length => (joinAxes? ms ns).map (length :: ·) := by
  cases first : joinAxis? m n <;> cases later : joinAxes? ms ns <;> simp [joinAxes?, first, later]

theorem joinAxes?_assoc (r s t : List Nat) :
    (joinAxes? r s).bind (joinAxes? · t) = (joinAxes? s t).bind (joinAxes? r) := by
  induction r generalizing s t with
  | nil => cases joined : joinAxes? s t <;> simp [joinAxes?, joined]
  | cons k ks ih =>
    cases s with
    | nil => cases t <;> simp [joinAxes?]
    | cons m ms =>
      cases t with
      | nil => simp [joinAxes?_nil]
      | cons n ns =>
        have left (first : Option Nat) (later : Option (List Nat)) :
            (first.bind fun length => later.map (length :: ·)).bind (joinAxes? · (n :: ns)) =
              (first.bind (joinAxis? · n)).bind fun length =>
                (later.bind (joinAxes? · ns)).map (length :: ·) := by
          cases first <;> cases later <;> simp [joinAxes?_cons]
        have right (first : Option Nat) (later : Option (List Nat)) :
            (first.bind fun length => later.map (length :: ·)).bind (joinAxes? (k :: ks)) =
              (first.bind (joinAxis? k)).bind fun length =>
                (later.bind (joinAxes? ks)).map (length :: ·) := by
          cases first <;> cases later <;> simp [joinAxes?_cons]
        rw [joinAxes?_cons, joinAxes?_cons, left, right, joinAxis?_assoc, ih]

/- Shapes. -/

@[simp] theorem join?_nil (s : List Nat) : join? [] s = some s := by
  simp [join?, joinAxes?]

theorem join?_assoc (r s t : List Nat) :
    (join? r s).bind (join? · t) = (join? s t).bind (join? r) := by
  have left (joined : Option (List Nat)) : (joined.map List.reverse).bind (join? · t) =
      (joined.bind (joinAxes? · t.reverse)).map List.reverse := by
    cases joined <;> simp [join?]
  have right (joined : Option (List Nat)) : (joined.map List.reverse).bind (join? r) =
      (joined.bind (joinAxes? r.reverse)).map List.reverse := by
    cases joined <;> simp [join?]
  rw [join?, join?, left, right, joinAxes?_assoc]

theorem joinAll?_cons (s : List Nat) (shapes : List (List Nat)) :
    joinAll? (s :: shapes) = shapes.foldlM join? s := by
  simp [joinAll?]

theorem joinAll?_two (s t : List Nat) : joinAll? [s, t] = join? s t := by
  simp [joinAll?]

theorem joinAll?_three (r s t : List Nat) :
    joinAll? [r, s, t] = (join? s t).bind (join? r) := by
  rw [joinAll?_cons, ← join?_assoc]
  simp only [List.foldlM_cons, List.foldlM_nil, bind_pure]
  rfl

/- Shapes within others. -/

theorem joinAxis?_absorb {k m n : Nat} (joined : joinAxis? m n = some k) :
    joinAxis? m k = some k := by
  unfold joinAxis? at joined ⊢
  grind

theorem joinAxes?_self (ms : List Nat) : joinAxes? ms ms = some ms := by
  induction ms with
  | nil => rfl
  | cons m ms ih => simp [joinAxes?, joinAxis?, ih]

theorem joinAxes?_absorb {ks ms ns : List Nat} (joined : joinAxes? ms ns = some ks) :
    joinAxes? ms ks = some ks := by
  induction ms generalizing ns ks with
  | nil => rfl
  | cons m ms ih =>
    cases ns with
    | nil =>
      cases joined
      exact joinAxes?_self _
    | cons n ns =>
      rw [joinAxes?_cons] at joined
      obtain ⟨k, first, later⟩ := Option.bind_eq_some_iff.mp joined
      obtain ⟨ks, rest, rfl⟩ := Option.map_eq_some_iff.mp later
      rw [joinAxes?_cons, joinAxis?_absorb first, ih rest]
      rfl

theorem join?_self (s : List Nat) : join? s s = some s := by
  simp [join?, joinAxes?_self]

theorem join?_eq_some {r s t : List Nat} :
    join? s t = some r ↔ joinAxes? s.reverse t.reverse = some r.reverse := by
  rw [join?, Option.map_eq_some_iff]
  constructor
  · rintro ⟨_, joined, rfl⟩
    rw [joined, List.reverse_reverse]
  · exact fun joined => ⟨_, joined, List.reverse_reverse r⟩

/-- The first shape is joined to the common one without a change of it. -/
theorem join?_absorb {r s t : List Nat} (joined : join? s t = some r) : join? s r = some r :=
  join?_eq_some.mpr (joinAxes?_absorb (join?_eq_some.mp joined))

theorem join?_absorb_right {r s t : List Nat} (joined : join? s t = some r) :
    join? t r = some r :=
  join?_absorb ((join?_comm t s).trans joined)

/-- A shape within one that is within another is within that one. -/
theorem join?_trans {r s t : List Nat} (inner : join? s t = some t) (outer : join? t r = some r) :
    join? s r = some r := by
  have assoc := join?_assoc s t r
  rw [inner, outer, Option.bind_some, Option.bind_some, outer] at assoc
  exact assoc.symm

theorem joinAll?_absorb {shapes : List (List Nat)} {r : List Nat}
    (joined : joinAll? shapes = some r) : ∀ s ∈ shapes, join? s r = some r := by
  have run (start : List Nat) (shapes : List (List Nat))
      (joined : shapes.foldlM join? start = some r) :
      join? start r = some r ∧ ∀ s ∈ shapes, join? s r = some r := by
    induction shapes generalizing start with
    | nil =>
      cases joined
      exact ⟨join?_self _, List.forall_mem_nil _⟩
    | cons s shapes ih =>
      rw [List.foldlM_cons] at joined
      obtain ⟨next, first, later⟩ := Option.bind_eq_some_iff.mp joined
      obtain ⟨reached, each⟩ := ih next later
      exact ⟨join?_trans (join?_absorb first) reached,
        List.forall_mem_cons.mpr ⟨join?_trans (join?_absorb_right first) reached, each⟩⟩
  exact (run [] shapes joined).2

/- Cells. -/

variable {α β : Type}

theorem size_append (s t : List Nat) : size (s ++ t) = size s * size t := by
  induction s with
  | nil => simp [size]
  | cons m s ih =>
    simp only [size, List.cons_append, List.foldr_cons] at ih ⊢
    rw [ih, Nat.mul_assoc]

theorem size_replicate_one (count : Nat) : size (List.replicate count 1) = 1 := by
  induction count with
  | zero => rfl
  | succ count ih => simpa [size, List.replicate_succ] using ih

theorem length_blocks (size count : Nat) (xs : List α) : (blocks size count xs).length = count := by
  induction count generalizing xs with
  | zero => rfl
  | succ count ih => rw [blocks, List.length_cons, ih]

theorem length_of_mem_blocks {size count : Nat} {xs block : List α}
    (full : xs.length = count * size) (member : block ∈ blocks size count xs) :
    block.length = size := by
  induction count generalizing xs with
  | zero => cases member
  | succ count ih =>
    rw [Nat.succ_mul] at full
    rcases List.mem_cons.mp member with rfl | later
    · rw [List.length_take]
      omega
    · exact ih (by rw [List.length_drop]; omega) later

theorem blocks_flatten {size : Nat} {layers : List (List α)}
    (full : ∀ layer ∈ layers, layer.length = size) :
    blocks size layers.length layers.flatten = layers := by
  induction layers with
  | nil => rfl
  | cons layer layers ih =>
    obtain ⟨rfl, rest⟩ := List.forall_mem_cons.mp full
    rw [List.length_cons, List.flatten_cons, blocks, List.take_left, List.drop_left, ih rest]

theorem blocks_map (f : α → β) (size count : Nat) (xs : List α) :
    blocks size count (xs.map f) = (blocks size count xs).map (List.map f) := by
  induction count generalizing xs with
  | zero => rfl
  | succ count ih => simp only [blocks, ← List.map_take, ← List.map_drop, ih, List.map_cons]

theorem repeatAlong_map (f : α → β) (axes : List (Nat × Nat)) (xs : List α) :
    repeatAlong axes (xs.map f) = (repeatAlong axes xs).map f := by
  induction axes generalizing xs with
  | nil => rfl
  | cons axis axes ih =>
    simp only [repeatAlong, blocks_map, List.flatMap_map, ih]
    split
    · simp
    · rw [List.map_flatMap]

/-- It makes no difference whether cells are changed before or after they are spread. -/
theorem spread_map (f : α → β) (own wanted : List Nat) (xs : List α) :
    spread own wanted (xs.map f) = (spread own wanted xs).map f :=
  repeatAlong_map f _ xs

/-- The axis has the wanted length or the length one. -/
def Stretches (own wanted : Nat) : Prop := own = wanted ∨ own = 1

theorem length_repeatAlong {own wanted : List Nat} (stretches : List.Forall₂ Stretches own wanted)
    {xs : List α} (full : xs.length = size own) :
    (repeatAlong (own.zip wanted) xs).length = size wanted := by
  induction stretches generalizing xs with
  | nil => exact full
  | @cons m n own wanted here rest ih =>
    have inner : (own.zip wanted).map (·.1) = own := List.map_fst_zip (Nat.le_of_eq rest.length_eq)
    rw [List.zip_cons_cons, repeatAlong, inner]
    change _ = n * size wanted
    change _ = m * size own at full
    split
    · rename_i one
      subst one
      rw [Nat.one_mul] at full
      simp [ih full]
    · rename_i long
      obtain rfl : m = n := here.resolve_right long
      rw [List.length_flatMap, List.map_congr_left (g := fun _ => size wanted)
        fun block member => ih (length_of_mem_blocks full member)]
      simp [length_blocks]

theorem stretches_of_joinAxes? {ms ks : List Nat} (joined : joinAxes? ms ks = some ks) :
    ms.length ≤ ks.length ∧
      List.Forall₂ Stretches (ms ++ List.replicate (ks.length - ms.length) 1) ks := by
  induction ms generalizing ks with
  | nil =>
    refine ⟨Nat.zero_le _, ?_⟩
    rw [List.nil_append, List.length_nil, Nat.sub_zero]
    clear joined
    induction ks with
    | nil => exact .nil
    | cons k ks ih => exact .cons (.inr rfl) ih
  | cons m ms ih =>
    cases ks with
    | nil => cases joined
    | cons k ks =>
      rw [joinAxes?_cons] at joined
      obtain ⟨length, first, later⟩ := Option.bind_eq_some_iff.mp joined
      obtain ⟨lengths, rest, same⟩ := Option.map_eq_some_iff.mp later
      cases same
      obtain ⟨less, stretches⟩ := ih rest
      refine ⟨Nat.succ_le_succ less, ?_⟩
      rw [List.length_cons, List.length_cons, Nat.add_sub_add_right]
      refine .cons ?_ stretches
      unfold joinAxis? at first
      unfold Stretches
      grind

/-- Cells that are spread to a shape fill it. -/
theorem length_spread {s r : List Nat} (joined : join? s r = some r) {xs : List α}
    (full : xs.length = size s) : (spread s r xs).length = size r := by
  obtain ⟨less, stretches⟩ := stretches_of_joinAxes? (join?_eq_some.mp joined)
  rw [List.length_reverse, List.length_reverse] at less stretches
  have reversed := List.forall₂_reverse_iff.mpr stretches
  rw [List.reverse_append, List.reverse_replicate, List.reverse_reverse,
    List.reverse_reverse] at reversed
  exact length_repeatAlong reversed (by rw [size_append, size_replicate_one, full, Nat.one_mul])

theorem spread_singleton (count : Nat) (x : α) :
    spread [] [count] [x] = List.replicate count x := by
  simp [spread, repeatAlong]

theorem spread_column {count : Nat} {xs : List α} (full : xs.length = count) :
    spread [count] [count] xs = xs := by
  subst full
  have blockwise : (blocks 1 xs.length xs).flatMap (repeatAlong []) = xs := by
    induction xs with
    | nil => rfl
    | cons x xs ih => exact congrArg (x :: ·) ih
  by_cases one : xs.length = 1
  · obtain ⟨x, rfl⟩ := List.length_eq_one_iff.mp one
    rfl
  · simpa [spread, repeatAlong, one, size] using blockwise

end InfixCalc.Shape
