import InfixCalc.Proofs.Arrays.Layers
import InfixCalc.Proofs.Arrays.Builder
import InfixCalc.Proofs.Evaluation.Carried

/-!
# Words that work row by row

Over a library that works cell by cell all words work row by row, but random numbers do not, and of
averages nothing is said here.
-/

namespace InfixCalc

open InfixCalc.Number

/-- The text of a cell that is refused may differ, but not whether it is refused. -/
theorem factorialShown_irrelevant {shown other : String} {x y : Float}
    (came : Real.factorialShown shown x = .ok y) : Real.factorialShown other x = .ok y := by
  unfold Real.factorialShown at came ⊢
  split at came
  · split_ifs at came ⊢
    exact came
  · cases came

namespace ArrayLibrary

variable {A σ : Type} {lib : ArrayLibrary A} {numeric : A → Prop} {count i : Nat}

/- Operations. -/

section

variable {a b row other value : A} (small : i < count) (elementwise : lib.Elementwise numeric)
include elementwise

theorem apply₁_row (operation : Unary) (hasRow : lib.HasRow numeric count i a row)
    (came : lib.apply₁ operation a = .ok value) :
    ∃ image, lib.apply₁ operation row = .ok image ∧ lib.HasRow numeric count i value image := by
  obtain ⟨image, imaged, holds⟩ :=
    unary_row elementwise hasRow (Fault.adapted_eq_ok_iff.mp came)
  exact ⟨image, Fault.adapted_eq_ok_iff.mpr imaged, holds⟩

theorem factorial_row (hasRow : lib.HasRow numeric count i a row)
    (came : lib.factorial a = .ok value) :
    ∃ image, lib.factorial row = .ok image ∧ lib.HasRow numeric count i value image := by
  obtain ⟨fits, isRow⟩ := hasRow
  obtain ⟨values, ran, made⟩ := bind_eq_ok_iff.mp came
  cases made
  have ranToo : (lib.items row).mapM (fun item =>
      Real.factorialShown (lib.itemText row item) item.toFloat) =
        .ok (pick (lib.shape a) i values) := by
    rw [isRow.items, itemsAt]
    exact mapM_pick (fun _ _ came => factorialShown_irrelevant came) ran
  have full : values.length = Shape.size (lib.shape a) :=
    (mapM_eq_ok_iff.mp ran).length_eq.symm.trans (elementwise.length_items a fits.numeric)
  have fullToo : (pick (lib.shape a) i values).length = Shape.size (lib.shape row) :=
    (mapM_eq_ok_iff.mp ranToo).length_eq.symm.trans (elementwise.length_items row isRow.numeric)
  obtain ⟨holds, shape⟩ := elementwise.reals _ _ full
  obtain ⟨holdsToo, shapeToo⟩ := elementwise.reals _ _ fullToo
  obtain ⟨kind, items⟩ := elementwise.reals_cells _ _ full
  obtain ⟨kindToo, itemsToo⟩ := elementwise.reals_cells _ _ fullToo
  refine ⟨_, bind_eq_ok_iff.mpr ⟨_, ranToo, rfl⟩, ⟨holds, ?_⟩, holdsToo,
    shapeToo.trans isRow.shape, kindToo.trans kind.symm, ?_⟩
  · rw [shape]
    exact fits.shape
  · rw [itemsToo, itemsAt, items, shape, pick_map]

include small

theorem apply₂_row (operation : Binary) (hasRow : lib.HasRow numeric count i a row)
    (hasRowToo : lib.HasRow numeric count i b other)
    (came : lib.apply₂ operation a b = .ok value) :
    ∃ image, lib.apply₂ operation row other = .ok image ∧
      lib.HasRow numeric count i value image := by
  obtain ⟨image, imaged, holds⟩ :=
    binary_row elementwise small hasRow hasRowToo (Fault.adapted_eq_ok_iff.mp came)
  exact ⟨image, Fault.adapted_eq_ok_iff.mpr imaged, holds⟩

theorem round_row (hasRow : lib.HasRow numeric count i a row) (came : lib.round a = .ok value) :
    ∃ image, lib.round row = .ok image ∧ lib.HasRow numeric count i value image := by
  obtain ⟨sum, first, came⟩ := bind_eq_ok_iff.mp came
  obtain ⟨given, single⟩ := elementwise.plain 0.5
  obtain ⟨sums, firstToo, holds⟩ :=
    apply₂_row small elementwise .add hasRow (hasRow_self given single) first
  obtain ⟨image, rest, holdsToo⟩ := apply₁_row elementwise .floor holds came
  exact ⟨image, bind_eq_ok_iff.mpr ⟨sums, firstToo, rest⟩, holdsToo⟩

theorem logBase_row (hasRow : lib.HasRow numeric count i a row)
    (hasRowToo : lib.HasRow numeric count i b other) (came : lib.logBase a b = .ok value) :
    ∃ image, lib.logBase row other = .ok image ∧ lib.HasRow numeric count i value image := by
  obtain ⟨log, first, came⟩ := bind_eq_ok_iff.mp came
  obtain ⟨base, second, came⟩ := bind_eq_ok_iff.mp came
  obtain ⟨logs, firstToo, holds⟩ := apply₁_row elementwise .log hasRowToo first
  obtain ⟨bases, secondToo, holdsToo⟩ := apply₁_row elementwise .log hasRow second
  obtain ⟨image, rest, holdsLast⟩ := apply₂_row small elementwise .divide holds holdsToo came
  exact ⟨image, bind_eq_ok_iff.mpr ⟨logs, firstToo, bind_eq_ok_iff.mpr ⟨bases, secondToo, rest⟩⟩,
    holdsLast⟩

end

/- Meanings. -/

variable [Shown A]

/-- The meaning gives, for what stands in the row for the operands, what stands there for what it
gives for the operands. -/
def RowByRow (lib : ArrayLibrary A) (numeric : A → Prop) (count i : Nat) (meaning : Meaning σ A) :
    Prop :=
  ∀ ⦃operands images : List A⦄ ⦃label : String⦄ ⦃state last : σ⦄ ⦃value : A⦄,
    meaning.Reads operands.length → List.Forall₂ (lib.HasRow numeric count i) operands images →
    ((meaning.give label operands).start []).run state = (.ok value, last) →
      ∃ image, lib.HasRow numeric count i value image ∧ ∀ start,
        ((meaning.give label images).start []).run start = (.ok image, start)

namespace RowByRow

theorem same : lib.RowByRow numeric count i (.same : Meaning σ A) := by
  intro operands images label state last value reads hasRows came
  obtain ⟨a, rfl⟩ := List.length_eq_one_iff.mp reads
  cases hasRows with
  | cons hasRow none_ =>
    cases none_
    cases came
    exact ⟨_, hasRow, fun start => rfl⟩

theorem unary {f : A → Outcome A}
    (rowByRow : ∀ {a row value}, lib.HasRow numeric count i a row → f a = .ok value →
      ∃ image, f row = .ok image ∧ lib.HasRow numeric count i value image) :
    lib.RowByRow numeric count i (.unary f : Meaning σ A) := by
  intro operands images label state last value reads hasRows came
  obtain ⟨a, rfl⟩ := List.length_eq_one_iff.mp reads
  cases hasRows with
  | cons hasRow none_ =>
    cases none_
    obtain ⟨image, imaged, holds⟩ := rowByRow hasRow (Meaning.run_conclude_eq_ok_iff.mp came).1
    exact ⟨image, holds, fun start => Meaning.run_conclude_eq_ok_iff.mpr ⟨imaged, rfl⟩⟩

theorem binary {f : A → A → Outcome A}
    (rowByRow : ∀ {a b row other value}, lib.HasRow numeric count i a row →
      lib.HasRow numeric count i b other → f a b = .ok value →
        ∃ image, f row other = .ok image ∧ lib.HasRow numeric count i value image) :
    lib.RowByRow numeric count i (.binary f : Meaning σ A) := by
  intro operands images label state last value reads hasRows came
  obtain ⟨a, b, rfl⟩ := List.length_eq_two.mp reads
  cases hasRows with
  | cons hasRow hasRows =>
    cases hasRows with
    | cons hasRowToo none_ =>
      cases none_
      obtain ⟨image, imaged, holds⟩ :=
        rowByRow hasRow hasRowToo (Meaning.run_conclude_eq_ok_iff.mp came).1
      exact ⟨image, holds, fun start => Meaning.run_conclude_eq_ok_iff.mpr ⟨imaged, rfl⟩⟩

theorem aggregate {f : List A → Outcome A}
    (rowByRow : ∀ {arrays rows value}, List.Forall₂ (lib.HasRow numeric count i) arrays rows →
      f arrays = .ok value → ∃ image, f rows = .ok image ∧ lib.HasRow numeric count i value image) :
    lib.RowByRow numeric count i (.aggregate f : Meaning σ A) := by
  intro operands images label state last value _ hasRows came
  obtain ⟨image, imaged, holds⟩ := rowByRow hasRows (Meaning.run_conclude_eq_ok_iff.mp came).1
  exact ⟨image, holds, fun start => Meaning.run_conclude_eq_ok_iff.mpr ⟨imaged, rfl⟩⟩

omit [Shown A] in
theorem choose_eq_ok_iff {condition a b value : A} :
    lib.choose condition a b = .ok value ↔ lib.select condition a b = .ok value := by
  rw [ArrayLibrary.choose]
  cases lib.select condition a b <;> simp [Except.mapError]

theorem selection (small : i < count) (elementwise : lib.Elementwise numeric) :
    lib.RowByRow numeric count i (.ternary lib.choose : Meaning σ A) := by
  intro operands images label state last value reads hasRows came
  obtain ⟨condition, a, b, rfl⟩ := List.length_eq_three.mp reads
  cases hasRows with
  | @cons _ flag _ _ hasFlag hasRows =>
    cases hasRows with
    | @cons _ row _ _ hasRow hasRows =>
      cases hasRows with
      | @cons _ other _ _ hasRowToo none_ =>
        cases none_
        cases chose : lib.choose condition a b with
        | error cause =>
          simp only [Meaning.give, chose] at came
          cases came
        | ok result =>
          simp only [Meaning.give, chose] at came
          cases came
          obtain ⟨image, imaged, holds⟩ := select_row elementwise small hasFlag hasRow hasRowToo
            (choose_eq_ok_iff.mp chose)
          refine ⟨image, holds, fun start => ?_⟩
          simp only [Meaning.give, choose_eq_ok_iff.mpr imaged]
          rfl

end RowByRow

/- The vocabulary. -/

/-- Calls that are left out of consideration: random numbers and averages. -/
def unrowedCalls : List String := ["rand", "mean", "average"]

section

variable (small : i < count) (elementwise : lib.Elementwise numeric)
include elementwise

theorem rowByRow_apply₁ (operation : Unary) :
    lib.RowByRow numeric count i (.unary (lib.apply₁ operation) : Meaning σ A) :=
  .unary fun hasRow came => apply₁_row elementwise operation hasRow came

include small

theorem rowByRow_apply₂ (operation : Binary) :
    lib.RowByRow numeric count i (.binary (lib.apply₂ operation) : Meaning σ A) :=
  .binary fun hasRow hasRowToo came =>
    apply₂_row small elementwise operation hasRow hasRowToo came

theorem rowByRow_wordFunctions :
    ∀ word ∈ lib.wordFunctions, lib.RowByRow numeric count i (.unary word.2 : Meaning σ A) := by
  simp [wordFunctions, rowByRow_apply₁ elementwise,
    RowByRow.unary fun hasRow came => round_row small elementwise hasRow came]

theorem rowByRow_operators :
    ∀ word ∈ (lib.operators : List (String × Fixity × Nat × Meaning σ A)),
      lib.RowByRow numeric count i word.2.2.2 := by
  simp only [operators, List.forall_mem_append]
  refine ⟨⟨⟨?signs, ?comparisons⟩, ?arithmetic⟩, ?words⟩
  case signs =>
    exact List.forall_mem_cons.mpr
      ⟨.same, List.forall_mem_singleton.mpr (rowByRow_apply₁ elementwise .negative)⟩
  case comparisons =>
    exact List.forall_mem_map.mpr fun word _ => rowByRow_apply₂ small elementwise word.2
  case arithmetic =>
    simp [rowByRow_apply₂ small elementwise,
      RowByRow.unary fun hasRow came => factorial_row elementwise hasRow came]
  case words =>
    exact List.forall_mem_map.mpr fun word member =>
      rowByRow_wordFunctions small elementwise word member

theorem rowByRow_functions [RandomSource σ] :
    ∀ word ∈ (lib.functions : List (String × Arity × Meaning σ A)), word.1 ∉ unrowedCalls →
      lib.RowByRow numeric count i word.2.2 := by
  have logarithm : lib.RowByRow numeric count i (.binary lib.logBase : Meaning σ A) :=
    .binary fun hasRow hasRowToo came => logBase_row small elementwise hasRow hasRowToo came
  have bound (reduction : Reduction) (other : reduction ≠ .mean) :
      lib.RowByRow numeric count i (.aggregate (lib.aggregate reduction) : Meaning σ A) :=
    .aggregate fun hasRows came => aggregate_row elementwise small other hasRows came
  simp [functions, unrowedCalls, rowByRow_apply₁ elementwise, logarithm,
    RowByRow.selection small elementwise, bound]

end

end ArrayLibrary
end InfixCalc
