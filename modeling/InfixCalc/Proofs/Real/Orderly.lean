import InfixCalc.Proofs.Vocabulary.Orderly
import InfixCalc.Real.Vocabulary

/-!
# Real operations are orderly

Every operation on doubles gives a double or is refused as evaluations are, for all operands. A
double that is an integer is small enough to be written out, so the choices are orderly too.
-/

namespace InfixCalc

namespace Binary64

theorem ofBits_finite_bounds {bits significand : Nat} {negative : Bool} {exponent : Int}
    (finite : Parts.ofBits bits = .finite negative significand exponent) :
    significand < 2 ^ 53 ∧ exponent ≤ 971 := by
  have fraction : bits % Nat.pow 2 52 < 2 ^ 52 := Nat.mod_lt _ (Nat.pow_pos Nat.two_pos)
  have field : bits / Nat.pow 2 52 % Nat.pow 2 11 < 2 ^ 11 := Nat.mod_lt _ (Nat.pow_pos Nat.two_pos)
  unfold Parts.ofBits at finite
  simp only at finite
  split at finite
  · split at finite <;> cases finite
  · rename_i notSpecial
    split at finite
    · cases finite
      exact ⟨by omega, by decide⟩
    · cases finite
      have hidden : Nat.pow 2 52 = 2 ^ 52 := rfl
      exact ⟨by omega, by omega⟩

theorem ratio_lt {significand bits top : Nat} {exponent : Int} (small : significand < 2 ^ bits)
    (low : exponent ≤ top) :
    (ratio significand exponent).1 / (ratio significand exponent).2 < 2 ^ (bits + top) := by
  refine Nat.lt_of_le_of_lt (Nat.div_le_self _ _) ?_
  unfold ratio
  split
  · simp only [Nat.shiftLeft_eq]
    calc significand * 2 ^ exponent.toNat
        < 2 ^ bits * 2 ^ exponent.toNat := Nat.mul_lt_mul_of_pos_right small (Nat.two_pow_pos _)
      _ ≤ 2 ^ bits * 2 ^ top := Nat.mul_le_mul_left _ (Nat.pow_le_pow_right Nat.two_pos (by omega))
      _ = 2 ^ (bits + top) := (Nat.pow_add 2 bits top).symm
  · exact small.trans_le (Nat.pow_le_pow_right Nat.two_pos (Nat.le_add_right bits top))

theorem lt_pow_ten {n bits digits : Nat} (small : n < 2 ^ bits) (few : bits ≤ digits) :
    n < Nat.pow 10 digits := by
  have narrow : 2 ^ bits ≤ 10 ^ bits := Nat.pow_le_pow_left (by decide) bits
  exact small.trans_le (narrow.trans (Nat.pow_le_pow_right (by decide) few))

/-- The integer that a double stands for can be written out. -/
theorem natAbs_lt_of_toInt? {x : Float} {n : Int} (whole : toInt? x = some n) :
    n.natAbs < Nat.pow 10 Number.maxIntegerDigits := by
  unfold toInt? at whole
  split at whole
  · rename_i negative significand exponent finite
    obtain ⟨small, low⟩ := ofBits_finite_bounds finite
    have below := lt_pow_ten (ratio_lt small low)
      (by decide : 53 + 971 ≤ Number.maxIntegerDigits)
    simp only at whole
    split at whole
    · cases whole
      split
      · rwa [Int.natAbs_neg, Int.natAbs_natCast]
      · rwa [Int.natAbs_natCast]
    · cases whole
  · cases whole

/- Functions of doubles. -/

variable (f : Float → Float) (x y : Float)

@[simp] theorem isPlain_withPoles : Outcome.IsPlain (withPoles f x) :=
  .ite (.unusable _) (.ite (.unusable _) (.ok _))

@[simp] theorem isPlain_withOverflow : Outcome.IsPlain (withOverflow f x) :=
  .ite (.unusable _) (.ite (.unusable _) (.ok _))

@[simp] theorem isPlain_ln : Outcome.IsPlain (ln x) :=
  .ite (.ok x) (.ite (.unusable _) (.ok _))

@[simp] theorem isPlain_log10 : Outcome.IsPlain (log10 x) :=
  .ite (.ok x) (.ite (.unusable _) (.ok _))

theorem isPlain_quotient : Outcome.IsPlain (quotient x y) := .ite .zeroDivisor (.ok _)

@[simp] theorem isPlain_logBase : Outcome.IsPlain (logBase x y) :=
  (isPlain_ln y).bind fun numerator => (isPlain_ln x).bind (isPlain_quotient numerator)

@[simp] theorem isPlain_power : Outcome.IsPlain (power x y) := by
  have infiniteBase : Outcome.IsPlain (if y == 0 then .ok 1
      else if y > 0 then .ok (if isOddInteger y then x else x.abs)
      else .ok (if isOddInteger y then withSignOf 0 x else 0) : Outcome Float) :=
    .ite (.ok _) (.ite (.ok _) (.ok _))
  have infiniteExponent : Outcome.IsPlain (if x.abs == 1 then .ok 1
      else if y > 0 && x.abs > 1 then .ok y
      else if y < 0 && x.abs < 1 then .ok (-y)
      else .ok 0 : Outcome Float) :=
    .ite (.ok _) (.ite (.ok _) (.ite (.ok _) (.ok _)))
  have finite (r : Float) : Outcome.IsPlain (if r.isNaN then .error (.unusable .domain)
      else if r.isInf then .error (.unusable (if x == 0 then .domain else .range))
      else .ok r : Outcome Float) :=
    .ite (.unusable _) (.ite (.unusable _) (.ok r))
  exact .ite (.ok _) (.ite (.ok _) (.ite infiniteBase (.ite infiniteExponent (finite _))))

@[simp] theorem isPlain_roundedBy : Outcome.IsPlain (roundedBy f x) := by
  unfold roundedBy
  split
  · exact .unusable _
  · exact .ok _

end Binary64

namespace Real

open InfixCalc.Binary64 InfixCalc.Number

variable (x y : Float)

@[simp] theorem isOrderly_divide : Outcome.IsOrderly (divide x y) :=
  .ite (.failure rfl) (.ok _)

@[simp] theorem isOrderly_modulo : Outcome.IsOrderly (modulo x y) :=
  .ite (.failure rfl) (.ok _)

theorem isOrderly_factorialShown (shown : String) : Outcome.IsOrderly (factorialShown shown x) := by
  unfold factorialShown
  split
  · exact .ite (.failure rfl) (.ite (.unusable _) (.ite (.unusable _) (.ok _)))
  · exact .failure rfl

@[simp] theorem isOrderly_factorial : Outcome.IsOrderly (factorial x) :=
  isOrderly_factorialShown x _

@[simp] theorem isPlain_round : Outcome.IsPlain (round x) := isPlain_roundedBy _ _

theorem isOrderly_conditionChoice : IsOrderly Selection.IsSmall (conditionChoice x) := by
  have small (n : Nat) (low : n < 2 ^ 2) : n < Nat.pow 10 maxIntegerDigits :=
    lt_pow_ten low (by decide)
  unfold conditionChoice
  split_ifs
  · exact small 2 (by decide)
  · exact small 1 (by decide)

theorem isOrderly_switchChoice : IsOrderly Selection.IsSmall (switchChoice x) := by
  unfold switchChoice
  split
  · rename_i n whole
    exact natAbs_lt_of_toInt? whole
  · rfl

theorem isPlain_wordFunctions : ∀ word ∈ wordFunctions, ∀ x, Outcome.IsPlain (word.2 x) := by
  simp [wordFunctions]

variable {σ : Type}

theorem orderly_operators : ∀ word ∈ (operators : List (String × Fixity × Nat × Meaning σ Float)),
    word.2.2.2.IsOrderly word.2.1.arity := by
  simp only [operators, List.forall_mem_append]
  refine ⟨⟨⟨?signs, ?comparisons⟩, ?arithmetic⟩, ?words⟩
  case signs => simp [Meaning.IsOrderly, Fixity.arity, Fixity.isBetween]
  case comparisons => exact List.forall_mem_map.mpr fun word _ => ⟨Nat.one_lt_two, fun _ _ => .ok _⟩
  case arithmetic => simp [Meaning.IsOrderly, Fixity.arity, Fixity.isBetween]
  case words =>
    exact List.forall_mem_map.mpr fun word member =>
      ⟨Nat.zero_lt_one, fun x => (isPlain_wordFunctions word member x).isOrderly⟩

theorem orderly_functions [RandomSource σ] :
    ∀ word ∈ (functions : List (String × Arity × Meaning σ Float)), ∀ count,
      word.2.1.Admits count → word.2.2.IsOrderly count := by
  simp [functions, Meaning.IsOrderly, Arity.Admits]

theorem orderly_wordbook [RandomSource σ] : (wordbook : Wordbook σ Float).Orderly where
  operators := orderly_operators
  functions := orderly_functions
  branches := List.forall_mem_cons.mpr ⟨⟨by decide, isOrderly_conditionChoice⟩,
    List.forall_mem_singleton.mpr ⟨by decide, isOrderly_switchChoice⟩⟩

end Real
end InfixCalc
