import Mathlib.Algebra.Ring.Nat
import InfixCalc.Decimal.Vocabulary
import InfixCalc.Proofs.Outcome

/-!
# The digits of results

A number fits into so many digits if its coefficient has no more of them without the zeros at its
end. What is rounded to a context fits into its digits, and so does the result of every operation
that ends with a rounding, however long its operands are. Integers beside a number that fits do too,
and the largest and the smallest of some numbers are among them.
-/

namespace InfixCalc

open InfixCalc.Number

namespace Decimal

/-- A finite number has no more digits than that, the zeros at the end of its coefficient left out.
-/
def FitsIn (digits : Nat) : Decimal → Prop
  | .finite _ coefficient _ => ∃ n zeros, coefficient = n * 10 ^ zeros ∧ n < 10 ^ digits
  | _ => True

variable {digits : Nat}

theorem fitsIn_of_lt (negative : Bool) {coefficient : Nat} (exponent : Int)
    (small : coefficient < 10 ^ digits) : (finite negative coefficient exponent).FitsIn digits :=
  ⟨coefficient, 0, (Nat.mul_one _).symm, small⟩

theorem fitsIn_zero (negative : Bool) (exponent : Int) :
    (finite negative 0 exponent).FitsIn digits :=
  fitsIn_of_lt negative exponent (Nat.pow_pos (by decide))

theorem fitsIn_power (negative : Bool) (zeros : Nat) (exponent : Int) (some_ : 1 ≤ digits) :
    (finite negative (Nat.pow 10 zeros) exponent).FitsIn digits :=
  ⟨1, zeros, (Nat.one_mul _).symm, Nat.one_lt_pow (Nat.ne_of_gt some_) (by decide)⟩

theorem fitsIn_one (negative : Bool) (exponent : Int) (some_ : 1 ≤ digits) :
    (finite negative 1 exponent).FitsIn digits := fitsIn_power negative 0 exponent some_

theorem fitsIn_truth (holds : Bool) (some_ : 1 ≤ digits) : (truth holds).FitsIn digits := by
  cases holds
  · exact fitsIn_zero _ _
  · exact fitsIn_one _ _ some_

/-- Places that are dropped leave so many digits, or a power of ten. -/
theorem dropPlaces_le (mode : Rounding) (negative : Bool) {coefficient places : Nat}
    (small : coefficient < 10 ^ (digits + places)) :
    dropPlaces mode negative coefficient places ≤ 10 ^ digits := by
  have positive : 0 < 10 ^ digits := Nat.pow_pos (by decide)
  unfold dropPlaces
  split
  · have most := mode.quotient_le negative (min coefficient 1) 10
    omega
  · have most := mode.quotient_le negative coefficient (Nat.pow 10 places)
    have kept : coefficient / Nat.pow 10 places < 10 ^ digits := by
      rw [Nat.pow_eq, Nat.div_lt_iff_lt_mul (Nat.pow_pos (by decide)), ← Nat.pow_add]
      exact small
    omega

end Decimal

/-- A result fits into so many digits if there is one. -/
def Outcome.FitsIn (digits : Nat) (outcome : Outcome Decimal) : Prop :=
  ∀ value, outcome = .ok value → value.FitsIn digits

namespace Outcome.FitsIn

variable {α : Type} {digits : Nat}

theorem ok {value : Decimal} (fits : value.FitsIn digits) :
    Outcome.FitsIn digits (.ok value) := by
  rintro _ ⟨⟩
  exact fits

theorem error (refusal : Refusal) : Outcome.FitsIn digits (.error refusal) := nofun

theorem ite {condition : Prop} {decidable : Decidable condition} {yes no : Outcome Decimal}
    (fits : yes.FitsIn digits) (fitsToo : no.FitsIn digits) :
    Outcome.FitsIn digits (if condition then yes else no) := by
  split
  · exact fits
  · exact fitsToo

theorem bind {first : Outcome α} {next : α → Outcome Decimal}
    (each : ∀ a, first = .ok a → (next a).FitsIn digits) :
    Outcome.FitsIn digits (first >>= next) := by
  intro value came
  obtain ⟨a, same, came⟩ := bind_eq_ok_iff.mp came
  exact each a same value came

end Outcome.FitsIn

namespace Context

open Decimal

variable (ctx : Context)

/-- The number has no more digits than the context, or it has no digits at all. -/
abbrev Bounds (outcome : Outcome Decimal) : Prop := outcome.FitsIn ctx.precision

/- Rounding. -/

/-- The place where the digits of a context end lies so deep that no more are left above it. -/
theorem lt_pow_keptPlace (coefficient : Nat) (exponent : Int) :
    coefficient <
      10 ^ (ctx.precision + (ctx.keptPlace coefficient exponent - exponent).toNat) := by
  have long := lt_pow_digitCount coefficient
  rw [Nat.pow_eq] at long
  refine Nat.lt_of_lt_of_le long (Nat.pow_le_pow_right (by decide) ?_)
  unfold keptPlace leading
  omega

variable {ctx} (some_ : 1 ≤ ctx.precision)

include some_ in
theorem fit_lt (negative : Bool) (coefficient : Nat) (exponent : Int) :
    (ctx.fit negative coefficient exponent).1 < 10 ^ ctx.precision := by
  have small := ctx.lt_pow_keptPlace coefficient exponent
  have least : 10 ^ (ctx.precision - 1) < 10 ^ ctx.precision :=
    Nat.pow_lt_pow_right (by decide) (by omega)
  have kept : (if ctx.keptPlace coefficient exponent = exponent then coefficient
      else dropPlaces ctx.rounding negative coefficient
        (ctx.keptPlace coefficient exponent - exponent).toNat) ≤ 10 ^ ctx.precision := by
    split
    · rename_i same
      rw [same, Int.sub_self, Int.toNat_zero, Nat.add_zero] at small
      exact Nat.le_of_lt small
    · exact dropPlaces_le _ _ small
  unfold fit
  dsimp only
  generalize (if ctx.keptPlace coefficient exponent = exponent then coefficient
    else dropPlaces ctx.rounding negative coefficient
      (ctx.keptPlace coefficient exponent - exponent).toNat) = digits at kept ⊢
  split
  · exact least
  · rename_i other
    exact Nat.lt_of_le_of_ne kept other

theorem bounds_refuse (condition : Signal) : ctx.Bounds (refuse condition) := .error _

include some_ in
theorem bounds_round (negative : Bool) (coefficient : Nat) (exponent : Int) :
    ctx.Bounds (ctx.round negative coefficient exponent) :=
  .ite (.ok (fitsIn_zero _ _))
    (.ite (bounds_refuse _) (.ok (fitsIn_of_lt _ _ (fit_lt some_ negative coefficient exponent))))

variable (x y : Decimal)

theorem bounds_pass : ctx.Bounds (ctx.pass x) := by
  unfold pass
  split
  · exact .ok trivial
  · exact bounds_refuse _

theorem bounds_passEither : ctx.Bounds (ctx.passEither x y) :=
  .ite (bounds_refuse _) (.ite (bounds_pass x) (bounds_pass y))

include some_

/- Arithmetic. -/

theorem bounds_plus : ctx.Bounds (ctx.plus x) := by
  unfold plus
  split
  · exact bounds_round some_ _ _ _
  · exact .ok trivial
  · exact bounds_pass x

theorem bounds_minus : ctx.Bounds (ctx.minus x) := bounds_plus some_ x.flip

theorem bounds_abs : ctx.Bounds (ctx.abs x) := bounds_plus some_ x.magnitude

theorem bounds_sumAligned (m : Bool) (c : Nat) (p : Int) (n : Bool) (d : Nat) (q : Int) :
    ctx.Bounds (ctx.sumAligned m c p n d q) := bounds_round some_ _ _ _

theorem bounds_add : ctx.Bounds (ctx.add x y) := by
  unfold add
  split
  · exact bounds_passEither _ _
  · exact bounds_passEither _ _
  · exact .ite (.ok trivial) (bounds_refuse _)
  · exact .ok trivial
  · exact .ok trivial
  · exact .ite (bounds_sumAligned some_ _ _ _ _ _ _) (bounds_sumAligned some_ _ _ _ _ _ _)

theorem bounds_sub : ctx.Bounds (ctx.sub x y) := bounds_add some_ x y.flip

theorem bounds_mul : ctx.Bounds (ctx.mul x y) := by
  unfold mul
  split
  · exact bounds_passEither _ _
  · exact bounds_passEither _ _
  · exact .ok trivial
  · exact .ite (bounds_refuse _) (.ok trivial)
  · exact .ite (bounds_refuse _) (.ok trivial)
  · exact bounds_round some_ _ _ _

theorem bounds_quotient (negative : Bool) (c : Nat) (p : Int) (d : Nat) (q : Int) :
    ctx.Bounds (ctx.quotient negative c p d q) :=
  .ite (bounds_round some_ _ _ _) (bounds_round some_ _ _ _)

theorem bounds_div : ctx.Bounds (ctx.div x y) := by
  unfold div
  split
  · exact bounds_passEither _ _
  · exact bounds_passEither _ _
  · exact bounds_refuse _
  · exact .ok trivial
  · exact .ok (fitsIn_zero _ _)
  · exact .ite (.ite (bounds_refuse _) (.error _))
      (.ite (bounds_round some_ _ _ _) (bounds_quotient some_ _ _ _ _ _))

theorem bounds_rem : ctx.Bounds (ctx.rem x y) := by
  unfold rem
  split
  · exact bounds_passEither _ _
  · exact bounds_passEither _ _
  · exact bounds_refuse _
  · exact bounds_round some_ _ _ _
  · exact .ite (bounds_refuse _) (.ite (bounds_round some_ _ _ _)
      (.ite (bounds_round some_ _ _ _) (.ite (bounds_refuse _)
        (.ite (bounds_refuse _) (bounds_round some_ _ _ _)))))

/- Elementary functions. -/

theorem bounds_round_halfEven (negative : Bool) (coefficient : Nat) (exponent : Int) :
    ctx.Bounds (ctx.halfEven.round negative coefficient exponent) :=
  @bounds_round ctx.halfEven some_ negative coefficient exponent

theorem bounds_settle (negative : Bool) (enclose : Nat → Enclosure) (attempts first : Nat) :
    ctx.Bounds (ctx.halfEven.settle negative enclose attempts first) := by
  induction attempts generalizing first with
  | zero => exact bounds_round_halfEven some_ _ _ _
  | succ attempts ih => exact .ite (bounds_round_halfEven some_ _ _ _) (ih _)

theorem bounds_exp : ctx.Bounds (ctx.exp x) := by
  unfold exp
  split
  · exact bounds_pass _
  · split
    · exact .ok (fitsIn_zero _ _)
    · exact .ok trivial
  · exact .ite (.ok (fitsIn_one _ _ some_)) (.ite (.ite (.ok (fitsIn_zero _ _)) (bounds_refuse _))
      (bounds_settle some_ _ _ _ _))

omit some_ in
theorem bounds_logarithm {f : Nat → Int → Outcome Decimal}
    (each : ∀ coefficient exponent, ctx.Bounds (f coefficient exponent)) :
    ctx.Bounds (ctx.logarithm f x) := by
  unfold logarithm
  split
  · exact bounds_pass _
  · exact .ite (bounds_refuse _) (.ok trivial)
  · exact .ite (.ok trivial) (.ite (bounds_refuse _) (each _ _))

theorem bounds_ln : ctx.Bounds (ctx.ln x) :=
  bounds_logarithm x fun _ _ => .ite (.ok (fitsIn_zero _ _)) (bounds_settle some_ _ _ _ _)

theorem bounds_log10 : ctx.Bounds (ctx.log10 x) :=
  bounds_logarithm x fun _ _ => .ite (bounds_round_halfEven some_ _ _ _)
    (bounds_settle some_ _ _ _ _)

theorem bounds_sqrt : ctx.Bounds (ctx.sqrt x) := by
  unfold sqrt
  split
  · exact bounds_pass _
  · exact .ite (bounds_refuse _) (.ok trivial)
  · exact .ite (bounds_round some_ _ _ _) (.ite (bounds_refuse _)
      (.ite (bounds_round_halfEven some_ _ _ _) (bounds_round_halfEven some_ _ _ _)))

/- Powers. -/

theorem bounds_unitPower (negative : Bool) (places : Nat) :
    ctx.Bounds (.ok (ctx.unitPower negative places)) := .ok (fitsIn_power _ _ _ some_)

theorem bounds_finish (negative : Bool) : ctx.Bounds (ctx.finish negative x) := by
  unfold finish
  split
  · exact bounds_round some_ _ _ _
  · rename_i special
    refine .ok ?_
    cases x with
    | finite n c e => exact absurd rfl (special n c e)
    | infinite n => exact trivial
    | undefined n s p => exact trivial

theorem bounds_integerPower (negative : Bool) (n : Int) :
    ctx.Bounds (ctx.integerPower negative x n) := by
  have further (work : Context) (start : Decimal) : ctx.Bounds (do
      ctx.finish negative (← work.naturalPower start n.natAbs)) :=
    .bind fun _ _ => bounds_finish some_ _ _
  exact .ite (.bind fun _ _ => further _ _) (further _ x)

theorem bounds_realPower (coefficient : Nat) : ctx.Bounds (ctx.realPower coefficient x y) :=
  .bind fun _ _ => .bind fun _ _ => .bind fun _ _ =>
    .ite (bounds_unitPower some_ _ _) (bounds_finish some_ _ _)

theorem bounds_finitePower (m : Bool) (c : Nat) (p : Int) (n : Bool) (d : Nat) (q : Int) :
    ctx.Bounds (ctx.finitePower x y m c p n d q) := by
  have computed (negative : Bool) : ctx.Bounds (finitePower.compute ctx x y c negative) := by
    unfold finitePower.compute
    split
    · exact bounds_integerPower some_ x _ _
    · exact bounds_realPower some_ x y _
  exact .ite (.ite (bounds_refuse _) (computed _)) (.ite (bounds_round some_ _ _ _) (computed _))

theorem bounds_powerOfOne (negative : Bool) (places : Nat) (n : Bool) (d : Nat) (q : Int) :
    (ctx.powerOfOne negative places n d q).FitsIn ctx.precision := by
  have unit (places : Nat) : (ctx.unitPower negative places).FitsIn ctx.precision :=
    fitsIn_power _ _ _ some_
  unfold powerOfOne
  split
  · split
    · exact fitsIn_one _ _ some_
    · split
      · exact unit _
      · exact unit _
  · exact unit _

theorem bounds_power : ctx.Bounds (ctx.power x y) := by
  have infinite (negative : Bool) : (infinite negative).FitsIn ctx.precision := trivial
  have zero (negative : Bool) (exponent : Int) :
      (finite negative 0 exponent).FitsIn ctx.precision :=
    fitsIn_zero _ _
  have either {condition : Prop} {decidable : Decidable condition} {yes no : Decimal}
      (fits : yes.FitsIn ctx.precision) (fitsToo : no.FitsIn ctx.precision) :
      ctx.Bounds (.ok (if condition then yes else no)) := by
    refine .ok ?_
    split
    · exact fits
    · exact fitsToo
  unfold power
  split
  · exact bounds_passEither _ _
  · exact bounds_passEither _ _
  · refine .ite (either (infinite _) (zero _ _)) (.ite (bounds_refuse _) ?_)
    split
    · exact bounds_unitPower some_ _ _
    · exact either (infinite _) (zero _ _)
    · exact either (zero _ _) (infinite _)
  · exact .ite (bounds_refuse _) (either (zero _ _) (infinite _))
  · exact .ite (bounds_refuse _) (.ite (.ok (fitsIn_one _ _ some_))
      (either (zero _ _) (infinite _)))
  · exact .ite (.ite (bounds_refuse _) (either (infinite _) (zero _ _))) (.ite (bounds_refuse _)
      (.ite (.ok (fitsIn_one _ _ some_)) (.ite (.ok (bounds_powerOfOne some_ _ _ _ _ _))
        (bounds_finitePower some_ _ _ _ _ _ _ _ _))))

/- Series. -/

theorem bounds_sin : ctx.Bounds (ctx.sin x) := .bind fun _ _ => .bind fun _ _ => bounds_plus some_ _

theorem bounds_cos : ctx.Bounds (ctx.cos x) := .bind fun _ _ => .bind fun _ _ => bounds_plus some_ _

end Context

namespace Decimal

/- Integers. -/

/-- Zeros that are dropped are dropped exactly. -/
theorem dropPlaces_of_zeros (mode : Rounding) (negative : Bool) {n zeros places : Nat}
    (positive : n ≠ 0) (few : places ≤ zeros) :
    dropPlaces mode negative (n * 10 ^ zeros) places = n * 10 ^ (zeros - places) := by
  have split_ : n * 10 ^ zeros = n * 10 ^ (zeros - places) * 10 ^ places := by
    rw [Nat.mul_assoc, ← Nat.pow_add, Nat.sub_add_cancel few]
  have long := lt_pow_digitCount (n * 10 ^ zeros)
  rw [Nat.pow_eq] at long
  have enough : ¬ digitCount (n * 10 ^ zeros) < places := by
    intro short
    have least : 10 ^ zeros ≤ n * 10 ^ zeros := Nat.le_mul_of_pos_left _ (by omega)
    have := (Nat.pow_lt_pow_iff_right (by decide : 1 < 10)).mp (Nat.lt_of_le_of_lt least long)
    omega
  have exact_ : n * 10 ^ zeros % 10 ^ places = 0 := by rw [split_, Nat.mul_mod_left]
  rw [dropPlaces, if_neg enough, Nat.pow_eq, mode.quotient_of_dvd negative exact_, split_,
    Nat.mul_div_cancel _ (Nat.pow_pos (by decide))]

/-- The integer beside a number that fits into some digits fits into them. -/
theorem fitsIn_toIntegral {ctx : Context} {digits : Nat} (some_ : 1 ≤ digits) (mode : Rounding)
    {x : Decimal} (fits : x.FitsIn digits) : Outcome.FitsIn digits (ctx.toIntegral mode x) := by
  cases x with
  | infinite negative => exact .ok trivial
  | undefined negative signaling payload =>
    cases signaling with
    | false => exact .ok trivial
    | true => exact .error _
  | finite negative coefficient exponent =>
    obtain ⟨n, zeros, rfl, small⟩ := fits
    refine .ite (.ok ⟨n, zeros, rfl, small⟩) ?_
    split
    · exact .ok (fitsIn_zero _ _)
    · rename_i positive
      refine .ok ?_
      by_cases few : (-exponent).toNat ≤ zeros
      · rw [dropPlaces_of_zeros _ _ (Nat.ne_zero_of_mul_ne_zero_left positive) few]
        exact ⟨n, _, rfl, small⟩
      · have long : n * 10 ^ zeros < 10 ^ (digits - 1 + (-exponent).toNat) := by
          calc n * 10 ^ zeros < 10 ^ digits * 10 ^ zeros :=
                Nat.mul_lt_mul_of_pos_right small (Nat.pow_pos (by decide))
            _ = 10 ^ (digits + zeros) := (Nat.pow_add ..).symm
            _ ≤ 10 ^ (digits - 1 + (-exponent).toNat) :=
              Nat.pow_le_pow_right (by decide) (by omega)
        exact fitsIn_of_lt _ _ (Nat.lt_of_le_of_lt (dropPlaces_le mode negative long)
          (Nat.pow_lt_pow_right (by decide) (by omega)))

end Decimal
end InfixCalc
