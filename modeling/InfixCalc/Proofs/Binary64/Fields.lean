import Mathlib
import InfixCalc.Binary64.Fields

/-!
# The fields of a double

What taking a double apart shows of it: a finite double has a significand, one that equals zero
has none, and one that was made without a sign is not negative.
-/

namespace InfixCalc.Binary64

open Float.Model Float.Model.UnpackedFloat

/- The fields of a word. -/

theorem toNat_unpackExponent (b : BitVec Format.binary64.numBits) :
    (unpackExponent b).toNat = b.toNat / 2 ^ 52 % 2 ^ 11 := by
  simp [unpackExponent, BitVec.extractLsb, Nat.shiftRight_eq_div_pow]

theorem toNat_unpackMantissa (b : BitVec Format.binary64.numBits) :
    (unpackMantissa b).toNat = b.toNat % 2 ^ 52 := by
  simp [unpackMantissa, BitVec.extractLsb]

theorem toNat_unpackSign (b : BitVec Format.binary64.numBits) :
    (unpackSign b).toNat = b.toNat / 2 ^ 63 % 2 := by
  simp [unpackSign, BitVec.extractLsb, Nat.shiftRight_eq_div_pow]

theorem toNat_toBits (x : Float) : x.toModel.toBits.toBitVec.toNat = x.toBits.toNat := rfl

theorem unpackExponent_ne_of_isFinite {b : BitVec Format.binary64.numBits}
    (finite : (UnpackedFloat.unpack Format.binary64 b).isFinite = true) :
    unpackExponent b ≠ -1#_ := by
  intro ones
  unfold UnpackedFloat.unpack at finite
  simp only [ones, if_true] at finite
  split at finite
  · cases finite
  · cases finite

/-- A finite double is taken apart into a sign, a significand and an exponent. -/
theorem exists_finite_of_isFinite {x : Float} (finite : x.isFinite = true) :
    ∃ negative significand exponent, decode x = .finite negative significand exponent := by
  have field : x.toBits.toNat / Nat.pow 2 52 % Nat.pow 2 11 ≠ 2047 := by
    intro full
    refine unpackExponent_ne_of_isFinite finite (BitVec.eq_of_toNat_eq ?_)
    rw [toNat_unpackExponent, toNat_toBits]
    exact full
  unfold decode Parts.ofBits
  simp only [if_neg field]
  split
  · exact ⟨_, _, _, rfl⟩
  · exact ⟨_, _, _, rfl⟩

theorem unpack_of_beq_zero {x : Float} (zero : (x == 0) = true) :
    ∃ sign, x.toModel.unpack = .zero sign := by
  change x.toModel.unpack.beq (.zero .positive) = true at zero
  rw [UnpackedFloat.beq, beq_iff_eq] at zero
  cases unpacked : x.toModel.unpack with
  | zero sign => exact ⟨sign, rfl⟩
  | notANumber =>
    rw [unpacked] at zero
    cases zero
  | infinity sign =>
    rw [unpacked] at zero
    cases sign <;> cases zero
  | finite sign mantissa exponent positive =>
    rw [unpacked] at zero
    cases sign <;> cases zero

theorem decode_of_beq_zero {x : Float} (zero : (x == 0) = true) :
    ∃ negative exponent, decode x = .finite negative 0 exponent := by
  obtain ⟨sign, unpacked⟩ := unpack_of_beq_zero zero
  unfold Float.Model.unpack UnpackedFloat.unpack at unpacked
  simp only at unpacked
  split at unpacked
  · split at unpacked <;> cases unpacked
  · split at unpacked
    · rename_i exponent
      split at unpacked
      · rename_i mantissa
        have field := congrArg BitVec.toNat exponent
        have fraction := congrArg BitVec.toNat mantissa
        rw [toNat_unpackExponent, toNat_toBits] at field
        rw [toNat_unpackMantissa, toNat_toBits] at fraction
        have field : x.toBits.toNat / Nat.pow 2 52 % Nat.pow 2 11 = 0 := field
        have fraction : x.toBits.toNat % Nat.pow 2 52 = 0 := fraction
        unfold decode Parts.ofBits
        simp only [field, fraction]
        exact ⟨_, _, rfl⟩
      · cases unpacked
    · cases unpacked

/- The sign of a word. -/

theorem unpackSign_pack_finite (sign : Sign) {mantissa : Nat} (exponent : Int)
    (positive : 0 < mantissa) :
    unpackSign (UnpackedFloat.pack Format.binary64 (.finite sign mantissa exponent positive)) =
      sign.toBitVec := by
  unfold UnpackedFloat.pack
  simp only
  split
  · exact unpackSign_packComponents sign _ _
  · split
    · exact unpackSign_packComponents sign _ _
    · exact unpackSign_packComponents sign _ _

theorem unpackSign_pack_unpack {b : BitVec Format.binary64.numBits} (unset : unpackSign b = 0#1) :
    unpackSign (UnpackedFloat.pack Format.binary64 (UnpackedFloat.unpack Format.binary64 b)) =
      0#1 := by
  unfold UnpackedFloat.unpack
  simp only [unset, Sign.ofBitVec, if_true]
  split
  · split
    · exact unpackSign_packComponents .positive _ _
    · exact unpackSign_packComponents .positive _ _
  · split
    · split
      · exact unpackSign_packComponents .positive _ _
      · exact unpackSign_pack_finite .positive _ _
    · exact unpackSign_pack_finite .positive _ _

theorem not_negative_of_signed {word : Nat} (small : word < Nat.pow 2 63) {negative : Bool}
    {significand : Nat} {exponent : Int}
    (decoded : decode (signed false word) = .finite negative significand exponent) :
    negative = false := by
  have small : word < 2 ^ 63 := small
  let bits : BitVec Format.binary64.numBits := (UInt64.ofNat word).toBitVec
  have unset : unpackSign bits = 0#1 := by
    refine BitVec.eq_of_toNat_eq ?_
    rw [toNat_unpackSign, UInt64.toNat_toBitVec, UInt64.toNat_ofNat']
    have := Nat.mod_le word (2 ^ 64)
    simp only [BitVec.toNat_ofNat]
    omega
  have kept := congrArg BitVec.toNat (unpackSign_pack_unpack unset)
  rw [toNat_unpackSign] at kept
  have sign : (signed false word).toBits.toNat / Nat.pow 2 63 % 2 = 0 := kept
  unfold decode Parts.ofBits at decoded
  simp only [sign] at decoded
  split at decoded
  · split at decoded <;> cases decoded
  · split at decoded <;> cases decoded <;> rfl

/- Doubles from decimal numbers. -/

theorem ratioWord_le (num den : Nat) : ratioWord num den ≤ infinityWord := by
  have large : Nat.pow 2 52 ≤ infinityWord := by decide
  have word (significand place : Nat) : (if significand < Nat.pow 2 52 then significand
      else min infinityWord (place * Nat.pow 2 52 + (significand - Nat.pow 2 52))) ≤
        infinityWord := by
    split
    · rename_i small
      exact Nat.le_of_lt (Nat.lt_of_lt_of_le small large)
    · exact Nat.min_le_left _ _
  unfold ratioWord
  split
  · exact Nat.zero_le _
  · exact word _ _

theorem exists_ofDecimal_eq (negative : Bool) (digits : Nat) (exponent : Int) :
    ∃ word, word ≤ infinityWord ∧ ofDecimal negative digits exponent = signed negative word := by
  unfold ofDecimal
  split
  · exact ⟨0, Nat.zero_le _, rfl⟩
  · simp only
    split
    · exact ⟨infinityWord, Nat.le_refl _, rfl⟩
    · split
      · exact ⟨0, Nat.zero_le _, rfl⟩
      · split
        · exact ⟨_, ratioWord_le _ _, rfl⟩
        · exact ⟨_, ratioWord_le _ _, rfl⟩

/-- A finite decimal number without a sign is not negative. -/
theorem exists_decode_ofDecimal {digits : Nat} {exponent : Int}
    (finite : (ofDecimal false digits exponent).isFinite = true) :
    ∃ significand place, decode (ofDecimal false digits exponent) =
      .finite false significand place := by
  obtain ⟨negative, significand, place, decoded⟩ := exists_finite_of_isFinite finite
  obtain ⟨word, small, same⟩ := exists_ofDecimal_eq false digits exponent
  have unsigned : negative = false := by
    rw [same] at decoded
    exact not_negative_of_signed (Nat.lt_of_le_of_lt small (by decide)) decoded
  subst unsigned
  exact ⟨significand, place, decoded⟩

/- Doubles from their fields. -/

/-- The significands and exponents of finite doubles. -/
structure Fits (significand : Nat) (exponent : Int) : Prop where
  small : significand < Nat.pow 2 53
  least : leastExponent ≤ exponent
  most : exponent ≤ 971
  full : leastExponent < exponent → Nat.pow 2 52 ≤ significand

/-- The magnitude word of a finite double. -/
def word (significand : Nat) (exponent : Int) : Nat :=
  if significand < Nat.pow 2 52 then significand
  else (exponent + 1075).toNat * Nat.pow 2 52 + (significand - Nat.pow 2 52)

theorem signed_toBits (x : Float) : signed false x.toBits.toNat = x := by
  rw [signed, if_neg (by decide), UInt64.ofNat_toNat, Float.ofBits_toBits]

theorem fits_of_ofBits {bits : Nat} (size : bits < Nat.pow 2 64) {significand : Nat}
    {exponent : Int} (parted : Parts.ofBits bits = .finite false significand exponent) :
    Fits significand exponent ∧ word significand exponent = bits := by
  have whole : Nat.pow 2 52 * (bits / Nat.pow 2 52) + bits % Nat.pow 2 52 = bits :=
    Nat.div_add_mod bits _
  have fraction : bits % Nat.pow 2 52 < Nat.pow 2 52 := Nat.mod_lt bits (by decide)
  have sign : bits / Nat.pow 2 63 = bits / Nat.pow 2 52 / Nat.pow 2 11 := by
    rw [Nat.div_div_eq_div_mul]
  have fields : Nat.pow 2 11 = 2048 := rfl
  have high : bits / Nat.pow 2 52 < 4096 := Nat.div_lt_of_lt_mul size
  have double : Nat.pow 2 53 = 2 * Nat.pow 2 52 := rfl
  have bottom : leastExponent = -1074 := rfl
  unfold Parts.ofBits at parted
  rw [sign, fields] at parted
  unfold word
  generalize bits / Nat.pow 2 52 = field at whole high parted
  generalize bits % Nat.pow 2 52 = rest at whole fraction parted
  simp only at parted
  split at parted
  · split at parted <;> cases parted
  · rename_i notFull
    split at parted
    · rename_i zero
      obtain ⟨unsigned, rfl, rfl⟩ := Parts.finite.inj parted
      have sign := beq_eq_false_iff_ne.mp unsigned
      obtain rfl : field = 0 := by omega
      rw [if_pos fraction]
      exact ⟨⟨by omega, le_rfl, by omega, fun never => absurd never (lt_irrefl _)⟩, by omega⟩
    · rename_i notZero
      obtain ⟨unsigned, rfl, rfl⟩ := Parts.finite.inj parted
      have sign := beq_eq_false_iff_ne.mp unsigned
      have unchanged : field % 2048 = field := by omega
      have place : ((field % 2048 : Nat) - 1075 + 1075 : Int).toNat = field := by omega
      rw [if_neg (by omega), place, Nat.add_sub_cancel_left, Nat.mul_comm]
      exact ⟨⟨by omega, by omega, by omega, fun _ => Nat.le_add_right _ _⟩, whole⟩

/-- A double that is not negative is known by its significand and exponent. -/
theorem eq_of_decode {x : Float} {significand : Nat} {exponent : Int}
    (decoded : decode x = .finite false significand exponent) :
    Fits significand exponent ∧ x = signed false (word significand exponent) := by
  obtain ⟨fits, same⟩ := fits_of_ofBits x.toBits.toNat_lt decoded
  exact ⟨fits, by rw [same, signed_toBits]⟩

end InfixCalc.Binary64
