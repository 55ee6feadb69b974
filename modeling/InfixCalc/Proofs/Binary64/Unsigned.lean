import InfixCalc.Proofs.Binary64.Fields

/-!
# Doubles that are not negative

A double that is taken apart without a sign is its own absolute value and is not below zero. It
equals zero or one only if it is that number. One that is made without a sign is finite or infinity.
-/

namespace InfixCalc.Binary64

open Float.Model Float.Model.UnpackedFloat

theorem abs_unpack {b : BitVec Format.binary64.numBits} (unset : unpackSign b = 0#1) :
    (UnpackedFloat.unpack Format.binary64 b).abs = UnpackedFloat.unpack Format.binary64 b := by
  unfold UnpackedFloat.unpack
  simp only [unset, Sign.ofBitVec, if_true]
  split
  · split
    · rfl
    · rfl
  · split
    · split
      · rfl
      · rfl
    · rfl

theorem unpack_not_lt_zero {b : BitVec Format.binary64.numBits} (unset : unpackSign b = 0#1) :
    (UnpackedFloat.unpack Format.binary64 b).lt (.zero .positive) = false := by
  unfold UnpackedFloat.unpack
  simp only [unset, Sign.ofBitVec, if_true]
  split
  · split
    · rfl
    · rfl
  · split
    · split
      · rfl
      · rfl
    · rfl

theorem pack_unpack_model (model : Float.Model) : Float.Model.pack model.unpack = model :=
  (Float.Model.mk.injEq _ _ _ _).mpr
    (congrArg UInt64.ofBitVec (pack_unpack_of_valid model.valid (by decide)))

section Decoded

variable {x : Float} {significand : Nat} {exponent : Int}
  (decoded : decode x = .finite false significand exponent)
include decoded

theorem unpackSign_of_decode :
    @unpackSign Format.binary64 x.toModel.toBits.toBitVec = 0#1 := by
  have sign : (x.toBits.toNat / Nat.pow 2 63 % 2 == 1) = false := by
    unfold decode Parts.ofBits at decoded
    simp only at decoded
    split at decoded
    · split at decoded <;> cases decoded
    · split at decoded
      · exact (Parts.finite.inj decoded).1
      · exact (Parts.finite.inj decoded).1
  have small := Nat.mod_lt (x.toBits.toNat / Nat.pow 2 63) Nat.two_pos
  have notOne := beq_eq_false_iff_ne.mp sign
  refine BitVec.eq_of_toNat_eq ?_
  rw [toNat_unpackSign, toNat_toBits]
  change x.toBits.toNat / Nat.pow 2 63 % 2 = 0
  omega

theorem abs_of_decode : x.abs = x := by
  have same : x.toModel.unpack.abs = x.toModel.unpack :=
    abs_unpack (unpackSign_of_decode decoded)
  change Float.ofModel (Float.Model.pack x.toModel.unpack.abs) = x
  rw [same, pack_unpack_model]

theorem not_lt_zero_of_decode : ¬ x < 0 := by
  intro below
  have never := unpack_not_lt_zero (unpackSign_of_decode decoded)
  have holds : x.toModel.unpack.lt (.zero .positive) = true := of_decide_eq_true below
  exact Bool.noConfusion (never.symm.trans holds)

theorem eq_zero_of_beq (zero : (x == 0) = true) : x = 0 := by
  obtain ⟨negative, place, decodedZero⟩ := decode_of_beq_zero zero
  obtain ⟨_, rfl, rfl⟩ := Parts.finite.inj (decoded.symm.trans decodedZero)
  have same := (eq_of_decode decoded).2
  rw [word, if_pos (by decide)] at same
  exact same

end Decoded

theorem eq_one_of_beq {x : Float} (one : (x == 1) = true) : x = 1 := by
  obtain ⟨_, _, same | ⟨_, never⟩ | ⟨_, never⟩⟩ := Float.beq_iff_ne_nan_and_eq.mp one
  · exact same
  · exact absurd never (by decide)
  · exact absurd never (by decide)

/- Doubles that are made without a sign. -/

theorem isFinite_signed {word : Nat} (small : word < infinityWord) :
    (signed false word).isFinite = true := by
  let bits : BitVec Format.binary64.numBits := (UInt64.ofNat word).toBitVec
  have notFull : unpackExponent bits ≠ -1#_ := by
    intro full
    have field := congrArg BitVec.toNat full
    rw [toNat_unpackExponent, UInt64.toNat_toBitVec, UInt64.toNat_ofNat'] at field
    have high : word / 2 ^ 52 < 2047 := Nat.div_lt_of_lt_mul (by rwa [Nat.mul_comm])
    have size : word < 2 ^ 64 := small.trans (by decide)
    rw [Nat.mod_eq_of_lt size, Nat.mod_eq_of_lt (high.trans (by decide))] at field
    exact absurd field (Nat.ne_of_lt high)
  have defined : isNaNBits bits = false := decide_eq_false fun full => notFull full.1
  change (UnpackedFloat.unpack Format.binary64 (UnpackedFloat.pack Format.binary64
    (UnpackedFloat.unpack Format.binary64 bits))).isFinite = true
  rw [UnpackedFloat.pack_unpack bits, defined, if_neg Bool.false_ne_true]
  unfold UnpackedFloat.unpack
  simp only [if_neg notFull]
  split
  · split
    · rfl
    · rfl
  · rfl

/-- A decimal number without a sign that gives no finite double gives infinity. -/
theorem ofDecimal_eq_infinity {digits : Nat} {exponent : Int}
    (infinite : (ofDecimal false digits exponent).isFinite = false) :
    ofDecimal false digits exponent = signed false infinityWord := by
  obtain ⟨word, most, same⟩ := exists_ofDecimal_eq false digits exponent
  rw [same] at infinite ⊢
  rcases Nat.lt_or_eq_of_le most with small | rfl
  · exact Bool.noConfusion ((isFinite_signed small).symm.trans infinite)
  · rfl

end InfixCalc.Binary64
