import InfixCalc.Decimal.Vocabulary
import InfixCalc.Proofs.Outcome

/-!
# What the settings of a builder decide

A precision and a rounding mode decide the context of a builder over decimal numbers, and with it
the values of its two constants. There is a builder exactly if the context has room for two digits
more and both constants have values.
-/

namespace InfixCalc

open InfixCalc.Number

/-- A context with the exponents of the standard ones. -/
structure Context.IsStandard (ctx : Context) : Prop where
  some_ : 1 ≤ ctx.precision
  greatest : ctx.greatest = 999999
  least : ctx.least = -999999

namespace Decimal

variable {precision rounding : Setting} {ctx : Context}

theorem readPrecision_bounds {digits : Nat} (read : readPrecision precision = .ok digits) :
    1 ≤ digits ∧ digits ≤ greatestPrecision := by
  unfold readPrecision at read
  split at read
  · split at read
    · rename_i within
      cases read
      omega
    · cases read
  · split at read
    · cases read
      exact ⟨Nat.le_refl 1, by decide⟩
    · cases read
  · cases read

theorem isStandard_of_readContext (read : readContext precision rounding = .ok ctx) :
    ctx.IsStandard := by
  obtain ⟨digits, reads, read⟩ := bind_eq_ok_iff.mp read
  obtain ⟨mode, _, same⟩ := bind_eq_ok_iff.mp read
  cases same
  exact ⟨(readPrecision_bounds reads).1, rfl, rfl⟩

/-- The context that the settings describe, with room for more digits, has these constants. -/
structure Settles (precision rounding : Setting) (ctx : Context) (pi e : Decimal) : Prop where
  context : readContext precision rounding = .ok ctx
  room : ctx.extended.precision ≤ greatestPrecision
  circle : ctx.pi = .ok pi
  euler : ctx.exp one = .ok e

theorem readWordbook_eq_ok_iff {σ : Type} [RandomSource σ] {book : Wordbook σ Decimal} :
    readWordbook precision rounding = .ok book ↔
      ∃ ctx pi e, Settles precision rounding ctx pi e ∧ book = wordbook ctx pi e := by
  constructor
  · intro read
    obtain ⟨ctx, context, read⟩ := bind_eq_ok_iff.mp read
    simp only at read
    split at read
    · cases read
    · rename_i room
      split at read
      · cases read
      · rename_i settled
        obtain ⟨pi, circle, settled⟩ := bind_eq_ok_iff.mp settled
        obtain ⟨e, euler, same⟩ := bind_eq_ok_iff.mp settled
        cases same
        cases read
        exact ⟨ctx, _, _, ⟨context, Int.not_lt.mp room, circle, euler⟩, rfl⟩
  · rintro ⟨ctx, pi, e, ⟨context, room, circle, euler⟩, rfl⟩
    refine bind_eq_ok_iff.mpr ⟨ctx, context, ?_⟩
    simp only [if_neg (Int.not_lt.mpr room), circle, euler]
    rfl

end Decimal
end InfixCalc
