import InfixCalc.Proofs.Decimal.Answers
import InfixCalc.Proofs.Decimal.Circle

/-!
# The constants of a builder

In a standard context whose rounding lets the circle number rest, its series ends with a sum that
more rounds do not change, and the exponential of one is a rounded sum of a series. So there is a
builder with every such context that leaves room for the two digits more that the circle takes.
-/

namespace InfixCalc

open InfixCalc.Number InfixCalc.Decimal

namespace Enclosure

variable {scale r : Nat}

theorem expTerm_le (small : r ≤ scale) (n term : Nat) :
    term * r / (scale * (n + 1)) ≤ term / (n + 1) :=
  calc term * r / (scale * (n + 1)) ≤ term * scale / (scale * (n + 1)) :=
        Nat.div_le_div_right (Nat.mul_le_mul_left term small)
    _ = term * scale / scale / (n + 1) := (Nat.div_div_eq_div_mul _ _ _).symm
    _ ≤ term / (n + 1) :=
        Nat.div_le_div_right (Nat.div_le_of_le_mul (Nat.mul_comm term scale).le)

/-- From the second on, each term of the exponential of a number up to one is at most half of the
one before. -/
theorem expLow_le_double (small : r ≤ scale) (count : Nat) {n : Nat} (late : 1 ≤ n) (term : Nat) :
    expLow scale r count n term ≤ 2 * term := by
  induction count generalizing n term with
  | zero => exact Nat.zero_le _
  | succ count ih =>
    rw [expLow]
    split
    · exact Nat.zero_le _
    · have half : term / (n + 1) ≤ term / 2 := Nat.div_le_div_left (by omega) (by norm_num)
      have next := expTerm_le small n term
      have rest := ih (Nat.le_add_left 1 n) (term * r / (scale * (n + 1)))
      omega

theorem expLow_le_triple (small : r ≤ scale) (count term : Nat) :
    expLow scale r count 0 term ≤ 3 * term := by
  cases count with
  | zero => exact Nat.zero_le _
  | succ count =>
    rw [expLow]
    split
    · exact Nat.zero_le _
    · have next := expTerm_le small 0 term
      have rest := expLow_le_double small count le_rfl (term * r / (scale * (0 + 1)))
      simp only [zero_add, Nat.div_one] at next rest ⊢
      omega

theorem le_oddHigh (a b count power : Nat) : power ≤ oddHigh a b count 0 power := by
  cases count with
  | zero =>
    rw [oddHigh, ceilDiv]
    omega
  | succ count =>
    rw [oddHigh, ceilDiv]
    split <;> omega

/-- The logarithm of ten is above one. -/
theorem lt_lnTen (digits : Nat) : 10 ^ digits < (lnTen digits).2 := by
  have two := le_oddHigh 1 3 (terms digits) (ceilDiv (10 ^ digits * 1) 3)
  have scale := Nat.pow_pos (n := digits) (show 0 < 10 by norm_num)
  have third : 10 ^ digits ≤ 3 * ceilDiv (10 ^ digits * 1) 3 := by
    rw [ceilDiv]
    omega
  have ratio : (lnRatio digits 2 1).2 =
      2 * oddHigh 1 3 (terms digits) 0 (ceilDiv (10 ^ digits * 1) 3) := rfl
  have total : (lnTen digits).2 = 3 * (lnRatio digits 2 1).2 + (lnRatio digits 5 4).2 := rfl
  omega

/-- The exponential of one is the sum of the series itself. -/
theorem exp_one (digits : Nat) :
    (exp false 1 0 digits).low =
        expLow (10 ^ digits) (10 ^ digits) (terms digits) 0 (10 ^ digits) ∧
      (exp false 1 0 digits).exponent = -digits := by
  have shown : scaled 1 0 digits = (10 ^ digits, 10 ^ digits) := by
    rw [scaled, if_pos (by omega), zero_add, Int.toNat_natCast, one_mul, Nat.pow_eq]
  have none_ : 10 ^ digits / (lnTen digits).2 = 0 := Nat.div_eq_of_lt (lt_lnTen digits)
  simp [exp, shown, none_]

end Enclosure

namespace Context

variable {ctx : Context}

/-- What is settled is rounded at some scale. -/
theorem exists_settle_eq (negative : Bool) (enclose : Nat → Enclosure) (attempts start : Nat) :
    ∃ digits, ctx.settle negative enclose attempts start =
      ctx.round negative (enclose digits).low (enclose digits).exponent := by
  induction attempts generalizing start with
  | zero => exact ⟨start, rfl⟩
  | succ attempts ih =>
    rw [settle]
    split
    · exact ⟨start, rfl⟩
    · exact ih (2 * start)

theorem exp_one (ctx : Context) : ctx.exp .one =
    ctx.halfEven.settle false (Enclosure.exp false 1 0) attempts (ctx.firstDigits 1 0) := by
  rw [Decimal.one, ofNat, exp, if_neg one_ne_zero, if_neg (by decide)]

theorem IsStandard.exists_exp_one (standard : ctx.IsStandard) : ∃ e, ctx.exp .one = .ok e := by
  obtain ⟨digits, settled⟩ := ctx.halfEven.exists_settle_eq false (Enclosure.exp false 1 0)
    attempts (ctx.firstDigits 1 0)
  obtain ⟨low, exponent⟩ := Enclosure.exp_one digits
  rw [low, exponent] at settled
  have few := Enclosure.expLow_le_triple (le_refl (10 ^ digits)) (Enclosure.terms digits)
    (10 ^ digits)
  generalize Enclosure.expLow _ _ _ _ _ = sum at few settled
  have proper : ctx.halfEven.IsProper := ⟨standard.some_, standard.proper.room⟩
  have scale := ten_zpow_pos (-digits : ℤ)
  have three : (sum : ℚ) * 10 ^ (-digits : ℤ) ≤ 3 := by
    calc (sum : ℚ) * 10 ^ (-digits : ℤ) ≤ (3 * 10 ^ digits : Nat) * 10 ^ (-digits : ℤ) :=
          mul_le_mul_of_nonneg_right (by exact_mod_cast few) scale.le
      _ = 3 := by
        rw [zpow_neg, zpow_natCast]
        push_cast
        field_simp
  have nonneg : 0 ≤ (sum : ℚ) * 10 ^ (-digits : ℤ) := mul_nonneg (Nat.cast_nonneg _) scale.le
  have near := abs_rounded_le proper.some_ (signedBy false ((sum : ℚ) * 10 ^ (-digits : ℤ)))
  rw [abs_signedBy, abs_of_nonneg nonneg] at near
  have tiny : ctx.halfEven.unit ≤ 1 := standard.deep.unit_le_one
  have room : (100 : ℚ) ≤ 10 ^ (ctx.halfEven.greatest + 1) :=
    (ten_zpow_le (show (2 : ℤ) ≤ ctx.halfEven.greatest + 1 by
      linarith [show 20 ≤ ctx.halfEven.greatest from standard.deep.high])).trans' (by norm_num)
  obtain ⟨e, came, _⟩ := ((gives_round proper false sum (-digits)).yields fun _ : True => by
    linarith).exists_eq_ok trivial
  exact ⟨e, ctx.exp_one.trans (settled.trans came)⟩

/-- A context with standard exponents and no more digits than there can be is roomy. -/
theorem IsStandard.roomy (standard : ctx.IsStandard)
    (room : ctx.extended.precision ≤ greatestPrecision) : ctx.extended.IsRoomy := by
  have few : 4 * ctx.extended.precision + 5 ≤ 10 ^ 19 := by
    rw [greatestPrecision] at room
    omega
  have square : (((4 * ctx.extended.precision + 5) ^ 2 : Nat) : ℚ) ≤ ((10 ^ 19) ^ 2 : Nat) := by
    exact_mod_cast Nat.pow_le_pow_left few 2
  have high : (10 : ℚ) ^ (39 : ℤ) ≤ 10 ^ (ctx.extended.greatest + 1) := by
    refine ten_zpow_le ?_
    rw [extended, standard.greatest]
    norm_num
  unfold IsRoomy
  norm_num at square high ⊢
  linarith

/-- The series for the circle number ends with a sum that more rounds do not change. -/
theorem IsStandard.exists_circleSum (standard : ctx.IsStandard) (rests : ctx.rounding.Rests)
    (room : ctx.extended.precision ≤ greatestPrecision) :
    ∃ sum, ∀ rounds, 2 * ctx.precision + 6 ≤ rounds →
      CircleSum.start.rest ctx.extended rounds = .ok sum := by
  obtain ⟨sum, ended, _⟩ := (yields_circleSum standard.deep rests
    (le_refl (2 * ctx.extended.precision + 2))).exists_eq_ok (standard.roomy room)
  exact ⟨sum, fun rounds enough => CircleSum.rest_eq_ok_of_le ended enough⟩

end Context

namespace Decimal

variable {σ : Type} [RandomSource σ] {precision rounding cacheSize maxDepth : Setting}
  {ctx : Context} {config : Config Decimal}

theorem exists_settles (read : readContext precision rounding = .ok ctx)
    (rests : ctx.rounding.Rests) (room : ctx.extended.precision ≤ greatestPrecision) :
    ∃ pi e, Settles precision rounding ctx pi e := by
  have standard := isStandard_of_readContext read
  obtain ⟨pi, circle, _⟩ := (standard.yields_pi rests).exists_eq_ok (standard.roomy room)
  obtain ⟨e, euler⟩ := standard.exists_exp_one
  exact ⟨pi, e, read, room, circle, euler⟩

/-- With the other settings in order, a builder depends on its words. -/
theorem builder_eq {cache : Option (Cache (Expression σ Decimal))}
    (configured : Decimal.config maxDepth = .ok config)
    (cached : Builder.cacheOf cacheSize = .ok cache) :
    builder precision rounding cacheSize maxDepth = (readWordbook precision rounding >>=
      fun book : Wordbook σ Decimal => .ok (⟨config, book.vocabulary, cache,
        book.vocabulary.version, none, 0⟩ : Builder σ Decimal)) := by
  simp only [builder, Builder.make, configured, cached]
  rfl

theorem exists_builder {cache : Option (Cache (Expression σ Decimal))}
    (read : readContext precision rounding = .ok ctx) (rests : ctx.rounding.Rests)
    (configured : Decimal.config maxDepth = .ok config)
    (cached : Builder.cacheOf cacheSize = .ok cache)
    (room : ctx.extended.precision ≤ greatestPrecision) :
    ∃ first : Builder σ Decimal,
      builder precision rounding cacheSize maxDepth = .ok first ∧ first.config = config := by
  obtain ⟨pi, e, settles⟩ := exists_settles read rests room
  have book : readWordbook precision rounding = .ok (wordbook ctx pi e : Wordbook σ Decimal) :=
    readWordbook_eq_ok_iff.mpr ⟨_, _, _, settles, rfl⟩
  rw [builder_eq configured cached, book]
  exact ⟨_, rfl, rfl⟩

theorem builder_of_no_room {cache : Option (Cache (Expression σ Decimal))}
    (read : readContext precision rounding = .ok ctx)
    (configured : Decimal.config maxDepth = .ok config)
    (cached : Builder.cacheOf cacheSize = .ok cache)
    (full : greatestPrecision < ctx.precision + 2) :
    (builder precision rounding cacheSize maxDepth : Except Failure (Builder σ Decimal)) =
      .error .unreadableValue := by
  have refused : (readWordbook precision rounding : Except Failure (Wordbook σ Decimal)) =
      .error .unreadableValue := by
    rw [readWordbook, read]
    exact if_pos full
  rw [builder_eq configured cached, refused]
  rfl

/-- Where the settings describe a context whose rounding lets the circle number rest, its series
ends and there is a builder, unless two digits more are too many digits. -/
theorem builder_of_readContext {cache : Option (Cache (Expression σ Decimal))}
    (read : readContext precision rounding = .ok ctx) (rests : ctx.rounding.Rests)
    (configured : Decimal.config maxDepth = .ok config)
    (cached : Builder.cacheOf cacheSize = .ok cache) :
    (ctx.precision + 2 ≤ greatestPrecision →
      (∃ sum, ∀ rounds, 2 * ctx.precision + 6 ≤ rounds →
        Context.CircleSum.start.rest ctx.extended rounds = .ok sum) ∧
      ∃ first : Builder σ Decimal, builder precision rounding cacheSize maxDepth = .ok first) ∧
    (greatestPrecision < ctx.precision + 2 →
      (builder precision rounding cacheSize maxDepth : Except Failure (Builder σ Decimal)) =
        .error .unreadableValue) := by
  refine ⟨fun room => ?_, builder_of_no_room read configured cached⟩
  obtain ⟨first, made, _⟩ := exists_builder read rests configured cached room
  exact ⟨(isStandard_of_readContext read).exists_circleSum rests room, first, made⟩

/-- There is a builder with one digit, and none with the greatest precision. -/
theorem builder_of_readContext_one :
    (∃ first : Builder Seed Decimal,
      builder (.whole 1) (.text "ROUND_05UP") .absent (.whole 128) = .ok first) ∧
    (builder (.whole greatestPrecision) (.text "ROUND_05UP") .absent (.whole 128) :
      Except Failure (Builder Seed Decimal)) = .error .unreadableValue := by
  have one : readContext (.whole 1) (.text "ROUND_05UP") = .ok (.standard 1 .zeroFiveUp) := rfl
  have most : readContext (.whole greatestPrecision) (.text "ROUND_05UP") =
      .ok (.standard 999999999999999999 .zeroFiveUp) := rfl
  have rests : Rounding.zeroFiveUp.Rests := ⟨by decide, by decide⟩
  exact ⟨((builder_of_readContext one rests rfl rfl).1 (by decide)).2,
    (builder_of_readContext most rests rfl rfl).2 (by decide)⟩

/-- A context of the greatest precision can be described, but no builder has it. -/
theorem no_builder_of_greatestPrecision :
    (∃ ctx, readContext (.whole 999999999999999999) (.text "ROUND_HALF_EVEN") = .ok ctx ∧
      ctx.precision = 999999999999999999 ∧ ctx.rounding = .halfEven) ∧
    ∀ first : Builder Seed Decimal,
      builder (.whole 999999999999999999) (.text "ROUND_HALF_EVEN") .absent (.whole 128) ≠
        .ok first := by
  have read : readContext (.whole 999999999999999999) (.text "ROUND_HALF_EVEN") =
      .ok (.standard 999999999999999999 .halfEven) := rfl
  refine ⟨⟨_, read, rfl, rfl⟩, fun first made => ?_⟩
  rw [builder_of_no_room read rfl rfl (by decide)] at made
  cases made

end Decimal
end InfixCalc
