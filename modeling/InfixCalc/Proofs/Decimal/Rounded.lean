import InfixCalc.Decimal.Arithmetic
import InfixCalc.Proofs.Decimal.Nearest
import InfixCalc.Proofs.Decimal.Text
import InfixCalc.Proofs.Outcome

/-!
# Correctly rounded arithmetic

Sums, products and quotients of finite decimals are the exact results, brought into the context
once: the stand-in for a summand far below, and the mark for what is left of a quotient, go to the
same number as what they stand for.
-/

namespace InfixCalc

open InfixCalc.Number

namespace Decimal

/-- The number with the sign. -/
def signedBy (negative : Bool) (v : ℚ) : ℚ := if negative then -v else v

theorem cast_signed (negative : Bool) (n : Nat) :
    ((signed negative n : ℤ) : ℚ) = signedBy negative n := by
  cases negative <;> simp [signed, signedBy]

theorem value?_finite (negative : Bool) (n : Nat) (e : ℤ) :
    (Decimal.finite negative n e).value? = some (signedBy negative (n * 10 ^ e)) := by
  rw [value?, cast_signed]
  cases negative <;> simp [signedBy]

theorem abs_signedBy (negative : Bool) (v : ℚ) : |signedBy negative v| = |v| := by
  cases negative <;> simp [signedBy]

theorem signedBy_inj {negative : Bool} {v w : ℚ} :
    signedBy negative v = signedBy negative w ↔ v = w := by
  cases negative <;> simp [signedBy]

theorem signedBy_mul (m n : Bool) (v w : ℚ) :
    signedBy m v * signedBy n w = signedBy (m != n) (v * w) := by
  cases m <;> cases n <;> simp [signedBy]

theorem exists_of_value? {x : Decimal} {v : ℚ} (valued : x.value? = some v) :
    ∃ negative n e, x = .finite negative n e ∧ v = signedBy negative (n * 10 ^ e) := by
  cases x with
  | finite negative n e =>
    rw [value?_finite] at valued
    exact ⟨negative, n, e, rfl, (Option.some.inj valued).symm⟩
  | infinite negative => cases valued
  | undefined negative signaling payload => cases valued

theorem leading_eq {n : Nat} (positive : n ≠ 0) (e : ℤ) :
    leading n e = Int.log 10 ((n : ℚ) * 10 ^ e) := by
  have low := pow_digitCount_le positive
  have high := lt_pow_digitCount n
  have some_ := digitCount_pos n
  rw [Nat.pow_eq] at low high
  symm
  have scaled (k : Nat) : (10 : ℚ) ^ (e + k) = ((10 ^ k : Nat) : ℚ) * 10 ^ e := by
    rw [ten_zpow_add, zpow_natCast, mul_comm]
    push_cast
    rfl
  have unit := ten_zpow_pos e
  refine log_eq ?_ ?_
  · rw [leading, show e + digitCount n - 1 = e + ((digitCount n - 1 : Nat) : ℤ) by omega, scaled]
    exact mul_le_mul_of_nonneg_right (by exact_mod_cast low) unit.le
  · rw [leading, show e + digitCount n - 1 + 1 = e + ((digitCount n : Nat) : ℤ) by omega, scaled]
    exact mul_lt_mul_of_pos_right (by exact_mod_cast high) unit

end Decimal

namespace Context

open Decimal

/-- The number of the context that a rational number goes to. -/
def rounded (ctx : Context) (v : ℚ) : ℚ :=
  if v < 0 then -ctx.nearest true (-v) else ctx.nearest false v

/-- A context that keeps a digit and holds numbers of its last place. -/
structure IsProper (ctx : Context) : Prop where
  some_ : 1 ≤ ctx.precision
  room : ctx.lastPlace ≤ ctx.greatest

variable {ctx : Context}

theorem rounded_signedBy (negative : Bool) {v : ℚ} (nonneg : 0 ≤ v) :
    ctx.rounded (signedBy negative v) = signedBy negative (ctx.nearest negative v) := by
  rcases nonneg.eq_or_lt with rfl | positive
  · cases negative <;> simp [signedBy, rounded, nearest_zero]
  · cases negative with
    | false => rw [signedBy, if_neg Bool.false_ne_true, rounded, if_neg positive.le.not_gt]; rfl
    | true =>
      rw [signedBy, if_pos rfl, rounded, if_pos (neg_lt_zero.mpr positive), neg_neg]
      rfl

/- Rounding. -/

theorem keptPlace_eq {n : Nat} (positive : n ≠ 0) (e : ℤ) :
    ctx.keptPlace n e = max e (ctx.place (n * 10 ^ e)) := by
  rw [keptPlace, place, leading_eq positive]

theorem dropPlaces_eq (mode : Rounding) (negative : Bool) {n : Nat} (positive : n ≠ 0)
    (places : Nat) :
    dropPlaces mode negative n places = mode.nearest negative (n / 10 ^ places) := by
  rw [dropPlaces]
  split_ifs with far
  · have one : min n 1 = 1 := by omega
    have high := lt_pow_digitCount n
    rw [Nat.pow_eq] at high
    have room : n * 10 < 10 ^ places := by
      calc n * 10 < 10 ^ digitCount n * 10 := by omega
        _ = 10 ^ (digitCount n + 1) := (Nat.pow_succ ..).symm
        _ ≤ 10 ^ places := Nat.pow_le_pow_right (by norm_num) far
    have small : (n : ℚ) / 10 ^ places ≤ 1 / 10 := by
      rw [div_le_div_iff₀ (by positivity) (by norm_num)]
      exact_mod_cast (by omega : n * 10 ≤ 1 * 10 ^ places)
    have above : 0 < (n : ℚ) / 10 ^ places :=
      div_pos (by exact_mod_cast Nat.pos_of_ne_zero positive) (by positivity)
    rw [one, Rounding.quotient_eq_nearest _ _ _ (show 0 < 10 by norm_num)]
    refine (Rounding.nearest_congr above.le (by exact_mod_cast small) fun k low => ?_).symm
    have counted : 0 < k := by
      by_contra none_
      have zero : k = 0 := by omega
      rw [zero, Nat.cast_zero, zero_div] at low
      linarith
    have half : (1 : ℚ) ≤ k := by exact_mod_cast counted
    push_cast
    linarith
  · rw [Nat.pow_eq, Rounding.quotient_eq_nearest _ _ _ (show 0 < 10 ^ places by positivity)]
    push_cast
    rfl

variable (proper : ctx.IsProper)

include proper in
theorem fit_eq (negative : Bool) {n : Nat} (positive : n ≠ 0) (e : ℤ) :
    ((ctx.fit negative n e).1 : ℚ) * 10 ^ (ctx.fit negative n e).2 =
      ctx.nearest negative (n * 10 ^ e) := by
  have same : ((if ctx.keptPlace n e = e then n
      else dropPlaces ctx.rounding negative n (ctx.keptPlace n e - e).toNat : Nat) : ℚ) *
        10 ^ ctx.keptPlace n e = ctx.nearest negative (n * 10 ^ e) := by
    rw [keptPlace_eq positive]
    rcases le_or_gt (ctx.place (n * 10 ^ e)) e with low | high
    · rw [max_eq_left low, if_pos rfl, nearest_of_multiple rfl low]
    · rw [max_eq_right high.le, if_neg high.ne', dropPlaces_eq _ _ positive, nearest]
      congr 3
      rw [div_eq_div_iff (by positivity) (ten_zpow_pos _).ne', mul_assoc, ← zpow_natCast,
        ← ten_zpow_add, Int.toNat_of_nonneg (by omega)]
      congr 2
      omega
  unfold fit
  dsimp only
  generalize (if ctx.keptPlace n e = e then n
    else dropPlaces ctx.rounding negative n (ctx.keptPlace n e - e).toNat) = kept at same ⊢
  rw [← same]
  split_ifs with full
  · obtain ⟨p, next⟩ : ∃ p, ctx.precision = p + 1 := Nat.exists_eq_succ_of_ne_zero
      (Nat.one_le_iff_ne_zero.mp proper.some_)
    rw [full, Nat.pow_eq, Nat.pow_eq, next, Nat.add_sub_cancel, ten_zpow_succ]
    push_cast
    ring
  · rfl

/-- The outcome is a number, unless the number is too large for the context. -/
inductive Gives (ctx : Context) (v : ℚ) : Outcome Decimal → Prop where
  | number {d : Decimal} (shows : d.value? = some v) (small : |v| < 10 ^ (ctx.greatest + 1)) :
    ctx.Gives v (.ok d)
  | overflow (large : 10 ^ (ctx.greatest + 1) ≤ |v|) : ctx.Gives v (refuse .overflow)

include proper in
/-- What is rounded to nothing ends at the last place. -/
theorem fit_place {negative : Bool} {n : Nat} (positive : n ≠ 0) {e : ℤ}
    (nothing : (ctx.fit negative n e).1 = 0) : (ctx.fit negative n e).2 = ctx.lastPlace := by
  unfold fit at nothing ⊢
  dsimp only at nothing ⊢
  by_cases full : (if ctx.keptPlace n e = e then n
      else dropPlaces ctx.rounding negative n (ctx.keptPlace n e - e).toNat) =
        Nat.pow 10 ctx.precision
  · rw [if_pos full, Nat.pow_eq] at nothing
    exact absurd nothing (pow_ne_zero _ (by norm_num))
  · rw [if_neg full] at nothing ⊢
    rw [keptPlace_eq positive] at nothing ⊢
    have here : ¬ max e (ctx.place (n * 10 ^ e)) = e := fun here =>
      positive ((if_pos here).symm.trans nothing)
    rw [if_neg here] at nothing
    have deep : e < ctx.place (n * 10 ^ e) := by
      by_contra low
      exact here (max_eq_left (not_lt.mp low))
    rw [max_eq_right deep.le] at nothing ⊢
    rw [dropPlaces_eq _ _ positive] at nothing
    have small : (n : ℚ) * 10 ^ e < 10 ^ ctx.place (n * 10 ^ e) := by
      by_contra large
      have whole : 1 ≤ ⌊(n : ℚ) / 10 ^ (ctx.place (n * 10 ^ e) - e).toNat⌋₊ := by
        rw [Nat.one_le_floor_iff, one_le_div (by positivity), ← zpow_natCast,
          Int.toNat_of_nonneg (by omega), zpow_sub₀ (by norm_num), div_le_iff₀ (ten_zpow_pos e)]
        exact not_lt.mp large
      have near := ctx.rounding.floor_le_nearest negative
        ((n : ℚ) / 10 ^ (ctx.place (n * 10 ^ e) - e).toNat)
      omega
    have log := log_lt_of_lt (mul_pos (by exact_mod_cast Nat.pos_of_ne_zero positive)
      (ten_zpow_pos e)) small
    have := proper.some_
    unfold place at log ⊢
    omega

include proper in
theorem gives_round (negative : Bool) (n : Nat) (e : ℤ) :
    ctx.Gives (ctx.rounded (signedBy negative (n * 10 ^ e))) (ctx.round negative n e) := by
  rw [rounded_signedBy negative (mul_nonneg (Nat.cast_nonneg n) (ten_zpow_pos e).le)]
  unfold Context.round
  split
  · rename_i zero
    have none_ : signedBy negative (ctx.nearest negative ((n : ℚ) * 10 ^ e)) = 0 := by
      rw [zero, Nat.cast_zero, zero_mul, nearest_zero]
      simp [signedBy]
    rw [none_]
    refine .number ?_ (by rw [abs_zero]; exact ten_zpow_pos _)
    rw [value?_finite]
    simp [signedBy]
  · rename_i positive
    have fits := fit_eq proper negative positive e
    have place : (ctx.fit negative n e).1 = 0 → (ctx.fit negative n e).2 = ctx.lastPlace :=
      fit_place proper positive
    generalize ctx.fit negative n e = fitted at fits place
    obtain ⟨kept, exponent⟩ := fitted
    dsimp only at fits place ⊢
    rw [← fits]
    rcases eq_or_ne kept 0 with rfl | some_
    · have low : ¬ ctx.greatest < leading 0 exponent := by
        have : leading 0 exponent = exponent := by simp [leading, digitCount, digitCountWithin]
        rw [this, place rfl, not_lt]
        exact proper.room
      rw [if_neg low]
      refine .number (value?_finite _ _ _) ?_
      rw [abs_signedBy, Nat.cast_zero, zero_mul, abs_zero]
      exact ten_zpow_pos _
    · have positive : (0 : ℚ) < kept * 10 ^ exponent :=
        mul_pos (by exact_mod_cast Nat.pos_of_ne_zero some_) (ten_zpow_pos _)
      rw [leading_eq some_]
      split
      · rename_i large
        refine .overflow ?_
        rw [abs_signedBy, abs_of_pos positive]
        exact (ten_zpow_le large).trans (ten_log_le positive)
      · rename_i small
        refine .number (value?_finite _ _ _) ?_
        rw [abs_signedBy, abs_of_pos positive]
        exact (lt_ten_log _).trans_le (ten_zpow_le (by omega))

/- Products. -/

variable {x y : Decimal} {v w : ℚ} (shows : x.value? = some v) (shows' : y.value? = some w)

include proper shows in
theorem gives_plus : ctx.Gives (ctx.rounded v) (ctx.plus x) := by
  obtain ⟨negative, n, e, rfl, rfl⟩ := exists_of_value? shows
  have rounds := gives_round proper
    (negative && (n != 0 || ctx.rounding == .floor)) n e
  rw [plus]
  rcases Nat.eq_zero_or_pos n with rfl | positive
  · simpa [signedBy] using rounds
  · have kept : (n != 0) = true := bne_iff_ne.mpr positive.ne'
    rw [kept, Bool.true_or, Bool.and_true] at rounds ⊢
    exact rounds

include proper shows shows' in
theorem gives_mul : ctx.Gives (ctx.rounded (v * w)) (ctx.mul x y) := by
  obtain ⟨m, c, p, rfl, rfl⟩ := exists_of_value? shows
  obtain ⟨n, d, q, rfl, rfl⟩ := exists_of_value? shows'
  have same : signedBy m ((c : ℚ) * 10 ^ p) * signedBy n (d * 10 ^ q) =
      signedBy (m != n) ((c * d : Nat) * 10 ^ (p + q)) := by
    rw [signedBy_mul, ten_zpow_add]
    push_cast
    congr 1
    ring
  rw [same]
  exact gives_round proper _ _ _

/- Quotients. -/

theorem marked_cases (n : Nat) :
    n % 5 ≠ 0 ∧ marked n = n ∨ n % 5 = 0 ∧ marked n = n + 1 := by
  unfold marked
  split <;> omega

/-- A magnitude with more digits than the context ends its digits above its last one. -/
theorem lt_place {e : ℤ} (long : 10 ^ ctx.precision * 10 ^ e ≤ v) : e < ctx.place v := by
  have top : e + ctx.precision ≤ Int.log 10 v := by
    refine le_log_of_le ?_
    rw [ten_zpow_add, mul_comm, zpow_natCast]
    exact long
  have := le_max_right ctx.lastPlace (Int.log 10 v - ctx.precision + 1)
  unfold place
  omega

/-- What is left of a quotient goes to the same number as the mark for it. -/
theorem nearest_marked {negative : Bool} {num den : Nat} (e : ℤ) (inexact : num % den ≠ 0)
    (long : 10 ^ ctx.precision ≤ num / den) :
    ctx.nearest negative (marked (num / den) * 10 ^ e) =
      ctx.nearest negative (num / den * 10 ^ e) := by
  have unit := ten_zpow_pos e
  have positive : 0 < den := Nat.pos_of_ne_zero fun zero => by
    rw [zero, Nat.div_zero] at long
    exact (pow_pos (by norm_num) ctx.precision).ne' (Nat.le_zero.mp long)
  have below : ((num / den : Nat) : ℚ) < num / den := by
    rw [lt_div_iff₀ (by exact_mod_cast positive)]
    have split := Nat.div_add_mod num den
    exact_mod_cast (by rw [Nat.mul_comm]; omega : num / den * den < num)
  have above : (num : ℚ) / den < (num / den : Nat) + 1 := by
    rw [div_lt_iff₀ (by exact_mod_cast positive)]
    exact_mod_cast Nat.lt_div_mul_add positive |>.trans_eq (by ring)
  have size : (10 : ℚ) ^ ctx.precision ≤ (num / den : Nat) := by exact_mod_cast long
  generalize num / den = n at below above size long ⊢
  have wide : (10 : ℚ) ^ ctx.precision * 10 ^ e ≤ n * 10 ^ e :=
    mul_le_mul_of_nonneg_right size unit.le
  have some_ : (0 : ℚ) < n := (by positivity : (0 : ℚ) < 10 ^ ctx.precision).trans_le size
  have scaled (k : Nat) : (k : ℚ) * (5 * 10 ^ e) = ((k * 5 : Nat) : ℚ) * 10 ^ e := by
    push_cast
    ring
  rcases marked_cases n with ⟨fifth, same⟩ | ⟨fifth, same⟩
  · rw [same]
    refine nearest_congr (mul_pos some_ unit) (mul_le_mul_of_nonneg_right below.le unit.le)
      (lt_place wide) fun k low => ?_
    rw [scaled] at low ⊢
    have counted : n ≤ k * 5 := by exact_mod_cast le_of_mul_le_mul_right low unit
    have next : (n : ℚ) + 1 ≤ (k * 5 : Nat) := by exact_mod_cast (by omega : n + 1 ≤ k * 5)
    exact mul_lt_mul_of_pos_right (above.trans_le next) unit
  · rw [same]
    symm
    refine nearest_congr (mul_pos (some_.trans below) unit)
      (mul_le_mul_of_nonneg_right (by push_cast; exact above.le) unit.le)
      (lt_place (wide.trans (mul_le_mul_of_nonneg_right below.le unit.le))) fun k low => ?_
    rw [scaled] at low ⊢
    have counted : n < k * 5 := by
      exact_mod_cast below.trans_le (le_of_mul_le_mul_right low unit)
    exact mul_lt_mul_of_pos_right (by exact_mod_cast (by omega : n + 1 < k * 5)) unit

theorem stripTo_value (ideal : ℤ) (places n : Nat) (e : ℤ) :
    ((stripTo ideal places n e).1 : ℚ) * 10 ^ (stripTo ideal places n e).2 = n * 10 ^ e := by
  induction places generalizing n e with
  | zero => rfl
  | succ places ih =>
    unfold stripTo
    split
    · rename_i zero
      obtain ⟨m, rfl⟩ := Nat.dvd_of_mod_eq_zero zero.2
      rw [ih, Nat.mul_div_cancel_left m (by norm_num), ten_zpow_succ]
      push_cast
      ring
    · rfl

theorem ten_pow_toNat (shift : ℤ) :
    ((10 ^ shift.toNat : Nat) : ℚ) / (10 ^ (-shift).toNat : Nat) = 10 ^ shift := by
  rw [div_eq_iff (by positivity), Nat.cast_pow, Nat.cast_pow, Nat.cast_ofNat, ← zpow_natCast,
    ← zpow_natCast, ← ten_zpow_add]
  congr 1
  omega

/-- The shift leaves a quotient with one digit more than the context. -/
theorem pow_le_quotient {c d : Nat} (some_ : c ≠ 0) (divisor : d ≠ 0) {shift : ℤ}
    (shifted : shift = (digitCount d : ℤ) - digitCount c + ctx.precision + 1) :
    10 ^ ctx.precision ≤ c * 10 ^ shift.toNat / (d * 10 ^ (-shift).toNat) := by
  rw [Nat.le_div_iff_mul_le (by positivity)]
  have low := pow_digitCount_le some_
  have high := lt_pow_digitCount d
  have count := digitCount_pos c
  rw [Nat.pow_eq] at low high
  have balance : ctx.precision + digitCount d + (-shift).toNat =
      digitCount c - 1 + shift.toNat := by omega
  calc 10 ^ ctx.precision * (d * 10 ^ (-shift).toNat)
      ≤ 10 ^ ctx.precision * (10 ^ digitCount d * 10 ^ (-shift).toNat) :=
        Nat.mul_le_mul_left _ (Nat.mul_le_mul_right _ high.le)
    _ = 10 ^ (digitCount c - 1) * 10 ^ shift.toNat := by
        rw [← pow_add, ← pow_add, ← pow_add, ← balance, add_assoc]
    _ ≤ c * 10 ^ shift.toNat := Nat.mul_le_mul_right _ low

include proper in
theorem gives_quotient (negative : Bool) {c d : Nat} (p q : ℤ) (dividend : c ≠ 0)
    (divisor : d ≠ 0) :
    ctx.Gives (ctx.rounded (signedBy negative (c * 10 ^ p / (d * 10 ^ q))))
      (ctx.quotient negative c p d q) := by
  obtain ⟨shift, shifted⟩ : ∃ shift : ℤ,
    shift = (digitCount d : ℤ) - digitCount c + ctx.precision + 1 := ⟨_, rfl⟩
  have long := pow_le_quotient dividend divisor shifted
  have exact_ : ((c * 10 ^ shift.toNat : Nat) : ℚ) / (d * 10 ^ (-shift).toNat : Nat) *
      10 ^ (p - q - shift) = c * 10 ^ p / (d * 10 ^ q) := by
    rw [Nat.cast_mul, Nat.cast_mul, mul_div_mul_comm, ten_pow_toNat, zpow_sub₀ (by norm_num),
      zpow_sub₀ (by norm_num)]
    have := (ten_zpow_pos shift).ne'
    field_simp
  unfold quotient
  dsimp only
  rw [← shifted]
  simp only [Nat.pow_eq]
  rw [← exact_]
  split
  · rename_i exact_
    have kept := stripTo_value (p - q) (ctx.precision + 1)
      (c * 10 ^ shift.toNat / (d * 10 ^ (-shift).toNat)) (p - q - shift)
    generalize stripTo (p - q) (ctx.precision + 1) _ (p - q - shift) = stripped at kept ⊢
    rw [← Nat.cast_div (Nat.dvd_of_mod_eq_zero exact_) (by positivity), ← kept]
    exact gives_round proper _ _ _
  · rename_i inexact
    have nonneg (n : Nat) : (0 : ℚ) ≤ n * 10 ^ (p - q - shift) :=
      mul_nonneg (Nat.cast_nonneg n) (ten_zpow_pos _).le
    have ratio : (0 : ℚ) ≤ ((c * 10 ^ shift.toNat : Nat) : ℚ) / (d * 10 ^ (-shift).toNat : Nat) *
        10 ^ (p - q - shift) := by positivity
    rw [rounded_signedBy _ ratio, ← nearest_marked _ inexact long, ← rounded_signedBy _ (nonneg _)]
    exact gives_round proper _ _ _

include proper shows shows' in
theorem gives_div (divisor : w ≠ 0) : ctx.Gives (ctx.rounded (v / w)) (ctx.div x y) := by
  obtain ⟨m, c, p, rfl, rfl⟩ := exists_of_value? shows
  obtain ⟨n, d, q, rfl, rfl⟩ := exists_of_value? shows'
  have divided : signedBy m (c * 10 ^ p) / signedBy n (d * 10 ^ q) =
      signedBy (m != n) ((c * 10 ^ p : ℚ) / (d * 10 ^ q)) := by
    cases m <;> cases n <;> simp [signedBy, div_neg, neg_div]
  have some_ : d ≠ 0 := by
    rintro rfl
    exact divisor (by simp [signedBy])
  rw [divided]
  simp only [div, if_neg some_]
  split
  · rename_i none_
    have rounds := gives_round proper (m != n) 0 (p - q)
    simpa [none_] using rounds
  · rename_i dividend
    exact gives_quotient proper _ _ _ dividend some_

/- Sums. -/

/-- The place below which a summand shows only that it is there. -/
theorem lt_place_beside {c : Nat} {p below : ℤ} (summand : c ≠ 0)
    (deep : below = p - 1 -
      (if ctx.precision < digitCount c then 0 else ctx.precision + 1 - digitCount c : Nat))
    (near : c * 10 ^ p - 10 ^ below ≤ v) : 0 < v ∧ below < ctx.place v := by
  have count := digitCount_pos c
  have top := leading_eq summand p
  have size := ten_log_le (v := (c : ℚ) * 10 ^ p)
    (mul_pos (by exact_mod_cast Nat.pos_of_ne_zero summand) (ten_zpow_pos p))
  rw [← top] at size
  have lower : leading c p = p + digitCount c - 1 := rfl
  obtain ⟨high, eq⟩ : ∃ high, leading c p = high + 1 := ⟨leading c p - 1, by omega⟩
  have under : below ≤ high := by
    split_ifs at deep <;> omega
  have bound : (10 : ℚ) ^ high ≤ v := by
    rw [eq, ten_zpow_succ] at size
    have := ten_zpow_le under
    have := ten_zpow_pos high
    linarith
  refine ⟨(ten_zpow_pos high).trans_le bound, ?_⟩
  have log := le_log_of_le bound
  have := le_max_right ctx.lastPlace (Int.log 10 v - ctx.precision + 1)
  unfold place
  split_ifs at deep <;> omega

/-- Two small amounts beside a number go the same way with it. -/
theorem rounded_beside {m : Bool} {c : Nat} {p below : ℤ} (summand : c ≠ 0)
    (deep : below = p - 1 -
      (if ctx.precision < digitCount c then 0 else ctx.precision + 1 - digitCount c : Nat))
    (n : Bool) {near far : ℚ} (positive : 0 < near) (ordered : near ≤ far)
    (small : far ≤ 10 ^ below) :
    ctx.rounded (signedBy m (c * 10 ^ p) + signedBy n near) =
      ctx.rounded (signedBy m (c * 10 ^ p) + signedBy n far) := by
  have unit := ten_zpow_pos below
  obtain ⟨k, tens⟩ : ∃ k : Nat, (c : ℚ) * 10 ^ p = (2 * k : Nat) * (5 * 10 ^ below) := by
    obtain ⟨k, tens⟩ := exists_ten_zpow_eq (show below + 1 ≤ p by split_ifs at deep <;> omega)
    refine ⟨c * k, ?_⟩
    rw [tens, ten_zpow_succ]
    push_cast
    ring
  have step : (0 : ℚ) < 5 * 10 ^ below := by positivity
  by_cases same : m = n
  · subst same
    have joined (w : ℚ) : signedBy m (c * 10 ^ p) + signedBy m w = signedBy m (c * 10 ^ p + w) := by
      cases m <;> simp [signedBy]
      ring
    obtain ⟨above, place⟩ : 0 < c * 10 ^ p + near ∧ below < ctx.place (c * 10 ^ p + near) :=
      lt_place_beside summand deep (by linarith)
    rw [joined, joined, rounded_signedBy _ above.le, rounded_signedBy _ (by linarith)]
    congr 1
    refine nearest_congr above (by linarith) place fun n low => ?_
    rw [tens] at low ⊢
    have passed : ((2 * k : Nat) : ℚ) * (5 * 10 ^ below) < n * (5 * 10 ^ below) := by linarith
    have counted : 2 * k < n := by exact_mod_cast lt_of_mul_lt_mul_right passed step.le
    have next : ((2 * k : Nat) : ℚ) + 1 ≤ n := by exact_mod_cast counted
    have := mul_le_mul_of_nonneg_right next step.le
    linarith
  · have joined (w : ℚ) : signedBy m (c * 10 ^ p) + signedBy n w = signedBy m (c * 10 ^ p - w) := by
      cases m <;> cases n <;> simp_all [signedBy] <;> ring
    obtain ⟨above, place⟩ : 0 < c * 10 ^ p - far ∧ below < ctx.place (c * 10 ^ p - far) :=
      lt_place_beside summand deep (by linarith)
    rw [joined, joined, rounded_signedBy _ above.le, rounded_signedBy _ (by linarith)]
    congr 1
    refine (nearest_congr above (by linarith) place fun n low => ?_).symm
    rw [tens] at low ⊢
    have counted : 2 * k ≤ n := by
      by_contra less
      have before : (n : ℚ) + 1 ≤ (2 * k : Nat) := by exact_mod_cast not_le.mp less
      have := mul_le_mul_of_nonneg_right before step.le
      linarith
    have := mul_le_mul_of_nonneg_right (show ((2 * k : Nat) : ℚ) ≤ n by exact_mod_cast counted)
      step.le
    linarith

/-- The stand-in for a summand does not show. -/
theorem standIn_spec (m : Bool) (c : Nat) {p q : ℤ} (lower : q < p) (n : Bool) (d : Nat) :
    ∃ e k, ctx.standIn c p d q = (e, k) ∧ k ≤ p ∧
      ctx.rounded (signedBy m (c * 10 ^ p) + signedBy n (e * 10 ^ k)) =
        ctx.rounded (signedBy m (c * 10 ^ p) + signedBy n (d * 10 ^ q)) := by
  unfold standIn
  dsimp only
  obtain ⟨below, deep⟩ : ∃ below : ℤ, below = p - 1 -
    (if ctx.precision < digitCount c then 0 else ctx.precision + 1 - digitCount c : Nat) := ⟨_, rfl⟩
  rw [← deep]
  split
  · rename_i far
    obtain ⟨summand, far⟩ := far
    refine ⟨_, _, rfl, by split_ifs at deep <;> omega, ?_⟩
    rcases Nat.eq_zero_or_pos d with rfl | positive
    · simp
    · rw [leading_eq positive.ne'] at far
      have small : (d : ℚ) * 10 ^ q ≤ 10 ^ below :=
        (lt_ten_log _).le.trans (ten_zpow_le (by omega))
      have one : min d 1 = 1 := by omega
      rw [one, Nat.cast_one, one_mul]
      exact (rounded_beside summand deep n
        (mul_pos (by exact_mod_cast positive) (ten_zpow_pos q)) small le_rfl).symm
  · exact ⟨_, _, rfl, lower.le, rfl⟩

theorem scaled_unit (c : Nat) {p k : ℤ} (le : k ≤ p) :
    ((c * Nat.pow 10 (p - k).toNat : Nat) : ℚ) * 10 ^ k = c * 10 ^ p := by
  rw [Nat.pow_eq, Nat.cast_mul, Nat.cast_pow, Nat.cast_ofNat, ← zpow_natCast,
    Int.toNat_of_nonneg (by omega), mul_assoc, ← ten_zpow_add, sub_add_cancel]

theorem scaled_eq (c : Nat) {p k : ℤ} (le : k ≤ p) :
    (((if c = 0 then 0 else c * Nat.pow 10 (p - k).toNat) : Nat) : ℚ) * 10 ^ k = c * 10 ^ p := by
  split_ifs with zero
  · simp [zero]
  · exact scaled_unit c le

/-- A whole number is its size with its sign, and zero with any. -/
theorem signedBy_natAbs {negative : Bool} {t : ℤ} (sign : t ≠ 0 → negative = decide (t < 0))
    (v : ℚ) : signedBy negative (t.natAbs * v) = t * v := by
  rcases lt_trichotomy t 0 with below | rfl | above
  · rw [sign below.ne, decide_eq_true below, signedBy, if_pos rfl, Nat.cast_natAbs,
      abs_of_neg below]
    push_cast
    ring
  · simp [signedBy]
  · rw [sign above.ne', decide_eq_false above.not_gt, signedBy, if_neg Bool.false_ne_true,
      Nat.cast_natAbs, abs_of_pos above]

include proper in
theorem gives_sumAligned (m n : Bool) (c d : Nat) {p q : ℤ} (lower : q ≤ p) :
    ctx.Gives (ctx.rounded (signedBy m (c * 10 ^ p) + signedBy n (d * 10 ^ q)))
      (ctx.sumAligned m c p n d q) := by
  obtain ⟨e, k, stands, le, same⟩ : ∃ e k,
      (if p = q then (d, q) else ctx.standIn c p d q) = (e, k) ∧ k ≤ p ∧
      ctx.rounded (signedBy m (c * 10 ^ p) + signedBy n (e * 10 ^ k)) =
        ctx.rounded (signedBy m (c * 10 ^ p) + signedBy n (d * 10 ^ q)) := by
    split_ifs with level
    · exact ⟨d, q, rfl, lower, rfl⟩
    · exact standIn_spec m c (by omega) n d
  unfold sumAligned
  rw [stands]
  dsimp only
  rw [← same, ← scaled_eq c le]
  generalize (if c = 0 then 0 else c * Nat.pow 10 (p - k).toNat) = c
  have total : signedBy m (c * 10 ^ k) + signedBy n (e * 10 ^ k) =
      ((signed m c + signed n e : ℤ) : ℚ) * 10 ^ k := by
    rw [Int.cast_add, cast_signed, cast_signed]
    cases m <;> cases n <;> simp [signedBy] <;> ring
  have shown (negative : Bool)
      (sign : signed m c + signed n e ≠ 0 → negative = decide (signed m c + signed n e < 0)) :
      ctx.Gives (ctx.rounded (((signed m c + signed n e : ℤ) : ℚ) * 10 ^ k))
        (ctx.round negative (signed m c + signed n e).natAbs k) := by
    rw [← signedBy_natAbs sign]
    exact gives_round proper _ _ _
  rw [total]
  refine shown _ fun some_ => ?_
  split_ifs with same
  · subst same
    cases m <;> simp only [signed, Bool.false_eq_true, if_true, if_false] at some_ ⊢ <;>
      [exact (decide_eq_false (by omega)).symm; exact (decide_eq_true (by omega)).symm]
  · rfl

include proper shows shows' in
theorem gives_add : ctx.Gives (ctx.rounded (v + w)) (ctx.add x y) := by
  obtain ⟨m, c, p, rfl, rfl⟩ := exists_of_value? shows
  obtain ⟨n, d, q, rfl, rfl⟩ := exists_of_value? shows'
  simp only [add]
  split
  · rename_i lower
    exact gives_sumAligned proper _ _ _ _ lower
  · rw [add_comm]
    exact gives_sumAligned proper _ _ _ _ (by omega)

/- Remainders. -/

include proper shows shows' in
/-- A remainder is no larger than the divisor before it is rounded. -/
theorem gives_rem : (∃ r, |r| ≤ |w| ∧ ctx.Gives (ctx.rounded r) (ctx.rem x y)) ∨
    ∃ condition, ctx.rem x y = refuse condition := by
  obtain ⟨m, c, p, rfl, rfl⟩ := exists_of_value? shows
  obtain ⟨n, d, q, rfl, rfl⟩ := exists_of_value? shows'
  have divisor : (0 : ℚ) ≤ d * 10 ^ q := mul_nonneg (Nat.cast_nonneg d) (ten_zpow_pos q).le
  rw [abs_signedBy, abs_of_nonneg divisor]
  simp only [rem]
  split_ifs with none_ zero zero ahead far large
  · exact .inr ⟨_, rfl⟩
  · exact .inr ⟨_, rfl⟩
  · refine .inl ⟨_, ?_, gives_round proper _ _ _⟩
    simpa [abs_signedBy] using divisor
  · refine .inl ⟨_, ?_, gives_round proper _ _ _⟩
    rw [leading_eq zero, leading_eq none_] at ahead
    rw [abs_signedBy, scaled_unit c (min_le_left p q),
      abs_of_nonneg (mul_nonneg (Nat.cast_nonneg c) (ten_zpow_pos p).le)]
    refine (lt_ten_log _).le.trans ((ten_zpow_le (by omega)).trans (ten_log_le ?_))
    exact mul_pos (by exact_mod_cast Nat.pos_of_ne_zero none_) (ten_zpow_pos q)
  · exact .inr ⟨_, rfl⟩
  · exact .inr ⟨_, rfl⟩
  · refine .inl ⟨_, ?_, gives_round proper _ _ _⟩
    rw [abs_signedBy, abs_of_nonneg (mul_nonneg (Nat.cast_nonneg _) (ten_zpow_pos _).le),
      ← scaled_unit d (min_le_right p q)]
    refine mul_le_mul_of_nonneg_right ?_ (ten_zpow_pos _).le
    exact_mod_cast (Nat.mod_lt _ (by rw [Nat.pow_eq]; positivity)).le

/- Comparisons. -/

theorem compareMagnitudes_eq_iff (c : Nat) (p : ℤ) (d : Nat) (q : ℤ) :
    compareMagnitudes c p d q = .eq ↔ (c : ℚ) * 10 ^ p = d * 10 ^ q := by
  have unit := ten_zpow_pos p
  have unit' := ten_zpow_pos q
  unfold compareMagnitudes
  split_ifs with zero zero' zero' apart
  · simp [zero, zero']
  · simp [zero, zero', unit'.ne']
  · simp [zero, zero', unit.ne']
  · refine iff_of_false (fun same => apart (compare_eq_iff_eq.mp same)) fun same => apart ?_
    rw [leading_eq zero, leading_eq zero', same]
  · rw [compare_eq_iff_eq, ← scaled_unit c (min_le_left p q), ← scaled_unit d (min_le_right p q),
      mul_left_inj' (ten_zpow_pos _).ne', Nat.cast_inj]

include shows shows' in
/-- Finite decimals are equal if they are the same number. -/
theorem equal_eq : equal x y = .ok (decide (v = w)) := by
  obtain ⟨m, c, p, rfl, rfl⟩ := exists_of_value? shows
  obtain ⟨n, d, q, rfl, rfl⟩ := exists_of_value? shows'
  have nonneg (c : Nat) (p : ℤ) : (0 : ℚ) ≤ c * 10 ^ p :=
    mul_nonneg (Nat.cast_nonneg c) (ten_zpow_pos p).le
  have same : (compare? (.finite m c p) (.finite n d q) == some .eq) =
      decide (signedBy m ((c : ℚ) * 10 ^ p) = signedBy n (d * 10 ^ q)) := by
    have zeros (c : Nat) (p : ℤ) : (c : ℚ) * 10 ^ p = 0 ↔ c = 0 := by
      rw [mul_eq_zero, Nat.cast_eq_zero, or_iff_left (ten_zpow_pos p).ne']
    have first := nonneg c p
    have second := nonneg d q
    simp only [compare?]
    split_ifs with both
    · obtain ⟨rfl, rfl⟩ := both
      simp [signedBy]
    · have some_ : ¬ ((c : ℚ) * 10 ^ p = 0 ∧ (d : ℚ) * 10 ^ q = 0) := by
        rw [zeros, zeros]
        exact both
      cases m <;> cases n <;>
        simp only [signedBy, Bool.false_eq_true, if_true, if_false, neg_inj]
      · rw [Bool.eq_iff_iff, beq_iff_eq, Option.some_inj, compareMagnitudes_eq_iff,
          decide_eq_true_iff]
      · exact (decide_eq_false fun same => some_ ⟨by linarith, by linarith⟩).symm
      · exact (decide_eq_false fun same => some_ ⟨by linarith, by linarith⟩).symm
      · rw [Bool.eq_iff_iff, beq_iff_eq, Option.some_inj, compareMagnitudes_eq_iff,
          decide_eq_true_iff, eq_comm]
  rw [equal]
  exact congrArg Except.ok same

end Context
end InfixCalc
