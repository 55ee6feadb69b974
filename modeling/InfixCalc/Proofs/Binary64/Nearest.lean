import InfixCalc.Binary64.Shortest
import InfixCalc.Proofs.Binary64.Fields
import InfixCalc.Proofs.Binary64.Scale

/-!
# The double nearest to a quotient

All quotients between the midpoints around a finite double round to it, and so do the midpoints
where its significand is even.
-/

namespace InfixCalc.Binary64

open InfixCalc.Number

/- Rounding to an integer. -/

/-- Whether a number rounds to a multiple of a power of two, halves to the even one. -/
structure RoundsTo (q : ℚ) (k : Nat) (place : Int) : Prop where
  low : (k - 1 / 2) * 2 ^ place ≤ q
  high : q ≤ (k + 1 / 2) * 2 ^ place
  strict : k % 2 = 1 → (k - 1 / 2) * 2 ^ place < q ∧ q < (k + 1 / 2) * 2 ^ place

/-- What is kept and what is dropped of a quotient, and how it is rounded from them. -/
theorem exists_quotient (mode : Rounding) (negative : Bool) (num : Nat) {den : Nat}
    (positive : 0 < den) : ∃ kept dropped, kept * den + dropped = num ∧ dropped < den ∧
      mode.quotient negative num den =
        if dropped = 0 then kept
        else if mode.goesUp negative kept (compare (2 * dropped) den) then kept + 1 else kept :=
  ⟨num / den, num % den, Nat.div_add_mod' num den, Nat.mod_lt num positive, rfl⟩

theorem halfEven_quotient_eq {num den k : Nat} (low : 2 * (k * den) ≤ 2 * num + den)
    (high : 2 * num ≤ 2 * (k * den) + den)
    (strict : k % 2 = 1 → 2 * (k * den) < 2 * num + den ∧ 2 * num < 2 * (k * den) + den)
    (positive : 0 < den) : Rounding.halfEven.quotient false num den = k := by
  obtain ⟨kept, dropped, split, rest, rounded⟩ :=
    exists_quotient .halfEven false num positive
  rw [rounded]
  have notMore : k ≤ kept + 1 := by
    by_contra more
    have scaled : (kept + 2) * den ≤ k * den := Nat.mul_le_mul_right den (by omega)
    rw [Nat.add_mul] at scaled
    omega
  have notLess : kept ≤ k := by
    by_contra less
    have scaled : (k + 1) * den ≤ kept * den := Nat.mul_le_mul_right den (by omega)
    rw [Nat.add_mul] at scaled
    omega
  rcases Nat.lt_or_ge kept k with up | down
  · obtain rfl : k = kept + 1 := by omega
    rw [Nat.add_mul, Nat.one_mul] at low strict
    have some_ : dropped ≠ 0 := by omega
    have half : den ≤ 2 * dropped := by omega
    have goesUp : Rounding.halfEven.goesUp false kept (compare (2 * dropped) den) = true := by
      rcases Nat.lt_or_eq_of_le half with more | tie
      · simp [Rounding.goesUp, Nat.compare_eq_gt.mpr more]
      · have odd : kept % 2 = 1 := by
          by_contra even
          have never := strict (by omega)
          omega
        simp [Rounding.goesUp, ← tie, odd]
    rw [if_neg some_, if_pos goesUp]
  · obtain rfl : k = kept := by omega
    have half : 2 * dropped ≤ den := by omega
    have stays : ¬ Rounding.halfEven.goesUp false k (compare (2 * dropped) den) = true := by
      rcases Nat.lt_or_eq_of_le half with less | tie
      · simp [Rounding.goesUp, Nat.compare_eq_lt.mpr less]
      · have even : k % 2 ≠ 1 := by
          intro odd
          have never := strict odd
          omega
        simp [Rounding.goesUp, tie, even]
    rw [if_neg stays, ite_self]

theorem halfEven_quotient_near (num : Nat) {den : Nat} (positive : 0 < den) :
    2 * (Rounding.halfEven.quotient false num den * den) ≤ 2 * num + den ∧
      2 * num ≤ 2 * (Rounding.halfEven.quotient false num den * den) + den := by
  obtain ⟨kept, dropped, split, rest, rounded⟩ :=
    exists_quotient .halfEven false num positive
  rw [rounded]
  split_ifs with exact up
  · omega
  · have half : den ≤ 2 * dropped := by
      by_contra less
      simp [Rounding.goesUp, Nat.compare_eq_lt.mpr (not_le.mp less)] at up
    rw [Nat.add_mul]
    omega
  · have half : 2 * dropped ≤ den := by
      by_contra more
      simp [Rounding.goesUp, Nat.compare_eq_gt.mpr (not_le.mp more)] at up
    omega

theorem quotient_eq {num den k : Nat} (positive : 0 < den)
    (rounds : RoundsTo (num / den) k 0) : Rounding.halfEven.quotient false num den = k := by
  obtain ⟨low, high, strict⟩ := rounds
  have denominator : (0 : ℚ) < den := by exact_mod_cast positive
  simp only [zpow_zero, mul_one] at low high strict
  rw [le_div_iff₀ denominator] at low
  rw [div_le_iff₀ denominator] at high
  rw [lt_div_iff₀ denominator, div_lt_iff₀ denominator] at strict
  have lowNat : (2 * (k * den) : ℚ) ≤ 2 * num + den := by linarith
  have highNat : (2 * num : ℚ) ≤ 2 * (k * den) + den := by linarith
  have strictNat (odd : k % 2 = 1) :
      (2 * (k * den) : ℚ) < 2 * num + den ∧ (2 * num : ℚ) < 2 * (k * den) + den := by
    obtain ⟨above, below⟩ := strict odd
    constructor <;> linarith
  exact halfEven_quotient_eq (by exact_mod_cast lowNat) (by exact_mod_cast highNat)
    (fun odd => by exact_mod_cast strictNat odd) positive

/- Rounding to a word. -/

theorem RoundsTo.unscaled {q : ℚ} {k : Nat} {place : Int} (rounds : RoundsTo q k place) :
    RoundsTo (q / 2 ^ place) k 0 := by
  obtain ⟨low, high, strict⟩ := rounds
  have unit : (0 : ℚ) < 2 ^ place := by positivity
  constructor
  · rwa [zpow_zero, mul_one, le_div_iff₀ unit]
  · rwa [zpow_zero, mul_one, div_le_iff₀ unit]
  · intro odd
    rw [zpow_zero, mul_one, mul_one, lt_div_iff₀ unit, div_lt_iff₀ unit]
    exact strict odd

theorem significand_eq {num den k : Nat} {place : Int} (denominator : 0 < den)
    (rounds : RoundsTo (num / den) k place) :
    (if 0 ≤ place then Rounding.halfEven.quotient false num (den <<< place.toNat)
      else Rounding.halfEven.quotient false (num <<< (-place).toNat) den) = k := by
  have unscaled := rounds.unscaled
  split
  · rename_i above
    have power := zpow_of_nonneg 2 above
    refine quotient_eq (by simpa using denominator) ?_
    rwa [Nat.shiftLeft_eq, Nat.cast_mul, Nat.cast_pow, Nat.cast_ofNat, ← div_div, ← power]
  · rename_i below
    have power := zpow_of_neg 2 below
    refine quotient_eq denominator ?_
    rwa [Nat.shiftLeft_eq, Nat.cast_mul, Nat.cast_pow, Nat.cast_ofNat, mul_div_right_comm,
      ← div_inv_eq_mul, ← power]

/-- The word that comes of rounding to a place where a significand of 53 bits ends. -/
theorem ratioWord_eq {num den k : Nat} {place : Int} (numerator : 0 < num)
    (denominator : 0 < den) (rounds : RoundsTo (num / den) k place)
    (least : leastExponent ≤ place) (below : (num : ℚ) / den < 2 ^ (place + 53))
    (above : place = leastExponent ∨ (2 : ℚ) ^ (place + 52) ≤ num / den) :
    ratioWord num den = min infinityWord (word k place) := by
  have one : (1 : ℚ) < 2 := one_lt_two
  obtain ⟨low, high⟩ := binaryExponent_bounds numerator denominator
  have notAbove : binaryExponent num den < place + 53 :=
    (zpow_lt_zpow_iff_right₀ one).mp (lt_of_le_of_lt low below)
  have shift : max (binaryExponent num den - 52) leastExponent = place := by
    rcases above with bottom | inside
    · omega
    · have notBelow : place + 52 < binaryExponent num den + 1 :=
        (zpow_lt_zpow_iff_right₀ one).mp (lt_of_le_of_lt inside high)
      omega
  have large : Nat.pow 2 52 ≤ infinityWord := by decide
  unfold ratioWord word
  rw [if_neg (Nat.ne_of_gt numerator)]
  simp only [shift, significand_eq denominator rounds]
  split
  · omega
  · rfl

/- Rounding to a finite double. -/

/-- Whether a number lies in an interval of doubles. -/
def Interval.Holds (i : Interval) (q : ℚ) : Prop :=
  if i.closed then i.low * 2 ^ i.unit ≤ q ∧ q ≤ i.high * 2 ^ i.unit
  else i.low * 2 ^ i.unit < q ∧ q < i.high * 2 ^ i.unit

theorem Interval.Holds.bounds {i : Interval} {q : ℚ} (holds : i.Holds q) :
    i.low * 2 ^ i.unit ≤ q ∧ q ≤ i.high * 2 ^ i.unit := by
  unfold Interval.Holds at holds
  split at holds
  · exact holds
  · exact ⟨holds.1.le, holds.2.le⟩

theorem Interval.holds_of_strict {i : Interval} {q : ℚ} (low : i.low * 2 ^ i.unit < q)
    (high : q < i.high * 2 ^ i.unit) : i.Holds q := by
  unfold Interval.Holds
  split
  · exact ⟨low.le, high.le⟩
  · exact ⟨low, high⟩

theorem Interval.Holds.strict {significand : Nat} {exponent : Int} {q : ℚ}
    (holds : (interval significand exponent).Holds q) (odd : significand % 2 = 1) :
    (interval significand exponent).low * 2 ^ (exponent - 2) < q ∧
      q < (interval significand exponent).high * 2 ^ (exponent - 2) := by
  have opened : (interval significand exponent).closed = false := by simp [interval, odd]
  unfold Interval.Holds at holds
  rwa [opened, if_neg (by decide)] at holds

/-- Below a power of two the doubles are nearer to each other. -/
theorem interval_low {significand : Nat} (positive : 0 < significand) (exponent : Int) :
    ∃ margin : ℚ, ((interval significand exponent).low : ℚ) = 4 * significand - margin ∧
      margin ≤ 2 ∧ (margin = 1 ∧ significand = Nat.pow 2 52 ∧ leastExponent < exponent ∨
        margin = 2 ∧ (significand = Nat.pow 2 52 → exponent ≤ leastExponent)) := by
  by_cases edge : significand = Nat.pow 2 52 ∧ leastExponent < exponent
  · refine ⟨1, ?_, one_le_two, .inl ⟨rfl, edge⟩⟩
    have low : (interval significand exponent).low = 4 * significand - 1 := by
      simp [interval, edge]
    rw [low, Nat.cast_sub (by omega)]
    push_cast
    rfl
  · refine ⟨2, ?_, le_rfl, .inr ⟨rfl, fun same => not_lt.mp fun less => edge ⟨same, less⟩⟩⟩
    have low : (interval significand exponent).low = 4 * significand - 2 := by
      simp only [interval, Bool.and_eq_true, decide_eq_true_eq, if_neg edge]
    rw [low, Nat.cast_sub (by omega)]
    push_cast
    rfl

theorem two_zpow_eq {place lower : Int} (more : Nat) (same : place = lower + more) :
    (2 : ℚ) ^ place = 2 ^ more * 2 ^ lower := by
  rw [same, zpow_add₀ two_ne_zero, zpow_natCast, mul_comm]

/-- A finite double is less than infinity. -/
theorem Fits.word_lt {significand : Nat} {exponent : Int} (fits : Fits significand exponent) :
    word significand exponent < infinityWord := by
  have small := fits.small
  have most := fits.most
  have scaled := Nat.mul_le_mul_right (Nat.pow 2 52)
    (show (exponent + 1075).toNat ≤ 2046 by omega)
  have infinity : infinityWord = 2047 * Nat.pow 2 52 := rfl
  have double : Nat.pow 2 53 = 2 * Nat.pow 2 52 := rfl
  rw [double] at small
  rw [word, infinity]
  generalize Nat.pow 2 52 = size at small scaled
  split <;> omega

/-- The significand one past the largest stands for the smallest at the next place. -/
theorem word_edge {exponent : Int} (inside : leastExponent < exponent) :
    word (Nat.pow 2 53) (exponent - 1) = word (Nat.pow 2 52) exponent := by
  have bottom : leastExponent = -1074 := rfl
  have double : Nat.pow 2 53 = Nat.pow 2 52 + Nat.pow 2 52 := rfl
  have place : (exponent - 1 + 1075).toNat + 1 = (exponent + 1075).toNat := by omega
  rw [word, word, if_neg (by decide), if_neg (by decide), ← place, double, Nat.add_sub_cancel,
    Nat.sub_self, Nat.add_zero, Nat.succ_mul]

section Fits

variable {significand : Nat} {exponent : Int} (fits : Fits significand exponent)
  (positive : 0 < significand) {q : ℚ}
  (holds : (interval significand exponent).Holds q)
include positive holds

/-- A number of the interval rounds to the significand at its place. -/
theorem roundsTo_of_holds : RoundsTo q significand exponent := by
  obtain ⟨margin, low, most, _⟩ := interval_low positive exponent
  obtain ⟨above, below⟩ := holds.bounds
  have unit : (0 : ℚ) < 2 ^ (exponent - 2) := by positivity
  have whole : (2 : ℚ) ^ exponent = 2 ^ 2 * 2 ^ (exponent - 2) := two_zpow_eq 2 (by omega)
  have lowest : ((significand : ℚ) - 1 / 2) * 2 ^ exponent ≤
      (interval significand exponent).low * 2 ^ (exponent - 2) := by
    rw [low, whole]
    nlinarith
  have highest : ((interval significand exponent).high : ℚ) * 2 ^ (exponent - 2) =
      ((significand : ℚ) + 1 / 2) * 2 ^ exponent := by
    rw [whole]
    simp only [interval]
    push_cast
    ring
  refine ⟨lowest.trans above, below.trans highest.le, fun odd => ?_⟩
  obtain ⟨aboveStrict, belowStrict⟩ := holds.strict odd
  exact ⟨lowest.trans_lt aboveStrict, belowStrict.trans_eq highest⟩

include fits

theorem lt_of_holds : q < 2 ^ (exponent + 53) := by
  have high := (roundsTo_of_holds positive holds).high
  have unit : (0 : ℚ) < 2 ^ exponent := by positivity
  have small : (significand : ℚ) + 1 ≤ 2 ^ 53 := by exact_mod_cast fits.small
  have top : (2 : ℚ) ^ (exponent + 53) = 2 ^ 53 * 2 ^ exponent := two_zpow_eq 53 rfl
  rw [top]
  nlinarith

/-- Below the place where a significand ends lies only what is next to a power of two. -/
theorem edge_of_holds (inside : leastExponent < exponent) (under : q < 2 ^ (exponent + 52)) :
    significand = Nat.pow 2 52 ∧ (2 ^ 54 - 1) * 2 ^ (exponent - 2) ≤ q := by
  obtain ⟨margin, low, most, margins⟩ := interval_low positive exponent
  have above : ((interval significand exponent).low : ℚ) * 2 ^ (exponent - 2) ≤ q :=
    holds.bounds.1
  have unit : (0 : ℚ) < 2 ^ (exponent - 2) := by positivity
  have top : (2 : ℚ) ^ (exponent + 52) = 2 ^ 54 * 2 ^ (exponent - 2) := two_zpow_eq 54 (by omega)
  have full := fits.full inside
  have edge : significand = Nat.pow 2 52 := by
    by_contra other
    have more : (2 : ℚ) ^ 52 + 1 ≤ significand := by
      have next : Nat.pow 2 52 + 1 ≤ significand := by omega
      exact_mod_cast next
    rw [low] at above
    rw [top] at under
    nlinarith
  have near : margin = 1 := by
    rcases margins with ⟨same, _⟩ | ⟨_, never⟩
    · exact same
    · exact absurd (never edge) (not_le.mpr inside)
  have value : (significand : ℚ) = 2 ^ 52 := by
    rw [edge]
    norm_num
  rw [low, near, value] at above
  exact ⟨edge, by linarith⟩

/-- What lies just below a power of two rounds up to it. -/
theorem roundsTo_edge (inside : leastExponent < exponent) (under : q < 2 ^ (exponent + 52)) :
    significand = Nat.pow 2 52 ∧ RoundsTo q (Nat.pow 2 53) (exponent - 1) ∧
      (2 : ℚ) ^ (exponent - 1 + 52) ≤ q := by
  obtain ⟨edge, above⟩ := edge_of_holds fits positive holds inside under
  have unit : (0 : ℚ) < 2 ^ (exponent - 2) := by positivity
  have half : (2 : ℚ) ^ (exponent - 1) = 2 ^ 1 * 2 ^ (exponent - 2) := two_zpow_eq 1 (by omega)
  have place : (2 : ℚ) ^ (exponent - 1 + 52) = 2 ^ 53 * 2 ^ (exponent - 2) :=
    two_zpow_eq 53 (by omega)
  have top : (2 : ℚ) ^ (exponent + 52) = 2 ^ 54 * 2 ^ (exponent - 2) := two_zpow_eq 54 (by omega)
  rw [top] at under
  refine ⟨edge, ⟨?_, ?_, fun odd => absurd odd (by decide)⟩, ?_⟩
  · rw [half]
    push_cast
    linarith
  · rw [half]
    push_cast
    linarith
  · rw [place]
    linarith

/-- All numbers of the interval of a finite double round to it. -/
theorem ratioWord_of_holds {num den : Nat} (numerator : 0 < num) (denominator : 0 < den)
    (same : q = num / den) : ratioWord num den = word significand exponent := by
  subst same
  by_cases inside : leastExponent < exponent ∧ (num : ℚ) / den < 2 ^ (exponent + 52)
  · obtain ⟨edge, rounds, above⟩ := roundsTo_edge fits positive holds inside.1 inside.2
    have least : leastExponent ≤ exponent - 1 := by omega
    have below : (num : ℚ) / den < 2 ^ (exponent - 1 + 53) := by
      have same : exponent - 1 + 53 = exponent + 52 := by omega
      rw [same]
      exact inside.2
    rw [ratioWord_eq numerator denominator rounds least below (.inr above), word_edge inside.1,
      ← edge, min_eq_right fits.word_lt.le]
  · have above : exponent = leastExponent ∨ (2 : ℚ) ^ (exponent + 52) ≤ num / den := by
      rcases fits.least.eq_or_lt with bottom | least
      · exact .inl bottom.symm
      · exact .inr (not_lt.mp fun under => inside ⟨least, under⟩)
    rw [ratioWord_eq numerator denominator (roundsTo_of_holds positive holds) fits.least
      (lt_of_holds fits positive holds) above, min_eq_right fits.word_lt.le]

end Fits

end InfixCalc.Binary64
