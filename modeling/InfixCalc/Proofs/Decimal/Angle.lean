import Mathlib.Data.Nat.Factorial.Basic
import InfixCalc.Proofs.Decimal.Circle

/-!
# The figures of a sine and of a cosine

The states of an alternating series show figures that follow one another without regard to how
large they become. The series ends if two sums in a row are the same, or if a power is too large
for the context, and it goes on without end if the figures stay small and no sum repeats.
-/

namespace InfixCalc

open InfixCalc.Number

/-- What an alternating series is made of: the magnitude and the sign of its first sum, the square
by which its powers grow, and its first index. -/
structure Angle where
  work : Context
  negative : Bool
  start : ℚ
  square : ℚ
  first : Nat

namespace Angle

open Decimal

def power (A : Angle) : Nat → ℚ
  | 0 => A.start
  | k + 1 => A.work.nearest A.negative (power A k * A.square)

def factorial (A : Angle) (k : Nat) : Nat := (A.first + 2 * k).factorial

def term (A : Angle) (k : Nat) : ℚ := A.work.nearest A.negative (A.power k / A.factorial k)

/-- The terms alternate in sign, from the second sum on. -/
def sum (A : Angle) : Nat → ℚ
  | 0 => signedBy A.negative A.start
  | k + 1 => A.work.rounded (sum A k + signedBy (A.negative != (k + 1).bodd) (A.term (k + 1)))

/-- The first figures are numbers of the context. -/
structure IsSound (A : Angle) : Prop where
  proper : A.work.IsProper
  starts : 0 ≤ A.start
  holds : A.work.Holds A.start
  small : A.start < 10 ^ (A.work.greatest + 1)
  square : 0 ≤ A.square

variable {A : Angle}

theorem factorial_succ (k : Nat) : A.factorial (k + 1) =
    A.factorial k * ((A.first + 2 * k + 2) * (A.first + 2 * k + 1)) := by
  rw [factorial, show A.first + 2 * (k + 1) = A.first + 2 * k + 1 + 1 by ring,
    Nat.factorial_succ, Nat.factorial_succ, factorial]
  ring

theorem factorial_pos (k : Nat) : (0 : ℚ) < A.factorial k := by
  exact_mod_cast Nat.factorial_pos _

theorem IsSound.power_nonneg (sound : A.IsSound) (k : Nat) : 0 ≤ A.power k := by
  cases k with
  | zero => exact sound.starts
  | succ k => exact Context.nearest_nonneg

theorem term_nonneg (k : Nat) : 0 ≤ A.term k := Context.nearest_nonneg

theorem IsSound.holds_sum (sound : A.IsSound) (k : Nat) : A.work.Holds |A.sum k| := by
  cases k with
  | zero =>
    rw [sum, abs_signedBy, abs_of_nonneg sound.starts]
    exact sound.holds
  | succ k => exact Context.holds_rounded _

/-- A sum without a term stays. -/
theorem IsSound.sum_succ_of_zero (sound : A.IsSound) {k : Nat} (none_ : A.term (k + 1) = 0) :
    A.sum (k + 1) = A.sum k := by
  rw [sum, none_]
  have zero (negative : Bool) : signedBy negative 0 = 0 := by cases negative <;> simp [signedBy]
  rw [zero, add_zero, (sound.holds_sum k).rounded_eq sound.proper.some_]

/- The states of the series. -/

/-- The state shows the figures after some rounds. -/
structure At (A : Angle) (k : Nat) (s : Context.AngleSum) : Prop where
  sum : A.work.Shows (A.sum k) s.sum
  power : A.work.Shows (signedBy A.negative (A.power k)) s.power
  index : s.index = A.first + 2 * k
  factorial : s.factorial = A.factorial k
  negative : s.negative = k.bodd

/-- The figures of a round fit into the context. -/
def Fits (A : Angle) (k : Nat) : Prop :=
  A.square < 10 ^ (A.work.greatest + 1) ∧ A.power k < 10 ^ (A.work.greatest + 1) ∧
    A.term k < 10 ^ (A.work.greatest + 1) ∧ |A.sum k| < 10 ^ (A.work.greatest + 1)

variable {x : Decimal} {v : ℚ} {k : Nat} {s : Context.AngleSum}

/-- The next state shows the next figures, unless they do not fit. -/
theorem At.yields_next (sound : A.IsSound) (shows : x.value? = some v)
    (square : A.square = A.work.nearest false (v * v)) (here : A.At k s) :
    Context.Yields (A.Fits (k + 1)) (A.At (k + 1)) (s.next A.work x) := by
  have proper := sound.proper
  have abs_signed {negative : Bool} {w : ℚ} (nonneg : 0 ≤ w) : |signedBy negative w| = w := by
    rw [abs_signedBy, abs_of_nonneg nonneg]
  have scaled (negative : Bool) (v w : ℚ) :
      signedBy negative v * w = signedBy negative (v * w) := by
    cases negative <;> simp [signedBy]
  have divisor : ((s.factorial * ((s.index + 2) * (s.index + 2 - 1)) : Nat) : ℚ) =
      A.factorial (k + 1) := by
    rw [factorial_succ, here.factorial, here.index]
    rfl
  unfold Context.AngleSum.next
  refine ((Context.gives_mul proper shows shows).yields fun fits => ?_).bind fun square' shown => ?_
  · rw [Context.rounded_of_nonneg (mul_self_nonneg v), ← square, abs_of_nonneg sound.square]
    exact fits.1
  rw [Context.rounded_of_nonneg (mul_self_nonneg v), ← square] at shown
  have powers := Context.gives_mul proper here.power.1 shown.1
  rw [scaled, Context.rounded_signedBy _ (mul_nonneg (sound.power_nonneg k) sound.square)] at powers
  refine (powers.yields fun fits => ?_).bind fun power raised => ?_
  · rw [abs_signed Context.nearest_nonneg]
    exact fits.2.1
  have quotients := Context.gives_div proper raised.1 (Context.value?_ofNat _)
    (divisor ▸ (factorial_pos (k + 1)).ne')
  rw [divisor, div_eq_mul_inv, scaled, ← div_eq_mul_inv,
    Context.rounded_signedBy _ (div_nonneg Context.nearest_nonneg (factorial_pos _).le)]
    at quotients
  refine (quotients.yields fun fits => ?_).bind fun quotient parted => ?_
  · rw [abs_signed Context.nearest_nonneg]
    exact fits.2.2.1
  have term : A.work.nearest A.negative (A.work.nearest A.negative (A.power k * A.square) /
    A.factorial (k + 1)) = A.term (k + 1) := rfl
  rw [term] at parted
  have sign : (if (!s.negative) = true then Decimal.one.flip else Decimal.one).value? =
      some (signedBy (k + 1).bodd 1) := by
    rw [here.negative, Nat.bodd_succ]
    cases k.bodd <;> simp [Decimal.one, Decimal.ofNat, Decimal.flip, value?_finite, signedBy]
  have terms := Context.gives_mul proper parted.1 sign
  have exact_ : A.work.Holds (A.term (k + 1)) :=
    Context.holds_nearest (div_nonneg Context.nearest_nonneg (factorial_pos _).le)
  rw [signedBy_mul, mul_one, Context.rounded_signedBy _ (term_nonneg _),
    exact_.nearest_eq proper.some_] at terms
  refine (terms.yields fun fits => ?_).bind fun term turned => ?_
  · rw [abs_signed (term_nonneg _)]
    exact fits.2.2.1
  refine ((Context.gives_add proper here.sum.1 turned.1).yields fun fits => fits.2.2.2).bind
    fun sum added => ?_
  refine .value ⟨added, raised, ?_, ?_, ?_⟩
  · rw [here.index]
    ring
  · exact_mod_cast divisor
  · rw [here.negative, Nat.bodd_succ]

/- Ends. -/

/-- A round ends the series if what follows it does. -/
theorem At.ends_round (sound : A.IsSound) (shows : x.value? = some v)
    (square : A.square = A.work.nearest false (v * v)) {rounds : Nat} {last : Decimal} {w : ℚ}
    (valued : last.value? = some w) (here : A.At k s)
    (further : A.sum k ≠ w → ∀ next, A.At (k + 1) next →
      Context.Ends (fun d => ∃ w, d.value? = some w) (next.rest A.work x rounds s.sum)) :
    Context.Ends (fun d => ∃ w, d.value? = some w) (s.rest A.work x (rounds + 1) last) := by
  rw [Context.AngleSum.rest, Context.equal_eq here.sum.1 valued]
  by_cases same : A.sum k = w
  · rw [decide_eq_true same]
    show Context.Ends _ (.ok s.sum)
    exact .value ⟨_, here.sum.1⟩
  · rw [decide_eq_false same]
    exact (here.yields_next sound shows square).ends.bind (further same)

/-- A series in which a sum is repeated, or a power grows too large, comes to an end. -/
theorem At.ends_rest (sound : A.IsSound) (shows : x.value? = some v)
    (square : A.square = A.work.nearest false (v * v)) {j rounds : Nat} {last : Decimal}
    {w : ℚ} (valued : last.value? = some w) (here : A.At k s)
    (stops : A.sum (k + j + 1) = A.sum (k + j) ∨ 10 ^ (A.work.greatest + 1) ≤ A.power (k + j))
    (enough : j + 1 < rounds) :
    Context.Ends (fun d => ∃ w, d.value? = some w) (s.rest A.work x rounds last) := by
  induction j generalizing k s last w rounds with
  | zero =>
    obtain ⟨rounds, rfl⟩ : ∃ r, rounds = r + 1 + 1 := ⟨rounds - 2, by omega⟩
    refine here.ends_round sound shows square valued fun _ next there =>
      there.ends_round sound shows square here.sum.1 fun moved => (moved ?_).elim
    refine stops.resolve_right fun large => ?_
    have small := here.power.2
    rw [abs_signedBy, abs_of_nonneg (sound.power_nonneg k)] at small
    exact small.not_ge large
  | succ j ih =>
    obtain ⟨rounds, rfl⟩ : ∃ r, rounds = r + 1 := ⟨rounds - 1, by omega⟩
    refine here.ends_round sound shows square valued fun _ next there =>
      ih here.sum.1 there ?_ (by omega)
    rwa [show k + 1 + j = k + (j + 1) by omega]

/-- A series in which no sum is repeated, and all figures fit, goes on without end. -/
theorem At.rest_eq_endless (sound : A.IsSound) (shows : x.value? = some v)
    (square : A.square = A.work.nearest false (v * v)) {last : Decimal} {w : ℚ}
    (valued : last.value? = some w) (here : A.At k s) (other : A.sum k ≠ w)
    (moves : ∀ j, A.sum (j + 1) ≠ A.sum j) (fits : ∀ j, A.Fits j) (rounds : Nat) :
    s.rest A.work x rounds last = Context.endless := by
  induction rounds generalizing k s last w with
  | zero => rfl
  | succ rounds ih =>
    obtain ⟨next, came, there⟩ := (here.yields_next sound shows square).exists_eq_ok (fits (k + 1))
    have further := ih here.sum.1 there (moves k)
    rw [Context.AngleSum.rest, Context.equal_eq here.sum.1 valued, decide_eq_false other]
    show (s.next A.work x >>= fun next => next.rest A.work x rounds s.sum) = _
    rw [came]
    exact further

end Angle
end InfixCalc
