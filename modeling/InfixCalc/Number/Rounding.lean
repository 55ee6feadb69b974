/-!
# Rounding quotients and roots

One function rounds a quotient of natural numbers to an integer in any of the eight modes of
decimal arithmetic. Its result is always one of the two integers around the quotient, and an exact
quotient is kept in every mode.
-/

namespace InfixCalc.Number

/-- Which of the two neighbours an inexact magnitude goes to. -/
inductive Rounding where
  | up
  | down
  | ceiling
  | floor
  | halfUp
  | halfDown
  | halfEven
  | zeroFiveUp
  deriving DecidableEq, Repr

/-- Whether a magnitude between `kept` and `kept + 1` goes to the upper neighbour; `half` compares
the dropped part with one half. -/
def Rounding.goesUp (mode : Rounding) (negative : Bool) (kept : Nat) (half : Ordering) : Bool :=
  match mode with
  | .up => true
  | .down => false
  | .ceiling => !negative
  | .floor => negative
  | .halfUp => half != .lt
  | .halfDown => half == .gt
  | .halfEven => half == .gt || (half == .eq && kept % 2 == 1)
  | .zeroFiveUp => kept % 5 == 0

/-- The quotient `num / den` as an integer; the sign only steers the directed modes. -/
def Rounding.quotient (mode : Rounding) (negative : Bool) (num den : Nat) : Nat :=
  let kept := num / den
  let dropped := num % den
  if dropped = 0 then kept
  else if mode.goesUp negative kept (compare (2 * dropped) den) then kept + 1
  else kept

theorem Rounding.quotient_of_dvd (mode : Rounding) (negative : Bool) {num den : Nat}
    (exact : num % den = 0) : mode.quotient negative num den = num / den := by
  simp [quotient, exact]

theorem Rounding.quotient_le (mode : Rounding) (negative : Bool) (num den : Nat) :
    mode.quotient negative num den ≤ num / den + 1 := by
  unfold quotient
  dsimp only
  split
  · omega
  · split <;> omega

/-- How many digits can be dropped from `n` at once, judged by its binary length. -/
def dropped (n : Nat) : Nat := max 1 (n.log2 * 3 / 10)

def digitCountWithin : Nat → Nat → Nat
  | 0, _ => 1
  | bound + 1, n =>
    if n < 10 then 1 else digitCountWithin bound (n / Nat.pow 10 (dropped n)) + dropped n

def digitCount (n : Nat) : Nat := digitCountWithin n.log2 n

theorem pow_dropped_le {n : Nat} (large : 10 ≤ n) : Nat.pow 10 (dropped n) ≤ n := by
  unfold dropped
  rw [Nat.pow_eq]
  by_cases small : n.log2 * 3 / 10 ≤ 1
  · rw [Nat.max_eq_left small]
    simpa using large
  · rw [Nat.max_eq_right (by omega)]
    have scaled : 10 ^ (n.log2 * 3 / 10) ≤ 2 ^ n.log2 := by
      obtain ⟨q, s, split, low⟩ : ∃ q s, n.log2 * 3 / 10 = 3 * q + s ∧ s < 3 :=
        ⟨_, _, (Nat.div_add_mod _ 3).symm, Nat.mod_lt _ (by decide)⟩
      have enough : 10 * q + (10 * s + 2) / 3 ≤ n.log2 := by omega
      calc 10 ^ (n.log2 * 3 / 10) = 1000 ^ q * 10 ^ s := by
            rw [split, Nat.pow_add, Nat.pow_mul]
        _ ≤ 1024 ^ q * 2 ^ ((10 * s + 2) / 3) := by
            apply Nat.mul_le_mul (Nat.pow_le_pow_left (by decide) q)
            match s, low with
            | 0, _ | 1, _ | 2, _ => decide
        _ = 2 ^ (10 * q + (10 * s + 2) / 3) := by rw [Nat.pow_add, Nat.pow_mul]
        _ ≤ 2 ^ n.log2 := Nat.pow_le_pow_right (by decide) enough
    exact Nat.le_trans scaled (Nat.log2_self_le (by omega))

theorem dropped_pos (n : Nat) : 0 < dropped n :=
  Nat.lt_of_lt_of_le Nat.one_pos (Nat.le_max_left 1 _)

theorem digitCountWithin_pos (bound n : Nat) : 0 < digitCountWithin bound n := by
  cases bound with
  | zero => exact Nat.one_pos
  | succ bound =>
    have := dropped_pos n
    unfold digitCountWithin
    split <;> omega

theorem digitCount_pos (n : Nat) : 0 < digitCount n := digitCountWithin_pos _ _

theorem digitCountWithin_bounds (bound : Nat) :
    ∀ n, n < Nat.pow 2 (bound + 1) → n < Nat.pow 10 (digitCountWithin bound n) ∧
      (n ≠ 0 → Nat.pow 10 (digitCountWithin bound n - 1) ≤ n) := by
  simp only [Nat.pow_eq]
  induction bound with
  | zero =>
    intro n small
    simp only [digitCountWithin]
    omega
  | succ bound ih =>
    intro n small
    unfold digitCountWithin
    rw [Nat.pow_eq]
    split
    · simp only [Nat.pow_one, Nat.sub_self, Nat.pow_zero]
      omega
    · rename_i large
      have positive : 0 < 10 ^ dropped n := Nat.pow_pos (by decide)
      have whole : 10 ^ dropped n ≤ n := pow_dropped_le (by omega)
      have some_left : 0 < n / 10 ^ dropped n := Nat.div_pos whole positive
      have ten_le : 10 ≤ 10 ^ dropped n :=
        Nat.le_self_pow (Nat.ne_of_gt (dropped_pos n)) 10
      have halved : n / 10 ^ dropped n ≤ n / 2 := Nat.div_le_div_left (by omega) (by decide)
      have less : n / 10 ^ dropped n < 2 ^ (bound + 1) := by
        rw [Nat.pow_succ] at small
        omega
      obtain ⟨below, above⟩ := ih _ less
      have count := digitCountWithin_pos bound (n / 10 ^ dropped n)
      refine ⟨?_, fun _ => ?_⟩
      · rw [Nat.pow_add]
        exact (Nat.div_lt_iff_lt_mul positive).mp below
      · have exponent : digitCountWithin bound (n / 10 ^ dropped n) + dropped n - 1 =
            digitCountWithin bound (n / 10 ^ dropped n) - 1 + dropped n := by omega
        rw [exponent, Nat.pow_add]
        exact (Nat.le_div_iff_mul_le positive).mp (above (by omega))

/-- A number is below the power of ten with as many zeros as it has digits. -/
theorem lt_pow_digitCount (n : Nat) : n < Nat.pow 10 (digitCount n) :=
  (digitCountWithin_bounds _ n Nat.lt_log2_self).1

/-- A positive number is not below the power of ten with one zero less than it has digits. -/
theorem pow_digitCount_le {n : Nat} (positive : n ≠ 0) : Nat.pow 10 (digitCount n - 1) ≤ n :=
  (digitCountWithin_bounds _ n Nat.lt_log2_self).2 positive

def digitChars (n : Nat) : List Char := Nat.toDigits 10 n

/- Roots. -/

/-- The root of `n` has one binary digit for every two of `n`, so it follows from the root of
`n / 4` by one comparison. -/
def rootWithin : Nat → Nat → Nat
  | 0, _ => 0
  | digits + 1, n =>
    let r := 2 * rootWithin digits (n / 4)
    if (r + 1) * (r + 1) ≤ n then r + 1 else r

def root (n : Nat) : Nat := rootWithin (n.log2 + 1) n

end InfixCalc.Number
