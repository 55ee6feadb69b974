import InfixCalc.Proofs.Binary64.Shortest
import InfixCalc.Proofs.Binary64.Text

/-!
# Doubles read back

The text of a finite double that is not negative says the shortest digits of the double, and so it
is read as this double again.
-/

namespace InfixCalc.Binary64

open InfixCalc.Number InfixCalc.Text

/- What a text of digits says. -/

theorem exponentOf_run {sign : Char} {negative : Bool} {ds : List Char} (run : IsRun ds)
    (signed : signOf (sign :: ds) = (negative, ds)) :
    exponentOf ('e' :: sign :: ds) =
      some (if negative then -(Nat.ofDigitChars 10 ds 0 : Int) else Nat.ofDigitChars 10 ds 0) := by
  have all : digitRun false (ds ++ []) = (ds.filterMap digitValue?, []) :=
    digitRun_append run.isDigits.2 isTail_nil.stops false
  obtain ⟨d, more, values⟩ := List.exists_cons_of_ne_nil (filterMap_ne_nil run.isDigits)
  have number := digitsValue_digits run.2
  rw [List.append_nil, values] at all
  rw [values] at number
  simp [exponentOf, signed, all, number]

theorem isTail_exponentText (exponent : Int) : IsTail (exponentText exponent) exponent := by
  have run : IsRun (List.replicate (2 - (digitChars exponent.natAbs).length) '0' ++
      digitChars exponent.natAbs) :=
    (isRun_digitChars _).prepend fun c => isDigit_of_mem_replicate
  have value : Nat.ofDigitChars 10 (List.replicate (2 - (digitChars exponent.natAbs).length) '0' ++
      digitChars exponent.natAbs) 0 = exponent.natAbs := by
    rw [Nat.ofDigitChars_append, Nat.ofDigitChars_replicate_zero, Nat.mul_zero]
    exact Nat.ofDigitChars_ten_toDigits
  refine ⟨.inr ⟨_, rfl⟩, ?_⟩
  unfold exponentText
  simp only
  by_cases negative : exponent < 0
  · rw [if_pos negative, exponentOf_run run rfl, value, if_pos rfl]
    exact congrArg some (by omega)
  · rw [if_neg negative, exponentOf_run run rfl, value, if_neg Bool.false_ne_true]
    exact congrArg some (by omega)

/-- Zeros among the digits may stand in the exponent. -/
theorem ofDecimal_mul_pow (digits zeros : Nat) (exponent : Int) :
    ofDecimal false (digits * 10 ^ zeros) (exponent - zeros) = ofDecimal false digits exponent := by
  induction zeros with
  | zero => simp
  | succ zeros ih =>
    have next : digits * 10 ^ (zeros + 1) = 10 * (digits * 10 ^ zeros) := by
      rw [Nat.pow_succ, ← Nat.mul_assoc, Nat.mul_comm]
    have place : exponent - (zeros + 1 : Nat) = exponent - zeros - 1 := by omega
    rw [next, place, ofDecimal_ten_mul, ih]

theorem not_isBlank_of_numeral {cs : List Char} (numeral : IsNumeral cs) :
    ∀ c ∈ cs, isBlank c = false := by
  intro c member
  rcases numeral.chars c member with digit | other
  · exact not_isBlank_of_isDigit digit
  · fin_cases other <;> rfl

/-- A numeral is read as what its whole part, its fraction and its exponent stand for. -/
theorem read_numeral {cs whole part tail : List Char} {exponent : Int} (numeral : IsNumeral cs)
    (shape : cs = fixedText whole part ++ tail) (run : IsRun whole)
    (digits : ∀ c ∈ part, c.isDigit = true) (ends : IsTail tail exponent) :
    read (String.ofList cs) = some (ofDecimal false (Nat.ofDigitChars 10 (whole ++ part) 0)
      (exponent - part.length)) := by
  have trimmed := trim_eq_self (not_isBlank_of_numeral numeral)
  have number := unsigned_fixedText run digits ends
  rw [← shape] at number
  obtain ⟨c, rest, rfl, digit⟩ := numeral.cons
  rw [read_of_begins (.inl (digit_contains digit)) trimmed, number]
  rfl

theorem mantissaText_eq {ds : List Char} (run : IsRun ds) :
    mantissaText ds = fixedText (ds.take 1) (ds.drop 1) := by
  match ds, run with
  | [], run => exact absurd rfl run.1
  | [d], run => rfl
  | d :: e :: more, run => rfl

theorem read_whole {ds : List Char} (run : IsRun ds) :
    read (String.ofList ds) = some (ofDecimal false (Nat.ofDigitChars 10 ds 0) 0) := by
  have shape : ds = fixedText ds [] ++ [] := by simp [fixedText]
  have reads := read_numeral (.fixed (.whole run)) shape run (List.forall_mem_nil _) isTail_nil
  rwa [List.append_nil] at reads

theorem read_point {whole part : List Char} (run : IsRun whole) (later : IsRun part) :
    read (String.ofList (whole ++ '.' :: part)) =
      some (ofDecimal false (Nat.ofDigitChars 10 (whole ++ part) 0) (-part.length)) := by
  have shape : whole ++ '.' :: part = fixedText whole part ++ [] := by
    simp [fixedText, later.1]
  have reads := read_numeral (.fixed (.point run later)) shape run later.2 isTail_nil
  rwa [Int.zero_sub] at reads

theorem read_exponent {ds : List Char} (run : IsRun ds) (exponent : Int) :
    read (String.ofList (mantissaText ds ++ exponentText exponent)) =
      some (ofDecimal false (Nat.ofDigitChars 10 ds 0) (exponent - (ds.length - 1 : Nat))) := by
  have numeral : IsNumeral (mantissaText ds ++ exponentText exponent) := by
    obtain ⟨sign, es, written, signed, digits⟩ := exponentText_eq exponent
    rw [written]
    exact .exponent (isFixed_mantissaText run) signed digits
  have later : ∀ c ∈ ds.drop 1, c.isDigit = true := fun c member =>
    run.2 c (List.mem_of_mem_drop member)
  rw [read_numeral numeral (congrArg (· ++ _) (mantissaText_eq run)) (run.take Nat.one_ne_zero)
    later (isTail_exponentText exponent), List.take_append_drop, List.length_drop]

/-- The text of digits is read as the number of the digits. -/
theorem read_render (least most : Int) (d : Digits) :
    read (String.ofList (Layout.render ⟨least, most, false⟩ d)) =
      some (ofDecimal false d.digits d.exponent) := by
  have run := isRun_digitChars d.digits
  have value : Nat.ofDigitChars 10 (digitChars d.digits) 0 = d.digits :=
    Nat.ofDigitChars_ten_toDigits
  have size := List.length_pos_iff.mpr run.1
  unfold Layout.render
  dsimp only
  generalize digitChars d.digits = digits at run value size
  split
  · rw [read_exponent run, value]
    congr 2
    omega
  · split
    · rename_i above
      have zeros := ofDecimal_mul_pow d.digits d.exponent.toNat d.exponent
      rw [Int.toNat_of_nonneg above, Int.sub_self] at zeros
      have all : IsRun (digits ++ List.replicate d.exponent.toNat '0') :=
        run.append fun c => isDigit_of_mem_replicate
      rw [if_neg Bool.false_ne_true, List.append_nil, read_whole all, Nat.ofDigitChars_append,
        value, Nat.ofDigitChars_replicate_zero, Nat.mul_comm]
      exact congrArg some zeros
    · split
      · rw [read_point (run.take (by omega)) (run.drop (by omega)), List.take_append_drop, value,
          List.length_drop]
        congr 2
        omega
      · have later : IsRun (List.replicate (-(d.exponent + digits.length - 1) - 1).toNat '0' ++
            digits) := run.prepend fun c => isDigit_of_mem_replicate
        have zero : IsRun ['0'] := isRun_singleton rfl
        rw [List.append_assoc, List.cons_append, List.cons_append, List.nil_append,
          ← List.singleton_append, read_point zero later, Nat.ofDigitChars_append,
          Nat.ofDigitChars_append, Nat.ofDigitChars_replicate_zero]
        have front : Nat.ofDigitChars 10 ['0'] 0 = 0 := rfl
        rw [front, Nat.mul_zero, value, List.length_append, List.length_replicate]
        congr 2
        omega

/-- A finite double that is not negative is shown as a numeral, from which it is read again. -/
theorem exists_format_reads {x : Float} {significand : Nat} {exponent : Int}
    (decoded : decode x = .finite false significand exponent) :
    ∃ cs, Real.format x = String.ofList cs ∧ IsNumeral cs ∧
      read (String.ofList cs) = some x := by
  obtain ⟨fits, same⟩ := eq_of_decode decoded
  rw [format_eq_text decoded]
  unfold Layout.text
  simp only [decoded, Bool.false_eq_true, if_false]
  by_cases zero : significand = 0
  · have run : IsRun ['0'] := isRun_singleton rfl
    have word : word significand exponent = 0 := by
      rw [zero]
      rfl
    refine ⟨['0'], by simp [zero, plain], .fixed (.whole run), ?_⟩
    rw [read_whole run, same, word]
    rfl
  · have positive := Nat.pos_of_ne_zero zero
    have reads := read_render (-4) 15 (shortest significand exponent)
    rw [ofDecimal_of_holds fits positive (holds_shortest fits positive), ← same] at reads
    rw [if_neg zero]
    exact ⟨_, rfl, (isNumeral_render _ _ _).1, reads⟩

end InfixCalc.Binary64
