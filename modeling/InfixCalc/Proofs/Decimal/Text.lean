import Mathlib.Data.List.DropRight
import InfixCalc.Decimal.Text
import InfixCalc.Proofs.Binary64.Text

/-!
# Plain texts of decimal numbers

A finite decimal is written as a whole part and a fraction without zeros at the end, and never with
an exponent. Reading gives back a number that is equal, with all digits however many there are.
-/

namespace InfixCalc.Decimal

open InfixCalc.Number InfixCalc.Text

/-- The number that a finite decimal stands for. -/
def value? : Decimal → Option ℚ
  | .finite negative coefficient exponent => some (signed negative coefficient * 10 ^ exponent)
  | _ => none

/- Values of digits. -/

theorem valueOf_eq (digits : List Char) : valueOf digits = Nat.ofDigitChars 10 digits 0 :=
  Nat.ofDigitChars_eq_foldl.symm

theorem valueOf_digitChars (n : Nat) : valueOf (digitChars n) = n := by
  rw [valueOf_eq]
  exact Nat.ofDigitChars_ten_toDigits

theorem valueOf_append_zeros (digits : List Char) (count : Nat) :
    valueOf (digits ++ List.replicate count '0') = valueOf digits * 10 ^ count := by
  rw [valueOf_eq, Nat.ofDigitChars_append, Nat.ofDigitChars_replicate_zero, valueOf_eq,
    Nat.mul_comm]

theorem valueOf_zeros_append (digits : List Char) (count : Nat) :
    valueOf (List.replicate count '0' ++ digits) = valueOf digits := by
  rw [valueOf_eq, Nat.ofDigitChars_append, Nat.ofDigitChars_replicate_zero, Nat.mul_zero,
    valueOf_eq]

/- Zeros at the end of a fraction. -/

theorem stripTrailing_point (whole part : List Char) :
    stripTrailing (whole ++ '.' :: part) = whole ++ '.' :: stripTrailing part := by
  change (whole ++ '.' :: part).rdropWhile (· == '0') = whole ++ '.' :: part.rdropWhile (· == '0')
  induction part using List.reverseRecOn with
  | nil =>
    rw [List.rdropWhile_nil]
    exact List.rdropWhile_concat_neg _ _ _ (by decide)
  | append_singleton part c ih =>
    have apart : whole ++ '.' :: (part ++ [c]) = (whole ++ '.' :: part) ++ [c] := by simp
    rw [apart, List.rdropWhile_concat, List.rdropWhile_concat]
    split
    · exact ih
    · exact apart.symm

/-- What is stripped are zeros, and all of them. -/
theorem exists_zeros (part : List Char) :
    (∃ count, part = stripTrailing part ++ List.replicate count '0') ∧
      ∀ c ∈ (stripTrailing part).getLast?, c ≠ '0' := by
  change (∃ count, part = part.rdropWhile (· == '0') ++ List.replicate count '0') ∧
    ∀ c ∈ (part.rdropWhile (· == '0')).getLast?, c ≠ '0'
  induction part using List.reverseRecOn with
  | nil => exact ⟨⟨0, rfl⟩, fun c never => nomatch never⟩
  | append_singleton part c ih =>
    rw [List.rdropWhile_concat]
    split
    · rename_i zero
      obtain ⟨⟨count, same⟩, last⟩ := ih
      refine ⟨⟨count + 1, ?_⟩, last⟩
      rw [List.replicate_succ', ← List.append_assoc, ← same, beq_iff_eq.mp zero]
    · rename_i other
      refine ⟨⟨0, (List.append_nil _).symm⟩, ?_⟩
      simpa using other

/-- A text of a magnitude: the fraction has no zero at its end, and the digits are those of the
coefficient, but for zeros at the end. -/
structure Spells (coefficient : Nat) (exponent : Int) (whole part : List Char) : Prop where
  run : IsRun whole
  digits : ∀ c ∈ part, c.isDigit = true
  last : ∀ c ∈ part.getLast?, c ≠ '0'
  fewer : part = [] ∨ part.length ≤ -exponent
  scaled : ∃ dropped added : Nat,
    valueOf (whole ++ part) * 10 ^ dropped = coefficient * 10 ^ added ∧
      (dropped : Int) - added = -part.length - exponent

theorem exists_pointed (coefficient : Nat) {places : Nat} (some_ : places ≠ 0) :
    ∃ whole part, pointed (digitChars coefficient) places = whole ++ '.' :: part ∧
      IsRun whole ∧ IsRun part ∧ part.length = places ∧ valueOf (whole ++ part) = coefficient := by
  have size := List.length_pos_iff.mpr (Binary64.isRun_digitChars coefficient).1
  have run : IsRun (List.replicate (places + 1 - (digitChars coefficient).length) '0' ++
      digitChars coefficient) :=
    (Binary64.isRun_digitChars coefficient).prepend fun c => isDigit_of_mem_replicate
  have value := valueOf_zeros_append (digitChars coefficient)
    (places + 1 - (digitChars coefficient).length)
  have long : places <
      (List.replicate (places + 1 - (digitChars coefficient).length) '0' ++
        digitChars coefficient).length := by
    rw [List.length_append, List.length_replicate]
    omega
  rw [valueOf_digitChars] at value
  unfold pointed
  simp only [if_neg some_]
  generalize List.replicate (places + 1 - (digitChars coefficient).length) '0' ++
    digitChars coefficient = padded at run value long
  refine ⟨_, _, rfl, run.take (by omega), run.drop (by omega), ?_, ?_⟩
  · rw [List.length_drop]
    omega
  · rw [List.take_append_drop, value]

theorem getLast?_point (whole : List Char) {part : List Char} :
    (whole ++ '.' :: part).getLast? = some (part.getLast?.getD '.') := by
  rw [List.getLast?_append, List.getLast?_cons]
  rfl

theorem exists_plainDigits (coefficient : Nat) (exponent : Int) :
    ∃ whole part, plainDigits coefficient exponent = fixedText whole part ∧
      Spells coefficient exponent whole part := by
  unfold plainDigits
  by_cases above : 0 ≤ exponent
  · have power : (0 : Int) - exponent.toNat = -([] : List Char).length - exponent := by
      simp only [List.length_nil]
      omega
    rw [if_pos above]
    split
    · rename_i zero
      refine ⟨['0'], [], rfl, isRun_singleton rfl, List.forall_mem_nil _, nofun, .inl rfl, 0,
        exponent.toNat, ?_, power⟩
      rw [zero, Nat.zero_mul]
      rfl
    · refine ⟨_, [], rfl, ?_, List.forall_mem_nil _, nofun, .inl rfl, 0, exponent.toNat, ?_,
        power⟩
      · exact (Binary64.isRun_digitChars coefficient).append fun c => isDigit_of_mem_replicate
      · rw [List.append_nil, valueOf_append_zeros, valueOf_digitChars, Nat.pow_zero, Nat.mul_one]
  · rw [if_neg above]
    have some_ : (-exponent).toNat ≠ 0 := by omega
    obtain ⟨whole, part, shown, run, more, places, value⟩ := exists_pointed coefficient some_
    obtain ⟨⟨count, split⟩, last⟩ := exists_zeros part
    have digits : ∀ c ∈ stripTrailing part, c.isDigit = true := fun c member =>
      more.2 c (split ▸ List.mem_append_left _ member)
    have lengths := congrArg List.length split
    rw [List.length_append, List.length_replicate, places] at lengths
    refine ⟨whole, stripTrailing part, ?_, run, digits, last, .inr (by omega), count, 0, ?_, ?_⟩
    · simp only [shown, stripTrailing_point, getLast?_point, fixedText]
      cases stripped : (stripTrailing part).getLast? with
      | none => simp [List.getLast?_eq_none_iff.mp stripped]
      | some c =>
        have point := Pattern.ne_point_of_digit
          (digit_contains (digits c (List.mem_of_getLast? stripped)))
        have notEmpty : stripTrailing part ≠ [] := by
          intro none_
          rw [none_] at stripped
          cases stripped
        simp [point, notEmpty]
    · rw [← valueOf_append_zeros, List.append_assoc, ← split, value, Nat.pow_zero, Nat.mul_one]
    · push_cast
      omega

/- What a text of a magnitude says. -/

section Spells

variable {coefficient : Nat} {exponent : Int} {whole part : List Char}
  (spells : Spells coefficient exponent whole part)
include spells

theorem Spells.eq_mul_pow : (valueOf (whole ++ part) : ℚ) * 10 ^ (-part.length : Int) =
    coefficient * 10 ^ exponent := by
  obtain ⟨dropped, added, same, places⟩ := spells.scaled
  have ten : (10 : ℚ) ≠ 0 := by decide
  have scaled : (valueOf (whole ++ part) : ℚ) * 10 ^ dropped = coefficient * 10 ^ added := by
    exact_mod_cast same
  have left : (-part.length : Int) = dropped + (exponent - added) := by omega
  have right : exponent = added + (exponent - added) := by omega
  calc (valueOf (whole ++ part) : ℚ) * 10 ^ (-part.length : Int)
      = valueOf (whole ++ part) * 10 ^ dropped * 10 ^ (exponent - added) := by
        rw [left, zpow_add₀ ten, zpow_natCast, mul_assoc]
    _ = coefficient * 10 ^ added * 10 ^ (exponent - added) := by rw [scaled]
    _ = coefficient * 10 ^ exponent := by
        rw [mul_assoc, ← zpow_natCast, ← zpow_add₀ ten, ← right]

theorem Spells.leading_eq (some_ : coefficient ≠ 0) : valueOf (whole ++ part) ≠ 0 ∧
    leading (valueOf (whole ++ part)) (-part.length) = leading coefficient exponent := by
  obtain ⟨dropped, added, same, places⟩ := spells.scaled
  have positive : coefficient * 10 ^ added ≠ 0 :=
    Nat.mul_ne_zero some_ (Nat.ne_of_gt (Nat.pow_pos (by decide)))
  rw [← same] at positive
  have digits := Nat.ne_zero_of_mul_ne_zero_left positive
  have counts := congrArg digitCount same
  rw [Binary64.digitCount_mul_pow digits, Binary64.digitCount_mul_pow some_] at counts
  refine ⟨digits, ?_⟩
  unfold leading
  omega

/-- A number that can be read at all can be read from its plain text. -/
theorem Spells.isReadable (readable : isReadable coefficient exponent = true) :
    isReadable (valueOf (whole ++ part)) (-part.length) = true := by
  have fewer : part.length = 0 ∨ part.length ≤ -exponent :=
    spells.fewer.imp_left List.length_eq_zero_iff.mpr
  have positive : 0 < readableExponent := by decide
  simp only [Decimal.isReadable, Bool.and_eq_true, decide_eq_true_eq] at readable ⊢
  obtain ⟨top, bottom⟩ := readable
  by_cases zero : coefficient = 0
  · obtain ⟨dropped, added, same, _⟩ := spells.scaled
    have gone : valueOf (whole ++ part) = 0 := by
      rw [zero, Nat.zero_mul] at same
      exact (Nat.mul_eq_zero.mp same).resolve_right (Nat.ne_of_gt (Nat.pow_pos (by decide)))
    rw [if_pos gone]
    omega
  · obtain ⟨digits, leads⟩ := spells.leading_eq zero
    rw [if_neg zero] at top
    rw [if_neg digits, leads]
    omega

end Spells

/- Reading a plain text. -/

theorem digitChar_of_isDigit {c : Char} (digit : c.isDigit = true) :
    Nat.digitChar (c.toNat - 48) = c := by
  simp only [Char.isDigit, Bool.and_eq_true, decide_eq_true_eq] at digit
  have low : 48 ≤ c.toNat := digit.1
  have high : c.toNat ≤ 57 := digit.2
  have value : (Nat.digitChar (c.toNat - 48)).toNat = c.toNat := by
    rw [Nat.toNat_digitChar_of_lt_ten (by omega)]
    omega
  exact Char.toNat_inj.mp value

theorem normalized_ofList {text : List Char}
    (plain : ∀ c ∈ text, c.isDigit = true ∨ c = '.' ∨ c = '-') :
    normalized (String.ofList text) = text := by
  have noBlank : ∀ c ∈ text, isBlank c = false := by
    intro c member
    rcases plain c member with digit | rfl | rfl
    · exact Binary64.not_isBlank_of_isDigit digit
    · rfl
    · rfl
  have noScore : ∀ c ∈ text, (c != '_') = true := by
    intro c member
    rcases plain c member with digit | rfl | rfl
    · refine bne_iff_ne.mpr ?_
      rintro rfl
      cases digit
    · rfl
    · rfl
  unfold normalized
  simp only [String.toList_ofList]
  rw [Binary64.dropWhile_eq_self noBlank, Binary64.dropWhile_eq_self fun c member =>
    noBlank c (List.mem_reverse.mp member), List.reverse_reverse, List.filter_eq_self.mpr noScore]
  refine (List.map_congr_left ?_).trans (List.map_id' text)
  intro c member
  rcases plain c member with digit | rfl | rfl
  · simp only [digitValue?_of_isDigit digit]
    exact digitChar_of_isDigit digit
  · rfl
  · rfl

theorem toLower_of_isDigit {c : Char} (digit : c.isDigit = true) : c.toLower = c := by
  simp only [Char.isDigit, Bool.and_eq_true, decide_eq_true_eq] at digit
  have high : c.toNat ≤ 57 := digit.2
  unfold Char.toLower
  split
  · rename_i upper
    have low : 65 ≤ c.toNat := upper.1
    omega
  · rfl

theorem readSpecial_of_isDigit (negative : Bool) {c : Char} (digit : c.isDigit = true)
    (cs : List Char) : readSpecial negative (c :: cs) = none := by
  have other (d : Char) (letter : d.isDigit = false) : c ≠ d := by
    rintro rfl
    cases letter.symm.trans digit
  have noI := other 'i' rfl
  unfold readSpecial
  simp only [List.map_cons, toLower_of_isDigit digit]
  rw [if_neg (by simp [noI])]
  split
  · rename_i same
    exact absurd (List.cons.inj same).1 (other 's' rfl)
  · rename_i same
    exact absurd (List.cons.inj same).1 (other 'n' rfl)
  · rfl

theorem digitsOf_run {digits : List Char} (all : ∀ c ∈ digits, c.isDigit = true)
    {rest : List Char} (stops : rest = [] ∨ ∃ more, rest = '.' :: more) :
    digitsOf (digits ++ rest) = (digits, rest) := by
  have none_ : rest.takeWhile Char.isDigit = [] ∧ rest.dropWhile Char.isDigit = rest := by
    rcases stops with rfl | ⟨more, rfl⟩
    · exact ⟨rfl, rfl⟩
    · exact ⟨rfl, rfl⟩
  rw [digitsOf, List.span_eq_takeWhile_dropWhile, List.takeWhile_append_of_pos all,
    List.dropWhile_append_of_pos all, none_.1, none_.2, List.append_nil]

theorem readFinite_fixedText (negative : Bool) {whole part : List Char} (run : IsRun whole)
    (digits : ∀ c ∈ part, c.isDigit = true)
    (readable : isReadable (valueOf (whole ++ part)) (-part.length) = true) :
    readFinite negative (fixedText whole part) =
      some (.finite negative (valueOf (whole ++ part)) (-part.length)) := by
  have first : digitsOf (whole ++ []) = (whole, []) := digitsOf_run run.2 (.inl rfl)
  have point : digitsOf (whole ++ '.' :: part) = (whole, '.' :: part) :=
    digitsOf_run run.2 (.inr ⟨part, rfl⟩)
  have later : digitsOf (part ++ []) = (part, []) := digitsOf_run digits (.inl rfl)
  rw [List.append_nil] at first later
  unfold fixedText
  split
  · rename_i none_
    subst none_
    rw [List.append_nil] at readable ⊢
    simp only [readFinite, first, exponentOf]
    simp_all [run.1]
  · simp only [readFinite, point, later, exponentOf]
    simp_all [run.1]

/-- A plain text is read as what its digits say. -/
theorem read_withSign (negative : Bool) {whole part : List Char} (run : IsRun whole)
    (digits : ∀ c ∈ part, c.isDigit = true)
    (readable : isReadable (valueOf (whole ++ part)) (-part.length) = true) :
    read (String.ofList (withSign negative (fixedText whole part))) =
      some (.finite negative (valueOf (whole ++ part)) (-part.length)) := by
  have fixed := isFixed_fixedText run digits
  have finite := readFinite_fixedText negative run digits readable
  have chars : ∀ c ∈ withSign negative (fixedText whole part),
      c.isDigit = true ∨ c = '.' ∨ c = '-' := by
    intro c member
    cases negative with
    | true =>
      rcases List.mem_cons.mp member with rfl | inside
      · exact .inr (.inr rfl)
      · exact (fixed.digit_or_point c inside).imp_right .inl
    | false => exact (fixed.digit_or_point c member).imp_right .inl
  obtain ⟨c, cs, same, digit⟩ := fixed.cons
  rw [read, normalized_ofList chars]
  rw [same] at finite ⊢
  have special := readSpecial_of_isDigit negative digit cs
  cases negative with
  | true =>
    simp only [withSign, if_true, special, finite]
    rfl
  | false =>
    simp only [withSign, Bool.false_eq_true, if_false]
    split
    · rename_i minus
      cases (List.cons.inj minus).1
      cases digit
    · rename_i plus
      cases (List.cons.inj plus).1
      cases digit
    · simp only [special, finite]
      rfl

/- The theorem. -/

/-- No exponent, and no zero at the end of a fraction. -/
structure IsPlain (text : List Char) : Prop where
  noExponent : ∀ c ∈ text, c ≠ 'e' ∧ c ≠ 'E'
  noZero : '.' ∈ text → ∃ front last, text = front ++ [last] ∧ last ≠ '0' ∧ last ≠ '.'

theorem Spells.isPlain {coefficient : Nat} {exponent : Int} {whole part : List Char}
    (spells : Spells coefficient exponent whole part) (negative : Bool) :
    IsPlain (withSign negative (fixedText whole part)) := by
  have fixed := isFixed_fixedText spells.run spells.digits
  have noPoint : ∀ c ∈ whole, c ≠ '.' := fun c member =>
    Pattern.ne_point_of_digit (digit_contains (spells.run.2 c member))
  have noZero : '.' ∈ fixedText whole part →
      ∃ front last, fixedText whole part = front ++ [last] ∧ last ≠ '0' ∧ last ≠ '.' := by
    intro point
    unfold fixedText at point ⊢
    rcases List.eq_nil_or_concat part with none_ | ⟨front, last, rfl⟩
    · rw [if_pos none_] at point
      exact absurd rfl (noPoint '.' point)
    · rw [List.concat_eq_append] at spells ⊢
      refine ⟨whole ++ '.' :: front, last, by simp, spells.last last (by simp), ?_⟩
      exact Pattern.ne_point_of_digit (digit_contains (spells.digits last (by simp)))
  cases negative with
  | false => exact ⟨fixed.no_exponent, noZero⟩
  | true =>
    constructor
    · exact List.forall_mem_cons.mpr ⟨by decide, fixed.no_exponent⟩
    · intro point
      have inside : '.' ∈ fixedText whole part := by simpa [withSign] using point
      obtain ⟨front, last, same, notZero, notPoint⟩ := noZero inside
      exact ⟨'-' :: front, last, congrArg (List.cons '-') same, notZero, notPoint⟩

/-- A finite decimal is written without an exponent and without zeros at the end of a fraction, and
what is read from that is equal to it and has its sign. -/
theorem exists_read_plain {coefficient : Nat} {exponent : Int}
    (readable : isReadable coefficient exponent = true) (negative : Bool) :
    ∃ cs y, (finite negative coefficient exponent).plain = String.ofList (withSign negative cs) ∧
      IsFixed cs ∧ IsPlain (withSign negative cs) ∧
      read (String.ofList (withSign negative cs)) = some y ∧
      y.value? = (finite negative coefficient exponent).value? ∧ y.isNegative = negative := by
  obtain ⟨whole, part, shown, spells⟩ := exists_plainDigits coefficient exponent
  have value := spells.eq_mul_pow
  refine ⟨fixedText whole part, _, ?_, isFixed_fixedText spells.run spells.digits,
    spells.isPlain negative,
    read_withSign negative spells.run spells.digits (spells.isReadable readable), ?_, rfl⟩
  · rw [plain, shown]
  · refine congrArg some ?_
    cases negative with
    | false => simpa [signed] using value
    | true => simpa [signed, neg_mul] using congrArg Neg.neg value

end InfixCalc.Decimal
