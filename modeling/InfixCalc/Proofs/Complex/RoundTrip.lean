import InfixCalc.Proofs.Answers
import InfixCalc.Proofs.Binary64.RoundTrip
import InfixCalc.Proofs.Binary64.Unsigned
import InfixCalc.Proofs.Session

/-!
# Complex literals

A finite complex literal is read back from its written form, by itself and by the scanner of every
builder over complex numbers. The imaginary unit is written as its name, which is a variable.
-/

namespace InfixCalc.Complex

open InfixCalc.Number InfixCalc.Text

/- What the operand patterns take. -/

/-- The unit behind an imaginary literal. No name goes on behind it. -/
def unit : Pattern :=
  .seq (.many (.char .blank))
    (.seq (.char (.one 'i'))
      (.seq (.ahead false
        (.seq (.char (.either (.range 'a' 'z') (.either (.range 'A' 'Z') .asciiDigit))) .empty))
        .empty))

def optionalUnit : Pattern := .seq (.optional unit) .empty

theorem read_operandPatterns :
    (operandPatterns.mapM (WrittenPattern.read Pattern.compile)).map
      (·.map WrittenPattern.matcher) =
      .ok [(Pattern.scientificThen optionalUnit).matcher,
        (Pattern.numberThen optionalUnit).matcher] := rfl

theorem closes_i : optionalUnit.Closes ['i'] where
  noDigit := by
    intro c same
    cases same
    decide
  noPoint := by
    intro c same
    cases same
    decide
  noLetter := List.forall_mem_singleton.mpr (by decide)
  whole := rfl

/- Reading. -/

/-- A literal is a real or an imaginary number that is read from a text without a sign. -/
theorem exists_read {c : Char} (begins : BeginsOperand c) {cs : List Char} {z : Complex}
    (reads : read (String.ofList (c :: cs)) = some z) :
    ∃ d ds y, BeginsOperand d ∧ Binary64.read (String.ofList (d :: ds)) = some y ∧
      (z = ofReal y ∨ z = ⟨0, y⟩) := by
  obtain ⟨ds, trimmed⟩ := Binary64.dropWhile_reverse_cons (Binary64.not_isBlank_of_begins begins) cs
  unfold read at reads
  simp only [String.toList_ofList, trimmed] at reads
  split at reads
  · rename_i rest same
    obtain ⟨y, taken, rfl⟩ := Option.map_eq_some_iff.mp reads
    cases ds with
    | nil =>
      cases (List.cons.inj same).1
      rcases begins with digit | point
      · cases digit
      · cases point
    | cons d ds =>
      rw [List.cons_append] at same
      obtain ⟨_, rfl⟩ := List.cons.inj same
      rw [List.reverse_concat] at taken
      exact ⟨c, _, y, begins, taken, .inr rfl⟩
  · obtain ⟨y, taken, rfl⟩ := Option.map_eq_some_iff.mp reads
    rw [List.reverse_concat] at taken
    exact ⟨c, _, y, begins, taken, .inl rfl⟩

theorem read_real {cs : List Char} (numeral : IsNumeral cs) {y : Float}
    (reads : Binary64.read (String.ofList cs) = some y) :
    read (String.ofList cs) = some (ofReal y) := by
  have noBlank : ∀ c ∈ cs.reverse, isBlank c = false := fun c member =>
    Binary64.not_isBlank_of_numeral numeral c (List.mem_reverse.mp member)
  unfold read
  simp only [String.toList_ofList, Binary64.dropWhile_eq_self noBlank]
  split
  · rename_i rest same
    have member : 'i' ∈ cs := List.mem_reverse.mp (same ▸ List.mem_cons_self)
    rcases numeral.chars 'i' member with digit | other
    · cases digit
    · exact absurd other (by decide)
  · rw [List.reverse_reverse, reads]
    rfl

theorem read_imaginary {cs : List Char} {y : Float}
    (reads : Binary64.read (String.ofList cs) = some y) :
    read (String.ofList (cs ++ ['i'])) = some ⟨0, y⟩ := by
  unfold read
  rw [String.toList_ofList, List.reverse_concat, List.dropWhile_cons_of_neg (by decide)]
  simp [reads]

/- Writing. -/

theorem isFinite_zero : (0 : Float).isFinite = true := by decide +kernel

theorem isFinite_ofReal (y : Float) : (ofReal y).isFinite = y.isFinite := by
  simp [isFinite, ofReal, isFinite_zero]

theorem isFinite_imaginary (y : Float) : (⟨0, y⟩ : Complex).isFinite = y.isFinite := by
  simp [isFinite, isFinite_zero]

theorem format_i : i.format = "i" := by decide +kernel

theorem format_ofReal (y : Float) : (ofReal y).format = Real.format y := by
  have zero : ((0 : Float) == 0) = true := rfl
  simp [format, ofReal, zero]

theorem format_imaginary {y : Float} {significand : Nat} {exponent : Int}
    (decoded : Binary64.decode y = .finite false significand exponent) (notZero : (y == 0) = false)
    (notOne : (y == 1) = false) : (⟨0, y⟩ : Complex).format = Real.format y ++ "i" := by
  have positive := Binary64.not_lt_zero_of_decode decoded
  have size := Binary64.abs_of_decode decoded
  have zero : ((0 : Float) == 0) = true := rfl
  simp [format, notZero, notOne, size, positive, zero]

/-- A finite literal is the imaginary unit, or it is written as a numeral, perhaps with the unit
behind it, from which it is read again. -/
theorem exists_format_reads {c : Char} (begins : BeginsOperand c) {cs : List Char} {z : Complex}
    (reads : read (String.ofList (c :: cs)) = some z) (finite : z.isFinite = true) :
    z = i ∨ ∃ ds tail, z.format = String.ofList (ds ++ tail) ∧ IsNumeral ds ∧
      optionalUnit.Closes tail ∧ read (String.ofList (ds ++ tail)) = some z := by
  have real {y : Float} {significand : Nat} {exponent : Int}
      (decoded : Binary64.decode y = .finite false significand exponent) :
      ∃ ds tail, (ofReal y).format = String.ofList (ds ++ tail) ∧ IsNumeral ds ∧
        optionalUnit.Closes tail ∧ read (String.ofList (ds ++ tail)) = some (ofReal y) := by
    obtain ⟨ds, shown, numeral, again⟩ := Binary64.exists_format_reads decoded
    refine ⟨ds, [], ?_, numeral, Pattern.closes_nil rfl, ?_⟩
    · rw [List.append_nil, format_ofReal, shown]
    · rw [List.append_nil]
      exact read_real numeral again
  obtain ⟨d, ds, y, beginsToo, taken, rfl | rfl⟩ := exists_read begins reads
  · obtain ⟨significand, exponent, decoded⟩ := Binary64.exists_decode_of_read beginsToo taken
      (isFinite_ofReal y ▸ finite)
    exact .inr (real decoded)
  · obtain ⟨significand, exponent, decoded⟩ := Binary64.exists_decode_of_read beginsToo taken
      (isFinite_imaginary y ▸ finite)
    cases zero : (y == 0) with
    | true =>
      obtain rfl := Binary64.eq_zero_of_beq decoded zero
      exact .inr (real decoded)
    | false =>
      cases one : (y == 1) with
      | true =>
        obtain rfl := Binary64.eq_one_of_beq one
        exact .inl rfl
      | false =>
        obtain ⟨es, shown, numeral, again⟩ := Binary64.exists_format_reads decoded
        refine .inr ⟨es, ['i'], ?_, numeral, closes_i, read_imaginary again⟩
        rw [format_imaginary decoded zero one, shown, String.ofList_append]

/-- A literal that is not finite is written as a word. -/
theorem format_infinite {c : Char} (begins : BeginsOperand c) {cs : List Char} {z : Complex}
    (reads : read (String.ofList (c :: cs)) = some z) (infinite : z.isFinite = false) :
    z.format = "inf" ∨ z.format = "infi" := by
  obtain ⟨d, ds, y, beginsToo, taken, rfl | rfl⟩ := exists_read begins reads
  · rw [isFinite_ofReal] at infinite
    obtain ⟨digits, exponent, rfl⟩ := Binary64.exists_ofDecimal_of_read beginsToo taken
    rw [Binary64.ofDecimal_eq_infinity infinite]
    exact .inl (by decide +kernel)
  · rw [isFinite_imaginary] at infinite
    obtain ⟨digits, exponent, rfl⟩ := Binary64.exists_ofDecimal_of_read beginsToo taken
    rw [Binary64.ofDecimal_eq_infinity infinite]
    exact .inr (by decide +kernel)

/- Scanning. -/

variable {σ : Type} [RandomSource σ]

/-- A builder over complex numbers: its words, how it reads and prints, and how it tells operands
from names. -/
structure Stands (b : Builder σ Complex) : Prop where
  consistent : b.Consistent
  words : b.vocabulary = wordbook.vocabulary
  read : b.config.read = read
  print : b.config.print = fun z => .ok z.format
  numbers : (Scanner.make b.vocabulary b.config).TakesNumbers optionalUnit
  names : b.config.variablePattern.matcher = Pattern.name.matcher

theorem stands_of_builder {cacheSize maxDepth : Setting} {first : Builder σ Complex}
    (made : builder cacheSize maxDepth = .ok first) : Stands first := by
  obtain ⟨consistent, words⟩ := builder_eq_ok made
  obtain ⟨config, configured, made⟩ := bind_eq_ok_iff.mp made
  obtain ⟨cache, _, same⟩ := bind_eq_ok_iff.mp made
  cases same
  obtain ⟨operands, names, reads, prints, _⟩ := Config.make_eq_ok configured
  have known := read_operandPatterns
  rw [operands] at known
  exact ⟨consistent, words, reads, prints, Except.ok.inj known, congrArg WrittenPattern.matcher
    (Except.ok.inj (names.symm.trans Pattern.read_defaultVariablePattern))⟩

theorem Stands.used {first b : Builder σ Complex} (stands : Stands first) (used : first.Used b) :
    Stands b := by
  obtain ⟨consistent, config, vocabulary⟩ := used.kept stands.consistent
  obtain ⟨_, words, read, print, numbers, names⟩ := stands
  unfold Scanner.TakesNumbers Scanner.make at numbers
  rw [← config] at read print numbers names
  exact ⟨consistent, vocabulary.trans words, read, print, numbers, names⟩

section Stands

variable {b : Builder σ Complex} (stands : Stands b)
include stands

/-- A numeral is one operand, and so is one with the unit behind it. -/
theorem Stands.tokenize_numeral {cs tail : List Char} (numeral : IsNumeral cs)
    (closes : optionalUnit.Closes tail) {z : Complex}
    (reads : Complex.read (String.ofList (cs ++ tail)) = some z) :
    (b.tokenize (String.ofList (cs ++ tail))).1 = .ok [.symbol (.operand z)] := by
  have leaves : b.vocabulary.LeavesDigits := by
    rw [stands.words]
    exact wellSpelled_wordbook.leavesDigits_vocabulary
  rw [← stands.read] at reads
  rw [stands.consistent.tokenize_eq]
  exact stands.numbers.scan_numeral rfl stands.consistent.regular leaves numeral closes reads

theorem Stands.tokenize_name {c : Char} {cs : List Char}
    (letter : CharSet.letter.contains c = true)
    (apart : ∀ label ∈ operatorSpellings.map (·.1) ++ callSpellings,
      label.toList.isPrefixOf (c :: cs) = false)
    (whole : Pattern.name.split? (c :: cs) = some (c :: cs, [])) :
    (b.tokenize (String.ofList (c :: cs))).1 =
      .ok [.symbol (.variable (String.ofList (c :: cs)))] := by
  have words : ∀ label ∈ b.vocabulary.labels, label.toList.isPrefixOf (c :: cs) = false := by
    rw [stands.words]
    exact fun label member => apart label (Wordbook.WellSpelled.mem_labels member)
  rw [stands.consistent.tokenize_eq]
  exact stands.numbers.scan_name stands.names rfl letter words whole

/-- The name of the unit is a variable, and a constant of this name has the value of the unit. -/
theorem Stands.tokenize_i : (b.tokenize "i").1 = .ok [.symbol (.variable "i")] ∧
    b.vocabulary.constants.get? "i" = some i := by
  constructor
  · exact stands.tokenize_name (by decide) (by decide) rfl
  · rw [stands.words]
    rfl

theorem Stands.literal {text : String} {z : Complex}
    (scanned : (b.tokenize text).1 = .ok [.symbol (.operand z)]) :
    ∃ c cs, BeginsOperand c ∧ Complex.read (String.ofList (c :: cs)) = some z := by
  rw [stands.consistent.tokenize_eq] at scanned
  rw [← stands.read]
  exact stands.numbers.literal_of_scan scanned List.mem_cons_self

/-- A finite operand is the imaginary unit, or it is scanned again from its written form. -/
theorem Stands.tokenize_format {text : String} {z : Complex}
    (scanned : (b.tokenize text).1 = .ok [.symbol (.operand z)]) (finite : z.isFinite = true) :
    z = i ∨ (b.tokenize z.format).1 = .ok [.symbol (.operand z)] := by
  obtain ⟨c, cs, begins, reads⟩ := stands.literal scanned
  rcases exists_format_reads begins reads finite with unit | ⟨ds, tail, shown, again⟩
  · exact .inl unit
  · obtain ⟨numeral, closes, reads⟩ := again
    rw [shown]
    exact .inr (stands.tokenize_numeral numeral closes reads)

/-- An operand that is not finite is written as a word, which is a variable. -/
theorem Stands.tokenize_infinite {text : String} {z : Complex}
    (scanned : (b.tokenize text).1 = .ok [.symbol (.operand z)]) (infinite : z.isFinite = false) :
    ∃ name, (b.tokenize z.format).1 = .ok [.symbol (.variable name)] := by
  obtain ⟨c, cs, begins, reads⟩ := stands.literal scanned
  rcases format_infinite begins reads infinite with shown | shown
  · rw [shown]
    exact ⟨_, stands.tokenize_name (by decide) (by decide) rfl⟩
  · rw [shown]
    exact ⟨_, stands.tokenize_name (by decide) (by decide) rfl⟩

end Stands

end InfixCalc.Complex
