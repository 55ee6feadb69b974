import InfixCalc.Proofs.Decimal.Answers
import InfixCalc.Proofs.Decimal.Text
import InfixCalc.Proofs.Session

/-!
# Decimal literals

A finite decimal is read back from its plain text, by itself and by the scanner of every builder
over decimal numbers.
-/

namespace InfixCalc.Decimal

open InfixCalc.Number

variable {σ : Type} [RandomSource σ]

theorem read_of_builder {precision rounding cacheSize maxDepth : Setting}
    {first : Builder σ Decimal}
    (made : builder precision rounding cacheSize maxDepth = .ok first) :
    first.config.read = read := by
  obtain ⟨config, configured, made⟩ := bind_eq_ok_iff.mp made
  obtain ⟨_, reads, _⟩ := Config.standard_eq_ok configured
  obtain ⟨_, _, made⟩ := bind_eq_ok_iff.mp made
  obtain ⟨_, _, made⟩ := bind_eq_ok_iff.mp made
  obtain ⟨_, _, same⟩ := bind_eq_ok_iff.mp made
  cases same
  exact reads

/-- A builder over decimal numbers takes a plain text as one operand. -/
theorem tokenize_numeral {precision rounding cacheSize maxDepth : Setting}
    {first b : Builder σ Decimal}
    (made : builder precision rounding cacheSize maxDepth = .ok first) (used : first.Used b)
    {cs : List Char} (fixed : IsFixed cs) {y : Decimal} (reads : read (String.ofList cs) = some y) :
    (b.tokenize (String.ofList cs)).1 = .ok [.symbol (.operand y)] := by
  obtain ⟨ctx, pi, e, _, fresh, words, standard⟩ := builder_eq_ok made
  have reader := read_of_builder made
  obtain ⟨consistent, config, vocabulary⟩ := used.kept fresh
  rw [← config] at standard reader
  refine consistent.tokenize_numeral standard ?_ (.fixed fixed) ?_
  · rw [vocabulary, words]
    exact (wellSpelled_wordbook ctx pi e).leavesDigits_vocabulary
  · rw [reader, reads]

/-- A finite decimal that can be read at all, with any number of digits, any exponent and either
sign, is written without an exponent and without zeros at the end of a fraction. From this text an
equal number is read, with the same sign. Without a sign the text is one operand for every builder
over decimal numbers. -/
theorem plain_survives {coefficient : Nat} {exponent : Int}
    (readable : isReadable coefficient exponent = true) (negative : Bool) :
    IsPlain (finite negative coefficient exponent).plain.toList ∧
      ∃ y, read (finite negative coefficient exponent).plain = some y ∧
        y.value? = (finite negative coefficient exponent).value? ∧ y.isNegative = negative ∧
        (negative = false →
          ∀ (precision rounding cacheSize maxDepth : Setting) (first b : Builder σ Decimal),
            builder precision rounding cacheSize maxDepth = .ok first → first.Used b →
              (b.tokenize (finite negative coefficient exponent).plain).1 =
                .ok [.symbol (.operand y)]) := by
  obtain ⟨cs, y, shown, fixed, isPlain, reads, value, sign⟩ := exists_read_plain readable negative
  rw [shown, String.toList_ofList]
  refine ⟨isPlain, y, reads, value, sign, ?_⟩
  intro unsigned precision rounding cacheSize maxDepth first b made used
  subst unsigned
  exact tokenize_numeral made used fixed reads

/-- A half and one, with two zeros at the end. -/
theorem plain_survives_oneHalf :
    isReadable 1500 (-3) = true ∧ (finite false 1500 (-3)).plain = "1.5" ∧
      read "1.5" = some (finite false 15 (-1)) ∧
      (finite false 15 (-1)).value? = (finite false 1500 (-3)).value? ∧
      (seedBuilder.tokenize "1.5").1 = .ok [.symbol (.operand (finite false 15 (-1)))] := by
  have readable : isReadable 1500 (-3) = true := by decide +kernel
  have shown : (finite false 1500 (-3)).plain = "1.5" := by decide +kernel
  have known : read "1.5" = some (finite false 15 (-1)) := by decide +kernel
  obtain ⟨_, y, reads, value, _, scanned⟩ := plain_survives (σ := Seed) readable false
  rw [shown] at reads
  obtain rfl := Option.some.inj (known.symm.trans reads)
  have token := scanned rfl _ _ _ _ _ _ made_seedBuilder .new
  rw [shown] at token
  exact ⟨readable, shown, known, value, token⟩

end InfixCalc.Decimal
