import InfixCalc.Proofs.Complex.RoundTrip

/-!
# Literals that survive printing

A finite number that a builder over real or complex numbers reads from a text is printed so that
the same builder reads it again. Only the imaginary unit comes back as its name. A number that is
too large for a double is printed as a word, and comes back as a variable.
-/

namespace InfixCalc

open InfixCalc.Number

variable {σ α : Type}

/-- The value is printed as a text that is scanned as this one operand. -/
def Builder.ReadsBack (b : Builder σ α) (value : α) : Prop :=
  ∃ text, b.config.print value = .ok text ∧
    (b.tokenize text).1 = .ok [.symbol (.operand value)]

theorem Builder.not_readsBack {b : Builder σ α} {value : α} {text name : String}
    (prints : b.config.print value = .ok text)
    (named : (b.tokenize text).1 = .ok [.symbol (.variable name)]) : ¬ b.ReadsBack value := by
  rintro ⟨other, printsToo, scanned⟩
  cases prints.symm.trans printsToo
  cases named.symm.trans scanned

namespace Real

variable [RandomSource σ]

/-- What is too large for a double is printed as a word, which is a variable. -/
theorem tokenize_inf {b : Builder σ Float} (consistent : b.Consistent)
    (standard : b.config.IsStandard) (words : b.vocabulary = wordbook.vocabulary) :
    (b.tokenize "inf").1 = .ok [.symbol (.variable "inf")] := by
  have apart : ∀ label ∈ operatorSpellings.map (·.1) ++ callSpellings,
      label.toList.isPrefixOf ['i', 'n', 'f'] = false := by decide
  have ready : (Scanner.make b.vocabulary b.config).Ready := ⟨standard, rfl, consistent.regular⟩
  have labels : ∀ label ∈ b.vocabulary.labels,
      label.toList.isPrefixOf ['i', 'n', 'f'] = false := by
    rw [words]
    exact fun label member => apart label (Wordbook.WellSpelled.mem_labels member)
  rw [consistent.tokenize_eq]
  exact ready.takesNumbers.scan_name standard.names rfl (by decide) labels rfl

/-- An operand is read back exactly if it is finite. -/
theorem readsBack_iff {cacheSize maxDepth : Setting} {first b : Builder σ Float}
    (made : builder cacheSize maxDepth = .ok first) (used : first.Used b) {text : String}
    {x : Float} (scanned : (b.tokenize text).1 = .ok [.symbol (.operand x)]) :
    b.ReadsBack x ↔ x.isFinite = true := by
  obtain ⟨fresh, words, standard, reader, printer, _⟩ := builder_eq_ok made
  obtain ⟨consistent, config, vocabulary⟩ := used.kept fresh
  rw [← config] at standard reader printer
  rw [← vocabulary] at words
  have prints : b.config.print x = .ok (format x) := by rw [printer]
  have ready : (Scanner.make b.vocabulary b.config).Ready := ⟨standard, rfl, consistent.regular⟩
  rw [consistent.tokenize_eq] at scanned
  have literal := ready.takesNumbers.literal_of_scan scanned List.mem_cons_self
  unfold Scanner.Literal Scanner.make at literal
  rw [reader] at literal
  obtain ⟨c, cs, begins, taken⟩ := literal
  cases finite : x.isFinite with
  | true =>
    obtain ⟨significand, exponent, decoded⟩ := Binary64.exists_decode_of_read begins taken finite
    obtain ⟨ds, shown, numeral, again⟩ := Binary64.exists_format_reads decoded
    have leaves : b.vocabulary.LeavesDigits := by
      rw [words]
      exact wellSpelled_wordbook.leavesDigits_vocabulary
    rw [← reader] at again
    refine iff_of_true ⟨format x, prints, ?_⟩ rfl
    rw [shown]
    exact consistent.tokenize_numeral standard leaves numeral again
  | false =>
    obtain ⟨digits, exponent, rfl⟩ := Binary64.exists_ofDecimal_of_read begins taken
    have word : format (Binary64.signed false Binary64.infinityWord) = "inf" := by decide +kernel
    rw [Binary64.ofDecimal_eq_infinity finite] at prints ⊢
    rw [word] at prints
    exact iff_of_false (Builder.not_readsBack prints (tokenize_inf consistent standard words))
      Bool.false_ne_true

end Real

namespace Complex

variable [RandomSource σ]

/-- An operand is read back exactly if it is finite and not the imaginary unit. -/
theorem Stands.readsBack_iff {b : Builder σ Complex} (stands : Stands b) {text : String}
    {z : Complex} (scanned : (b.tokenize text).1 = .ok [.symbol (.operand z)]) :
    b.ReadsBack z ↔ z.isFinite = true ∧ z ≠ i := by
  have prints : b.config.print z = .ok z.format := by rw [stands.print]
  constructor
  · intro readsBack
    constructor
    · by_contra infinite
      obtain ⟨name, named⟩ := stands.tokenize_infinite scanned (Bool.not_eq_true _ ▸ infinite)
      exact Builder.not_readsBack prints named readsBack
    · rintro rfl
      rw [format_i] at prints
      exact Builder.not_readsBack prints stands.tokenize_i.1 readsBack
  · rintro ⟨finite, other⟩
    exact ⟨z.format, prints, (stands.tokenize_format scanned finite).resolve_left other⟩

end Complex

/-- Where a builder over real or complex numbers takes a text for exactly one operand, and this
operand is finite, it prints the operand as a text that it takes for exactly one equal operand. The
one exception is the imaginary unit. It is printed as `i`, which is a variable with the name of the
constant that has its value. -/
theorem literals_survive [RandomSource σ] (cacheSize maxDepth : Setting) (text : String) :
    (∀ (first b : Builder σ Float) (x : Float),
      Real.builder cacheSize maxDepth = .ok first → first.Used b →
        (b.tokenize text).1 = .ok [.symbol (.operand x)] → x.isFinite = true → b.ReadsBack x) ∧
    ∀ (first b : Builder σ Complex) (z : Complex),
      Complex.builder cacheSize maxDepth = .ok first → first.Used b →
        (b.tokenize text).1 = .ok [.symbol (.operand z)] → z.isFinite = true →
          (z ≠ Complex.i → b.ReadsBack z) ∧
          (z = Complex.i → b.config.print z = .ok "i" ∧
            (b.tokenize "i").1 = .ok [.symbol (.variable "i")] ∧
            b.vocabulary.constants.get? "i" = some z) := by
  constructor
  · intro first b x made used scanned finite
    exact (Real.readsBack_iff made used scanned).mpr finite
  · intro first b z made used scanned finite
    have stands := (Complex.stands_of_builder made).used used
    constructor
    · exact fun other => (stands.readsBack_iff scanned).mpr ⟨finite, other⟩
    · rintro rfl
      refine ⟨?_, stands.tokenize_i⟩
      rw [stands.print]
      exact congrArg Except.ok Complex.format_i

/- Fixed literals. -/

theorem tokenize_two :
    (Real.seedBuilder.tokenize "2").1 = .ok [.symbol (.operand Real.two)] := by
  obtain ⟨consistent, _, standard, _⟩ := Real.builder_eq_ok Real.made_seedBuilder
  have numeral : IsNumeral ['2'] := .fixed (.whole (isRun_singleton rfl))
  exact consistent.tokenize_numeral standard Real.wellSpelled_wordbook.leavesDigits_vocabulary
    numeral rfl

theorem tokenize_twoUnits :
    (Complex.seedBuilder.tokenize "2i").1 = .ok [.symbol (.operand ⟨0, Real.two⟩)] := by
  have stands := Complex.stands_of_builder Complex.made_seedBuilder
  have numeral : IsNumeral ['2'] := .fixed (.whole (isRun_singleton rfl))
  exact stands.tokenize_numeral numeral Complex.closes_i rfl

theorem tokenize_unit :
    (Complex.seedBuilder.tokenize "1i").1 = .ok [.symbol (.operand Complex.i)] := by
  have stands := Complex.stands_of_builder Complex.made_seedBuilder
  have numeral : IsNumeral ['1'] := .fixed (.whole (isRun_singleton rfl))
  exact stands.tokenize_numeral numeral Complex.closes_i rfl

/-- Two and two units come back; one unit is printed as its name. -/
theorem literals_survive_two :
    ((Real.seedBuilder.tokenize "2").1 = .ok [.symbol (.operand Real.two)] ∧
      Real.seedBuilder.ReadsBack Real.two) ∧
    ((Complex.seedBuilder.tokenize "2i").1 = .ok [.symbol (.operand ⟨0, Real.two⟩)] ∧
      Complex.seedBuilder.ReadsBack ⟨0, Real.two⟩) ∧
    (Complex.seedBuilder.tokenize "1i").1 = .ok [.symbol (.operand Complex.i)] ∧
      Complex.seedBuilder.config.print Complex.i = .ok "i" := by
  have other : (⟨0, Real.two⟩ : Complex) ≠ Complex.i := by
    intro same
    have parts : Real.two = 1 := congrArg Complex.im same
    exact absurd parts (by decide +kernel)
  refine ⟨⟨tokenize_two, ?_⟩, ⟨tokenize_twoUnits, ?_⟩, tokenize_unit, ?_⟩
  · exact (literals_survive _ _ _).1 _ _ _ Real.made_seedBuilder .new tokenize_two
      (by decide +kernel)
  · have survives := (literals_survive _ _ _).2 _ _ _ Complex.made_seedBuilder .new
      tokenize_twoUnits (by decide +kernel)
    exact survives.1 other
  · have survives := (literals_survive _ _ _).2 _ _ _ Complex.made_seedBuilder .new tokenize_unit
      (by decide +kernel)
    exact (survives.2 rfl).1

theorem tokenize_tooLarge :
    (Real.seedBuilder.tokenize "1e999").1 = .ok [.symbol (.operand Binary64.infinity)] := by
  obtain ⟨consistent, _⟩ := Real.builder_eq_ok Real.made_seedBuilder
  have apart : ∀ label ∈ Real.operatorSpellings.map (·.1) ++ Real.callSpellings,
      label.toList.isPrefixOf ['1', 'e', '9', '9', '9'] = false := by decide
  have noLabel : (Scanner.make Real.seedBuilder.vocabulary Real.seedBuilder.config).labelAt?
      ['1', 'e', '9', '9', '9'] = none :=
    Scanner.labelAt?_eq_none rfl fun label member =>
      apart label (Wordbook.WellSpelled.mem_labels member)
  have reads : Binary64.read "1e999" = some Binary64.infinity := by decide +kernel
  rw [consistent.tokenize_eq]
  exact Scanner.scan_operand (.inl (by decide)) noLabel (fun _ => rfl) reads

/-- The imaginary unit and a number that is too large are operands, and they are printed as texts
that are variables. -/
theorem literals_lost :
    ((Complex.seedBuilder.tokenize "1i").1 = .ok [.symbol (.operand Complex.i)] ∧
      ¬ Complex.seedBuilder.ReadsBack Complex.i) ∧
    ((Real.seedBuilder.tokenize "1e999").1 = .ok [.symbol (.operand Binary64.infinity)] ∧
      ¬ Real.seedBuilder.ReadsBack Binary64.infinity) := by
  have unit := (Complex.stands_of_builder Complex.made_seedBuilder).readsBack_iff tokenize_unit
  have large := Real.readsBack_iff Real.made_seedBuilder .new tokenize_tooLarge
  constructor
  · exact ⟨tokenize_unit, mt unit.mp fun both => both.2 rfl⟩
  · exact ⟨tokenize_tooLarge, mt large.mp (by decide +kernel)⟩

end InfixCalc
