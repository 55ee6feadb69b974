import InfixCalc.Proofs.Binary64.Text
import InfixCalc.Proofs.Builder
import InfixCalc.Proofs.Real.Vocabulary

/-!
# Building real expressions again

An expression over real numbers is built again from its written form. Its literals are doubles,
which are written with the shortest digits that read back.
-/

namespace InfixCalc.Real

open InfixCalc.Number

variable {σ : Type}

/-- A finite literal that is read back from its digits is read back from its written form. -/
theorem readable_literal {scanner : Scanner σ Float} (ready : scanner.Ready)
    (reads : scanner.config.read = Binary64.read)
    (prints : scanner.config.print = fun x => .ok (format x))
    (leaves : scanner.vocabulary.LeavesDigits) {x : Float} (literal : scanner.Literal x)
    (finite : x.isFinite = true) (readsBack : Binary64.read (Binary64.text x) = some x) :
    scanner.Readable x := by
  obtain ⟨c, cs, begins, taken⟩ := literal
  rw [reads] at taken
  obtain ⟨significand, exponent, decoded⟩ := Binary64.exists_decode_of_read begins taken finite
  obtain ⟨digits, shown, numeral, again⟩ := Binary64.exists_format decoded readsBack
  refine ready.readable_numeral leaves numeral ?_ ?_
  · rw [prints]
    exact congrArg Except.ok shown
  · rw [reads]
    exact again

variable [RandomSource σ]

theorem builder_eq_ok {cacheSize maxDepth : Setting} {first : Builder σ Float}
    (made : builder cacheSize maxDepth = .ok first) :
    first.Consistent ∧ first.vocabulary = wordbook.vocabulary ∧ first.config.IsStandard ∧
      first.config.read = Binary64.read ∧ (first.config.print = fun x => .ok (format x)) ∧
        first.config.display = fun x => .ok (Shown.text x) := by
  obtain ⟨config, configured, made⟩ := bind_eq_ok_iff.mp made
  obtain ⟨standard, read, print, display, _⟩ := Config.standard_eq_ok configured
  have consistent := Builder.consistent_make wellSpelled_wordbook.regular made
  obtain ⟨cache, _, same⟩ := bind_eq_ok_iff.mp made
  cases same
  exact ⟨consistent, rfl, standard, read, print, display⟩

/-- An expression with finite literals is built again from its written form within the same depth,
with its implied products written out. Both are written the same, have the same variables and the
same values under all bindings. -/
theorem rebuild_written {cacheSize maxDepth : Setting} {first b : Builder σ Float}
    (made : builder cacheSize maxDepth = .ok first) (used : first.Used b) {source : String}
    {e : Expression σ Float} (built : (b.build source).1 = .ok e)
    (finite : ∀ x, .operand x ∈ e.root.postorder → x.isFinite = true)
    (readsBack : ∀ x, .operand x ∈ e.root.postorder →
      Binary64.read (Binary64.text x) = some x) :
    ∃ text again, e.written = .ok text ∧ ((b.build source).2.build text).1 = .ok again ∧
      again.root = e.root.explicit ∧ again.written = e.written ∧
      again.variableLabels = e.variableLabels ∧
      ∀ bindings, again.evaluate bindings = e.evaluate bindings := by
  obtain ⟨fresh, words, standard, read, print, _⟩ := builder_eq_ok made
  obtain ⟨consistent, config, vocabulary⟩ := used.kept fresh
  rw [← config] at standard read print
  rw [← vocabulary] at words
  have ready : (Scanner.make b.vocabulary b.config).Ready := ⟨standard, rfl, consistent.regular⟩
  have faithful : b.vocabulary.Faithful := words ▸ wellSpelled_wordbook.faithful
  have spoken := (ready.spoken_root ((consistent.build source).sound e built).root).1
  refine consistent.rebuild standard faithful built fun x member => ?_
  exact readable_literal ready read print faithful.leavesDigits (spoken.literal member)
    (finite x member) (readsBack x member)

/- A product of a literal and a variable. -/

def two : Float := Binary64.ofDecimal false 2 0

theorem format_two : format two = "2" := by decide +kernel

theorem read_text_two : Binary64.read (Binary64.text two) = some two := by
  have shown : Binary64.text two = "2.0" := by decide +kernel
  rw [shown]
  rfl

def seedBuilder : Builder Seed Float where
  config := ⟨Binary64.read, fun x => .ok (format x), fun x => .ok (Shown.text x),
    [⟨"\\d+(?:\\.\\d+)?[eE][-+]?\\d+", Pattern.scientific.matcher⟩,
      ⟨"\\d*\\.?\\d+", Pattern.number.matcher⟩],
    ⟨defaultVariablePattern, Pattern.name.matcher⟩, some 128⟩
  vocabulary := wordbook.vocabulary
  cache := none
  cacheVersion := (wordbook : Wordbook Seed Float).vocabulary.version
  labels := none
  nextStamp := 0

theorem made_seedBuilder :
    (builder .absent (.whole 128) : Except Failure (Builder Seed Float)) = .ok seedBuilder := rfl

def product : Operator Seed Float :=
  ⟨"*", .left, precedences.multiplicative,
    (Meaning.binary fun x y => .ok (x * y)).callback "*", none⟩

def doubled : Phrase Seed Float := .between (.operand two) product (.name "x")

theorem sound_doubled : doubled.Sound := by
  refine ⟨.between rfl (.operand _) (.name _), .between ?_ ?_ (.operand _) (.name _)⟩
  · simp [Phrase.rightEdge]
  · simp [Phrase.leftEdge]

theorem ready_seedBuilder : (Scanner.make seedBuilder.vocabulary seedBuilder.config).Ready := by
  obtain ⟨consistent, _, standard, _⟩ := builder_eq_ok made_seedBuilder
  exact ⟨standard, rfl, consistent.regular⟩

theorem yields_x :
    (Scanner.make seedBuilder.vocabulary seedBuilder.config).Yields "x" (.name "x") := by
  have apart : ∀ label ∈ operatorSpellings.map (·.1) ++ callSpellings,
      label.toList.isPrefixOf ['x'] = false := by decide
  exact ready_seedBuilder.yields_name
    (fun label member => apart label (Wordbook.WellSpelled.mem_labels member)) rfl

theorem yields_doubled :
    (Scanner.make seedBuilder.vocabulary seedBuilder.config).Yields "2 * x" doubled := by
  have numeral : IsNumeral ['2'] := .fixed (.whole (isRun_singleton rfl))
  have left : (Scanner.make seedBuilder.vocabulary seedBuilder.config).Yields "2"
      (.operand two) := by
    obtain ⟨text, printed, scanned⟩ := ready_seedBuilder.readable_numeral
      wellSpelled_wordbook.leavesDigits_vocabulary numeral (congrArg Except.ok format_two) rfl
    cases printed
    rw [format_two] at scanned
    exact ready_seedBuilder.yields_operand scanned
  have notCalled : (wordbook : Wordbook Seed Float).vocabulary.callable? "*" = none := rfl
  have found : (wordbook : Wordbook Seed Float).vocabulary.between.get? "*" = some product := rfl
  have joined : "2" ++ " " ++ "*" ++ " " ++ "x" = "2 * x" := by decide +kernel
  exact joined ▸ ready_seedBuilder.yields_between notCalled found (.operand two) left yields_x

theorem exists_build_doubled :
    ∃ e, (seedBuilder.build "2 * x").1 = .ok e ∧ e.root = doubled.tree := by
  obtain ⟨consistent, _, standard, _⟩ := builder_eq_ok made_seedBuilder
  exact consistent.exists_build standard sound_doubled yields_doubled
    ((within_some _ _).mpr (by decide)) ((within_some _ _).mpr (by decide))
    (fun _ _ => ⟨_, rfl⟩) ⟨_, rfl⟩

/-- The product is built, and built again from its written form. -/
theorem rebuild_written_doubled :
    ∃ e text again, (seedBuilder.build "2 * x").1 = .ok e ∧ e.written = .ok text ∧
      ((seedBuilder.build "2 * x").2.build text).1 = .ok again ∧
      again.root = e.root.explicit ∧ again.written = e.written ∧
      again.variableLabels = e.variableLabels ∧
      ∀ bindings, again.evaluate bindings = e.evaluate bindings := by
  obtain ⟨e, built, root⟩ := exists_build_doubled
  have literal (x : Float) (member : .operand x ∈ e.root.postorder) : x = two := by
    simpa [root, doubled, Phrase.tree, Tree.postorder, Tree.postorderAll] using member
  obtain ⟨text, again, rebuilt⟩ := rebuild_written made_seedBuilder .new built
    (fun x member => literal x member ▸ (by decide +kernel : two.isFinite = true))
    (fun x member => literal x member ▸ read_text_two)
  exact ⟨e, text, again, built, rebuilt⟩

end InfixCalc.Real
