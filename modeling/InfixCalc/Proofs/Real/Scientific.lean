import InfixCalc.Proofs.Binary64.Scientific
import InfixCalc.Proofs.Pattern.Scientific
import InfixCalc.Proofs.Real.RoundTrip
import InfixCalc.Proofs.Scan.Segment
import InfixCalc.Proofs.Session

/-!
# Literals in scientific notation

A number with an exponent is one literal if it begins with a digit. The pattern for such literals
wants one before the point: a number that begins with its point ends where the exponent begins, and
the exponent is taken for a name that the number is multiplied with.
-/

namespace InfixCalc

open InfixCalc.Number

variable {σ : Type}

/-- No label begins like a number. One that begins with a sign is the sign, and one that begins like
an exponent goes on with a letter. -/
structure Vocabulary.LeavesNumbers (v : Vocabulary σ Float) : Prop where
  numbers : ∀ label ∈ v.labels,
    label.toList.head?.any (fun c => CharSet.digit.contains c || c == '.') = false
  marks : ∀ label ∈ v.labels, label.toList.head?.any Pattern.markSet.contains = true →
    label.toList.tail.head?.any CharSet.letter.contains = true
  signs : ∀ label ∈ v.labels, label.toList.head?.any Pattern.signSet.contains = true →
    label.toList.tail = []

/-- A product can be implied where it can be written. -/
theorem Vocabulary.exists_marker_product {v : Vocabulary σ Float}
    (written : v.between.get? "*" ≠ none) : ∃ op, v.marker impliedProduct = .ok op := by
  obtain ⟨op, found⟩ := Option.ne_none_iff_exists'.mp written
  have notPlus : impliedProduct ≠ unaryPlus := by decide
  have notMinus : impliedProduct ≠ unaryMinus := by decide
  unfold marker
  simp only [if_neg notPlus, if_neg notMinus, if_true, found]
  exact ⟨_, rfl⟩

namespace Scanner

/-- A scanner for real numbers, with signs and products between operands. -/
structure ScansReals (scanner : Scanner σ Float) : Prop where
  ready : scanner.Ready
  read : scanner.config.read = Binary64.read
  leaves : scanner.vocabulary.LeavesNumbers
  product : ∃ op, scanner.vocabulary.marker impliedProduct = .ok op
  signs : ∀ sign : Char, sign = '+' ∨ sign = '-' →
    scanner.vocabulary.callable? (String.ofList [sign]) = none ∧
      ∃ op, scanner.vocabulary.between.get? (String.ofList [sign]) = some op


variable {scanner : Scanner σ Float} (scans : scanner.ScansReals)
include scans

/- Labels. -/

theorem ScansReals.labelAt?_number {c : Char} (begins : BeginsOperand c) (cs : List Char) :
    scanner.labelAt? (c :: cs) = none :=
  labelAt?_none scans.ready.labels scans.ready.regular (fun label member first => by
    have apart := scans.leaves.numbers label member
    rw [Option.mem_def.mp first, Option.any_some, Bool.or_eq_false_iff] at apart
    rcases begins with digit | rfl
    · exact Bool.noConfusion (apart.1.symm.trans digit)
    · cases apart.2) cs

theorem ScansReals.labelAt?_exponent {es : List Char} (exponent : IsExponent es) :
    scanner.labelAt? es = none := by
  obtain ⟨mark, next, rest, rfl, marked, noLetter⟩ := exponent.cons_cons
  refine labelAt?_eq_none scans.ready.labels fun label member => ?_
  have some_ := (isValidLabel_iff.mp (scans.ready.regular.isUsable member).2).1
  obtain ⟨c, more, chars⟩ := List.exists_cons_of_ne_nil some_
  rw [← Bool.not_eq_true, chars, List.isPrefixOf_iff_prefix]
  intro front
  obtain ⟨rfl, behind⟩ := List.cons_prefix_cons.mp front
  have goesOn := scans.leaves.marks label member
  rw [chars] at goesOn
  obtain ⟨d, first, letter⟩ := (Option.any_eq_true _ _).mp
    (goesOn (Pattern.contains_markSet.mpr marked))
  obtain ⟨later, rfl⟩ := List.head?_eq_some_iff.mp first
  obtain ⟨rfl, _⟩ := List.cons_prefix_cons.mp behind
  exact Bool.noConfusion (noLetter.symm.trans letter)

theorem ScansReals.labelAt?_sign {sign : Char} (signed : sign = '+' ∨ sign = '-')
    (rest : List Char) : scanner.labelAt? (sign :: rest) = some [sign] := by
  obtain ⟨_, op, found⟩ := scans.signs sign signed
  have registered : String.ofList [sign] ∈ scanner.vocabulary.labels :=
    Vocabulary.mem_labels_iff.mpr
      (.inr (.inr (.inr (.inr (Entries.mem_labels_iff.mpr ⟨op, found⟩)))))
  have here : [sign] ∈ scanner.labels := by
    rw [scans.ready.labels]
    have mapped := List.mem_map_of_mem (f := String.toList) registered
    rwa [String.toList_ofList] at mapped
  cases first : scanner.labelAt? (sign :: rest) with
  | none => exact absurd (by simp) (List.find?_eq_none.mp first [sign] here)
  | some label =>
    have longest := scans.ready.isLongest_of_labelAt? first
    have front := longest.front
    have some_ := (isValidLabel_iff.mp (scans.ready.regular.isUsable longest.registered).2).1
    have alone := scans.leaves.signs _ longest.registered
    rw [String.toList_ofList] at front some_ alone
    obtain ⟨c, more, rfl⟩ := List.exists_cons_of_ne_nil some_
    obtain ⟨rfl, _⟩ := List.cons_prefix_cons.mp front
    have tail : more = [] := alone (Pattern.contains_signSet.mpr signed)
    rw [tail]

/- Numbers. -/

/-- A number that begins with a digit is taken with its exponent. -/
theorem ScansReals.operandAt?_scientific {cs es : List Char} (mantissa : IsMantissa cs)
    (begins : ∀ c ∈ cs.head?, c ≠ '.') (exponent : IsExponent es) (behind : List Char) :
    scanner.operandAt? behind (cs ++ es) = some (cs ++ es, []) := by
  rw [scans.ready.operandAt?_eq, Pattern.split?_scientific mantissa begins exponent]
  rfl

/-- A number that begins with its point is taken without its exponent. -/
theorem ScansReals.operandAt?_point {fs es : List Char} (run : IsDigits fs)
    (exponent : IsExponent es) (behind : List Char) :
    scanner.operandAt? behind ('.' :: fs ++ es) = some ('.' :: fs, es) := by
  have mantissa : IsMantissa ('.' :: fs) := .point (List.forall_mem_nil _) run
  have stops : Pattern.NoDigit ('.' :: fs ++ es) := by
    rintro _ ⟨⟩
    rfl
  rw [scans.ready.operandAt?_eq, Pattern.split?_scientific_noDigit stops,
    Pattern.split?_number mantissa exponent]
  rfl

theorem ScansReals.operandAt?_digits {ds : List Char} (run : IsDigits ds) (behind : List Char) :
    scanner.operandAt? behind ds = some (ds, []) := by
  rw [scans.ready.operandAt?_eq, Pattern.split?_scientific_digits run,
    Pattern.split?_number_digits run]
  rfl

/- What is left of an exponent behind a name. -/

theorem ScansReals.leads_digits {ds : List Char} (run : IsDigits ds)
    {tokens before : List (Token σ Float)} {expectsSign : Bool}
    (joined : scanner.withProduct ⟨tokens, expectsSign, ds⟩ = .ok before) :
    ∃ value, scanner.Leads ⟨tokens, expectsSign, ds⟩
      ⟨.symbol (.operand value) :: before, false, []⟩ := by
  obtain ⟨value, reads⟩ := Binary64.exists_read (.whole run) (.inl rfl)
  rw [List.append_nil, ← scans.read] at reads
  have found := scans.operandAt?_digits run
  obtain ⟨c, rest, rfl, digit⟩ := run.cons
  exact ⟨value, leads_scanOperand (.inl digit) (scans.labelAt?_number (.inl digit) rest) found reads
    joined (Nat.zero_lt_succ _)⟩

theorem ScansReals.leads_sign {sign : Char} (signed : sign = '+' ∨ sign = '-')
    {tokens : List (Token σ Float)} (complete : Complete tokens) (rest : List Char) :
    ∃ op, op.fixity.isBetween = true ∧ scanner.Leads ⟨tokens, false, sign :: rest⟩
      ⟨.symbol (.operator op) :: tokens, true, rest⟩ := by
  obtain ⟨notCalled, op, found⟩ := scans.signs sign signed
  have between := (scans.ready.regular.between _ op found).2.2.2
  have noSeparator : Separator.ofChar? sign = none := by
    rcases signed with rfl | rfl <;> rfl
  have ended := operandEnded_of_complete ⟨tokens, false, sign :: rest⟩ complete
  obtain ⟨notBefore, notAfter⟩ := Fixity.isBetween_iff.mp between
  have scanned : scanner.scanLabel ⟨tokens, false, sign :: rest⟩ (String.ofList [sign]) rest =
      .ok ⟨.symbol (.operator op) :: tokens, true, rest⟩ := by
    have resolved : scanner.resolveOperator (String.ofList [sign]) true = .ok op := by
      unfold resolveOperator
      simp only [if_true, found]
      rfl
    unfold scanLabel
    rw [notCalled, ended, resolved]
    simp [bind, Except.bind, pure, Except.pure, notBefore, notAfter]
  refine ⟨op, between, leads_of_step (List.cons_ne_nil _ _) (fun position => ?_)
    (Nat.lt_succ_self _)⟩
  simp only [step, noSeparator, Bool.false_eq_true, if_false, scans.labelAt?_sign signed rest]
  exact scanned

theorem ScansReals.withProduct_complete (state : State σ Float) (complete : Complete state.tokens) :
    ∃ product, product.label = impliedProduct ∧
      scanner.withProduct state = .ok (.symbol (.operator product) :: state.tokens) := by
  obtain ⟨product, marked⟩ := scans.product
  refine ⟨product, Vocabulary.label_marker marked, ?_⟩
  unfold withProduct
  rw [operandEnded_of_complete state complete, marked]
  rfl

theorem ScansReals.leads_left {left : List Char} (isLeft : Pattern.IsLeft left)
    {tokens : List (Token σ Float)} (complete : Complete tokens) :
    ∃ later, scanner.Leads ⟨tokens, false, left⟩ ⟨later ++ tokens, false, []⟩ := by
  cases isLeft with
  | nothing => exact ⟨[], .refl _ _⟩
  | digits run =>
    obtain ⟨product, _, joined⟩ := scans.withProduct_complete ⟨tokens, false, left⟩ complete
    obtain ⟨value, leads⟩ := scans.leads_digits run joined
    exact ⟨[.symbol (.operand value), .symbol (.operator product)], leads⟩
  | @signed sign ds signed run =>
    obtain ⟨op, between, first⟩ := scans.leads_sign signed complete ds
    have fresh := fresh_operator (Fixity.isBetween_iff.mp between).2 tokens
    obtain ⟨value, later⟩ := scans.leads_digits run (withProduct_fresh scanner ⟨_, true, ds⟩ fresh)
    exact ⟨[.symbol (.operand value), .symbol (.operator op)], first.trans later⟩

/- Numbers with an exponent. -/

theorem ScansReals.scan_scientific {cs es : List Char} (mantissa : IsMantissa cs)
    (begins : ∀ c ∈ cs.head?, c ≠ '.') (exponent : IsExponent es) {value : Float}
    (reads : Binary64.read (String.ofList (cs ++ es)) = some value) :
    scanner.scan (String.ofList (cs ++ es)) = .ok [.symbol (.operand value)] := by
  have found := scans.operandAt?_scientific mantissa begins exponent
  have first := mantissa.digit_or_point
  obtain ⟨c, rest, rfl⟩ := List.exists_cons_of_ne_nil mantissa.ne_nil
  rw [← scans.read] at reads
  rw [List.cons_append] at found reads ⊢
  have begins := first c List.mem_cons_self
  exact scan_operand begins (scans.labelAt?_number begins (rest ++ es)) found reads

theorem ScansReals.scan_point {fs es : List Char} (run : IsDigits fs) (exponent : IsExponent es)
    {value : Float} (reads : Binary64.read (String.ofList ('.' :: fs)) = some value) :
    ∃ product name rest, product.label = impliedProduct ∧ name.toList.head? = es.head? ∧
      scanner.scan (String.ofList ('.' :: fs ++ es)) =
        .ok (.symbol (.operand value) :: .symbol (.operator product) ::
          .symbol (.variable name) :: rest) := by
  rw [← scans.read] at reads
  obtain ⟨taken, left, split, heads, shorter, isLeft⟩ := Pattern.split?_name_exponent exponent
  have first : scanner.Leads ⟨[], true, '.' :: fs ++ es⟩ ⟨[.symbol (.operand value)], false, es⟩ :=
    leads_scanOperand (.inr rfl) (scans.labelAt?_number (.inr rfl) (fs ++ es))
      (scans.operandAt?_point run exponent) reads (withProduct_fresh scanner _ fresh_nil)
      (by simp)
  obtain ⟨product, label, joined⟩ := scans.withProduct_complete
    ⟨[.symbol (.operand value)], false, es⟩ (complete_cons.mpr rfl)
  have second : scanner.Leads ⟨[.symbol (.operand value)], false, es⟩
      ⟨[.symbol (.variable (String.ofList taken)), .symbol (.operator product),
        .symbol (.operand value)], false, left⟩ := by
    have noLabel := scans.labelAt?_exponent exponent
    obtain ⟨mark, rest, rfl, marked⟩ := exponent.cons
    have letter := Pattern.letter_of_mark marked
    have noOperand := scans.ready.takesNumbers.operandAt?_none (not_isDigit_of_letter letter)
      (Pattern.noPoint_of_isExponent exponent mark rfl) rest
    exact leads_scanVariable letter noLabel noOperand
      (fun _ => (scans.ready.nameAt?_eq _ _).trans split) joined shorter
  have complete : Complete [.symbol (.variable (String.ofList taken)),
      .symbol (.operator product), (.symbol (.operand value) : Token σ Float)] :=
    complete_cons.mpr rfl
  obtain ⟨later, third⟩ := scans.leads_left isLeft complete
  refine ⟨product, String.ofList taken, later.reverse, label, by rwa [String.toList_ofList], ?_⟩
  have scanned := (first.trans (second.trans third)) ('.' :: fs ++ es)
  rw [scanAll_nil] at scanned
  unfold scan
  simp only [String.toList_ofList]
  rw [if_neg (by simp [Text.isBlank]), scanned]
  simp

end Scanner

namespace Real

variable [RandomSource σ]

theorem leavesNumbers_wordbook : (wordbook : Wordbook σ Float).vocabulary.LeavesNumbers := by
  have numbers : ∀ label ∈ operatorSpellings.map (·.1) ++ callSpellings,
      label.toList.head?.any (fun c => CharSet.digit.contains c || c == '.') = false := by
    decide
  have marks : ∀ label ∈ operatorSpellings.map (·.1) ++ callSpellings,
      label.toList.head?.any Pattern.markSet.contains = true →
        label.toList.tail.head?.any CharSet.letter.contains = true := by
    decide
  have signs : ∀ label ∈ operatorSpellings.map (·.1) ++ callSpellings,
      label.toList.head?.any Pattern.signSet.contains = true → label.toList.tail = [] := by
    decide
  exact ⟨fun label member => numbers label (Wordbook.WellSpelled.mem_labels member),
    fun label member => marks label (Wordbook.WellSpelled.mem_labels member),
    fun label member => signs label (Wordbook.WellSpelled.mem_labels member)⟩

theorem scansReals_wordbook {scanner : Scanner σ Float} (ready : scanner.Ready)
    (read : scanner.config.read = Binary64.read)
    (words : scanner.vocabulary = wordbook.vocabulary) : scanner.ScansReals where
  ready := ready
  read := read
  leaves := words ▸ leavesNumbers_wordbook
  product := by
    rw [words]
    have member : ("*", Fixity.left, precedences.multiplicative) ∈
        (wordbook : Wordbook σ Float).spellings := by
      rw [spellings_wordbook]
      decide
    have written := Wordbook.between_vocabulary member rfl
    exact Vocabulary.exists_marker_product written
  signs := by
    rw [words]
    intro sign signed
    have member : (String.ofList [sign], Fixity.left, precedences.additive) ∈
        (wordbook : Wordbook σ Float).spellings := by
      rw [spellings_wordbook]
      rcases signed with rfl | rfl
      · decide
      · decide
    have uncalled : String.ofList [sign] ∉ (wordbook : Wordbook σ Float).calls := by
      rw [calls_wordbook]
      rcases signed with rfl | rfl
      · decide
      · decide
    have written := Wordbook.between_vocabulary member rfl
    refine ⟨?_, Option.ne_none_iff_exists'.mp written⟩
    rw [← Option.not_isSome_iff_eq_none, Option.isSome_iff_exists]
    rintro ⟨callable, called⟩
    exact uncalled (Wordbook.WellSpelled.mem_calls called)

/-- A number with an exponent is read as a whole. If it begins with a digit, it is one literal with
this value. If it begins with its point, it is the literal without the exponent, multiplied with a
name that begins with the mark of the exponent. -/
theorem tokenize_scientific {cacheSize maxDepth : Setting} {first b : Builder σ Float}
    (made : builder cacheSize maxDepth = .ok first) (used : first.Used b)
    {mantissa exponent : List Char} (number : Pattern.number.MatchesWhole mantissa)
    (power : Pattern.exponent.MatchesWhole exponent) :
    ∃ value, Binary64.read (String.ofList (mantissa ++ exponent)) = some value ∧
      (mantissa.head? ≠ some '.' →
        (b.tokenize (String.ofList (mantissa ++ exponent))).1 = .ok [.symbol (.operand value)]) ∧
      (mantissa.head? = some '.' → ∃ fraction product name rest,
        Binary64.read (String.ofList mantissa) = some fraction ∧ product.label = impliedProduct ∧
        name.toList.head? = exponent.head? ∧
        (b.tokenize (String.ofList (mantissa ++ exponent))).1 =
          .ok (.symbol (.operand fraction) :: .symbol (.operator product) ::
            .symbol (.variable name) :: rest)) := by
  have isMantissa := Pattern.matchesWhole_number.mp number
  have isExponent := Pattern.matchesWhole_exponent.mp power
  obtain ⟨consistent, words, standard, read, _⟩ := builder_eq_ok made
  obtain ⟨kept, config, vocabulary⟩ := used.kept consistent
  have scans : (Scanner.make b.vocabulary b.config).ScansReals :=
    scansReals_wordbook ⟨config ▸ standard, rfl, kept.regular⟩ (config ▸ read)
      (vocabulary.trans words)
  obtain ⟨value, reads⟩ := Binary64.exists_read isMantissa (.inr isExponent)
  rw [kept.tokenize_eq]
  refine ⟨value, reads, fun begins => ?_, fun begins => ?_⟩
  · exact scans.scan_scientific isMantissa (fun c first same => begins (same ▸ first)) isExponent
      reads
  · obtain ⟨fs, rfl, run⟩ := isMantissa.of_point begins
    obtain ⟨fraction, readsFirst⟩ := Binary64.exists_read isMantissa (.inl rfl)
    rw [List.append_nil] at readsFirst
    obtain ⟨product, name, rest, label, heads, scanned⟩ :=
      scans.scan_point run isExponent readsFirst
    exact ⟨fraction, product, name, rest, readsFirst, label, heads, scanned⟩

/-- `1.5e3` is one literal, and `.5e3` is not. -/
theorem tokenize_scientific_half :
    (∃ value, Binary64.read "1.5e3" = some value ∧
      (seedBuilder.tokenize "1.5e3").1 = .ok [.symbol (.operand value)]) ∧
    ∃ fraction product name rest, Binary64.read ".5" = some fraction ∧
      product.label = impliedProduct ∧ name.toList.head? = some 'e' ∧
      (seedBuilder.tokenize ".5e3").1 = .ok (.symbol (.operand fraction) ::
        .symbol (.operator product) :: .symbol (.variable name) :: rest) := by
  have power : Pattern.exponent.MatchesWhole ['e', '3'] := by decide
  have whole : Pattern.number.MatchesWhole ['1', '.', '5'] := by decide
  have part : Pattern.number.MatchesWhole ['.', '5'] := by decide
  obtain ⟨value, reads, one, _⟩ := tokenize_scientific made_seedBuilder .new whole power
  obtain ⟨_, _, _, several⟩ := tokenize_scientific made_seedBuilder .new part power
  exact ⟨⟨value, reads, one (by decide)⟩, several rfl⟩

end Real
end InfixCalc
