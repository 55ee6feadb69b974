import InfixCalc.Proofs.Pattern.Numeral
import InfixCalc.Proofs.Printed.Rescan

/-!
# Literals and names

A value that is printed as a numeral is read again, if no label begins with a digit. A name that
begins with no label is read as a variable.
-/

namespace InfixCalc

variable {σ α : Type}

/-- No label begins with a digit. -/
def Vocabulary.LeavesDigits (v : Vocabulary σ α) : Prop :=
  ∀ label ∈ v.labels, ∀ c ∈ label.toList.head?, c.isDigit = false

namespace Scanner

variable {scanner : Scanner σ α}

theorem labelAt?_eq_none (labels : scanner.labels = labelChars scanner.vocabulary)
    {text : List Char}
    (apart : ∀ label ∈ scanner.vocabulary.labels, label.toList.isPrefixOf text = false) :
    scanner.labelAt? text = none := by
  refine List.find?_eq_none.mpr fun chars member => ?_
  rw [labels] at member
  obtain ⟨label, among, rfl⟩ := List.mem_map.mp member
  exact (Bool.not_eq_true _).mpr (apart label among)

theorem labelAt?_none (labels : scanner.labels = labelChars scanner.vocabulary)
    (regular : scanner.vocabulary.Regular) {c : Char}
    (apart : ∀ label ∈ scanner.vocabulary.labels, c ∉ label.toList.head?) (cs : List Char) :
    scanner.labelAt? (c :: cs) = none := by
  refine labelAt?_eq_none labels fun label among => ?_
  have notEmpty := (isValidLabel_iff.mp (regular.isUsable among).2).1
  have first := apart label among
  cases chars : label.toList with
  | nil => exact absurd chars notEmpty
  | cons d ds =>
    rw [chars] at first
    have other : d ≠ c := fun same => first (congrArg some same)
    simp [List.isPrefixOf, other]

theorem scan_of_leads {c : Char} {cs : List Char} {token : Token σ α}
    (inWord : breaksWord c = false)
    (leads : scanner.Leads ⟨[], true, c :: cs⟩ ⟨[token], false, []⟩) :
    scanner.scan (String.ofList (c :: cs)) = .ok [token] := by
  have noBlank : Text.isBlank c = false := by
    rw [← Bool.not_eq_true]
    intro blank
    exact Bool.noConfusion (inWord.symm.trans (breaksWord_iff.mpr (.inl blank)))
  have scanned := leads (c :: cs)
  rw [scanAll_nil] at scanned
  unfold scan
  simp only [String.toList_ofList, List.all_cons, noBlank, Bool.false_and]
  exact scanned

/-- A text that is taken as a whole for an operand is one. -/
theorem scan_operand {c : Char} {cs : List Char} {value : α} (begins : BeginsOperand c)
    (noLabel : scanner.labelAt? (c :: cs) = none)
    (found : ∀ behind, scanner.operandAt? behind (c :: cs) = some (c :: cs, []))
    (reads : scanner.config.read (String.ofList (c :: cs)) = some value) :
    scanner.scan (String.ofList (c :: cs)) = .ok [.symbol (.operand value)] := by
  exact scan_of_leads begins.inWord (leads_scanOperand begins noLabel found reads
    (withProduct_fresh scanner _ fresh_nil) (Nat.zero_lt_succ _))

/-- A text that is taken as a whole for a variable, and for nothing else, is one. -/
theorem scan_name {c : Char} {cs : List Char} (letter : CharSet.letter.contains c = true)
    (noLabel : scanner.labelAt? (c :: cs) = none)
    (noOperand : ∀ behind, scanner.operandAt? behind (c :: cs) = none)
    (found : ∀ behind,
      scanner.config.variablePattern.matcher.split? behind (c :: cs) = some (c :: cs, [])) :
    scanner.scan (String.ofList (c :: cs)) =
      .ok [.symbol (.variable (String.ofList (c :: cs)))] := by
  exact scan_of_leads (inWord_of_letter letter) (leads_scanVariable letter noLabel noOperand found
    (withProduct_fresh scanner _ fresh_nil) (Nat.zero_lt_succ _))

/-- A text that begins with no label and is a name as a whole is a variable. -/
theorem TakesNumbers.scan_name {last : Pattern} (numbers : scanner.TakesNumbers last)
    (names : scanner.config.variablePattern.matcher = Pattern.name.matcher)
    (labels : scanner.labels = labelChars scanner.vocabulary) {c : Char} {cs : List Char}
    (letter : CharSet.letter.contains c = true)
    (apart : ∀ label ∈ scanner.vocabulary.labels, label.toList.isPrefixOf (c :: cs) = false)
    (whole : Pattern.name.split? (c :: cs) = some (c :: cs, [])) :
    scanner.scan (String.ofList (c :: cs)) =
      .ok [.symbol (.variable (String.ofList (c :: cs)))] := by
  have noPoint : c ≠ '.' := by
    rintro rfl
    cases letter
  have noOperand := numbers.operandAt?_none (not_isDigit_of_letter letter) noPoint cs
  refine Scanner.scan_name letter (labelAt?_eq_none labels apart) noOperand fun _ => ?_
  rw [names]
  exact whole

/-- A numeral is an operand as a whole, with what may stand behind it. -/
theorem TakesNumbers.operandAt?_numeral {last : Pattern} (numbers : scanner.TakesNumbers last)
    {cs tail : List Char} (numeral : IsNumeral cs) (closes : last.Closes tail)
    (behind : List Char) : scanner.operandAt? behind (cs ++ tail) = some (cs ++ tail, []) := by
  obtain ⟨noDigit, noPoint, noLetter, ends⟩ := closes
  have whole {p : Pattern} (found : p.remainder? (cs ++ tail) = some []) :
      p.split? (cs ++ tail) = some (cs ++ tail, []) := by
    simp [Pattern.split?, found]
  rw [numbers.operandAt?_eq]
  cases numeral with
  | fixed fixed =>
    have noExponent : ∀ c ∈ cs ++ tail, c ≠ 'e' ∧ c ≠ 'E' :=
      List.forall_mem_append.mpr ⟨fixed.no_exponent, noLetter⟩
    rw [whole (Pattern.remainder?_numberThen fixed.isMantissa noDigit noPoint ends), Pattern.split?,
      Pattern.remainder?_scientificThen_none last noExponent]
    rfl
  | @exponent ds es sign fixed signed run =>
    have exponent : IsExponent ('e' :: sign :: es) := .signed (.inl rfl) signed run.isDigits
    have found := Pattern.remainder?_scientificThen fixed.isMantissa fixed.begins exponent noDigit
      ends
    rw [← List.append_assoc] at found
    rw [whole found]
    rfl

/-- What is read from a numeral, and what may stand behind it, is its only token. -/
theorem TakesNumbers.scan_numeral {last : Pattern} (numbers : scanner.TakesNumbers last)
    (labels : scanner.labels = labelChars scanner.vocabulary)
    (regular : scanner.vocabulary.Regular) (leaves : scanner.vocabulary.LeavesDigits)
    {cs tail : List Char} (numeral : IsNumeral cs) (closes : last.Closes tail) {value : α}
    (reads : scanner.config.read (String.ofList (cs ++ tail)) = some value) :
    scanner.scan (String.ofList (cs ++ tail)) = .ok [.symbol (.operand value)] := by
  have found := numbers.operandAt?_numeral numeral closes
  obtain ⟨c, rest, rfl, digit⟩ := numeral.cons
  have apart : ∀ label ∈ scanner.vocabulary.labels, c ∉ label.toList.head? :=
    fun label member first => Bool.noConfusion ((leaves label member c first).symm.trans digit)
  have noLabel := labelAt?_none labels regular apart (rest ++ tail)
  exact scan_operand (.inl (digit_contains digit)) noLabel found reads

section Ready

variable (ready : scanner.Ready)
include ready

theorem Ready.scan_numeral (leaves : scanner.vocabulary.LeavesDigits) {value : α}
    {cs : List Char} (numeral : IsNumeral cs)
    (reads : scanner.config.read (String.ofList cs) = some value) :
    scanner.scan (String.ofList cs) = .ok [.symbol (.operand value)] := by
  rw [← List.append_nil cs] at reads ⊢
  exact ready.takesNumbers.scan_numeral ready.labels ready.regular leaves numeral
    (Pattern.closes_nil rfl) reads

/-- What is printed as a numeral and read from it is readable. -/
theorem Ready.readable_numeral (leaves : scanner.vocabulary.LeavesDigits) {value : α}
    {cs : List Char} (numeral : IsNumeral cs)
    (prints : scanner.config.print value = .ok (String.ofList cs))
    (reads : scanner.config.read (String.ofList cs) = some value) : scanner.Readable value :=
  ⟨String.ofList cs, prints, ready.scan_numeral leaves numeral reads⟩

/-- A name that begins with no label is read as a variable. -/
theorem Ready.yields_name {label : String}
    (apart : ∀ other ∈ scanner.vocabulary.labels,
      other.toList.isPrefixOf label.toList = false)
    (whole : Pattern.name.split? label.toList = some (label.toList, [])) :
    scanner.Yields label (.name label) := by
  have noLabel := labelAt?_eq_none ready.labels apart
  have isName : scanner.IsName label := ⟨noLabel, (ready.nameAt?_eq _ _).trans whole⟩
  exact fun _ fresh _ breaks => ready.leads_name isName fresh true breaks

end Ready

end Scanner
end InfixCalc
