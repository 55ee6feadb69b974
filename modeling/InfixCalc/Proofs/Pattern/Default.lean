import InfixCalc.Proofs.Outcome
import InfixCalc.Proofs.Pattern.Word

/-!
# The default patterns

What the default patterns for operands and variables match, and that they stay in a word.
-/

namespace InfixCalc

namespace CharSet

def letter : CharSet := .either (.range 'a' 'z') (.either (.range 'A' 'Z') .none)

def asciiDigit : CharSet := .either (.range '0' '9') .none

end CharSet

namespace Pattern

def name : Pattern :=
  .seq (.atLeastOnce (.char .letter))
    (.seq (.many (.char .asciiDigit)) (.seq (.many (.char .letter)) .empty))

def digits : Pattern := .atLeastOnce (.char .digit)

def number : Pattern :=
  .seq (.many (.char .digit)) (.seq (.optional (.char (.one '.'))) (.seq digits .empty))

def scientific : Pattern :=
  .seq digits
    (.seq (.optional (.seq (.char (.one '.')) (.seq digits .empty)))
      (.seq (.char (.either (.one 'e') (.either (.one 'E') .none)))
        (.seq (.optional (.char (.either (.one '-') (.either (.one '+') .none))))
          (.seq digits .empty))))

/- Numbers with something behind them. -/

/-- A number without an exponent, and what comes behind it. -/
def numberThen (last : Pattern) : Pattern :=
  .seq (.many (.char .digit)) (.seq (.optional (.char (.one '.'))) (.seq digits last))

/-- An exponent, and what comes behind it. -/
def exponentThen (last : Pattern) : Pattern :=
  .seq (.char (.either (.one 'e') (.either (.one 'E') .none)))
    (.seq (.optional (.char (.either (.one '-') (.either (.one '+') .none))))
      (.seq digits last))

/-- A number with an exponent, and what comes behind it. -/
def scientificThen (last : Pattern) : Pattern :=
  .seq digits (.seq (.optional (.seq (.char (.one '.')) (.seq digits .empty))) (exponentThen last))

theorem read_defaultVariablePattern :
    WrittenPattern.read compile defaultVariablePattern =
      .ok ⟨defaultVariablePattern, name.matcher⟩ := rfl

theorem read_defaultOperandPatterns :
    (defaultOperandPatterns.mapM (WrittenPattern.read compile)).map
      (·.map WrittenPattern.matcher) = .ok [scientific.matcher, number.matcher] := rfl

end Pattern

/-- A configuration with the default patterns. -/
structure Config.IsStandard {α : Type} (config : Config α) : Prop where
  operands : config.operandPatterns.map WrittenPattern.matcher =
    [Pattern.scientific.matcher, Pattern.number.matcher]
  names : config.variablePattern.matcher = Pattern.name.matcher

theorem Config.make_eq_ok {α : Type} {compile : String → Except String Matcher}
    {read : String → Option α} {print display : α → Except Failure String}
    {operandPatterns : List String} {variablePattern : String} {maxDepth : Setting}
    {config : Config α}
    (h : Config.make compile read print display operandPatterns variablePattern maxDepth =
      .ok config) :
    operandPatterns.mapM (WrittenPattern.read compile) = .ok config.operandPatterns ∧
      WrittenPattern.read compile variablePattern = .ok config.variablePattern ∧
      config.read = read ∧ config.print = print ∧ config.display = display ∧
      Config.readMaxDepth maxDepth = .ok config.maxDepth := by
  unfold Config.make at h
  simp only at h
  split at h
  · cases h
  · obtain ⟨operands, readOperands, later⟩ := bind_eq_ok_iff.mp h
    obtain ⟨names, readNames, last⟩ := bind_eq_ok_iff.mp later
    obtain ⟨depth, readDepth, made⟩ := bind_eq_ok_iff.mp last
    cases made
    exact ⟨readOperands, readNames, rfl, rfl, rfl, readDepth⟩

theorem Config.standard_eq_ok {α : Type} {read : String → Option α}
    {print display : α → Except Failure String} {maxDepth : Setting} {config : Config α}
    (h : Config.standard read print display maxDepth = .ok config) :
    config.IsStandard ∧ config.read = read ∧ config.print = print ∧ config.display = display ∧
      Config.readMaxDepth maxDepth = .ok config.maxDepth := by
  obtain ⟨operands, names, same⟩ := Config.make_eq_ok h
  refine ⟨⟨?_, ?_⟩, same⟩
  · have known := Pattern.read_defaultOperandPatterns
    rw [operands] at known
    exact Except.ok.inj known
  · exact congrArg WrittenPattern.matcher
      (Except.ok.inj (names.symm.trans Pattern.read_defaultVariablePattern))

/- Blanks are no digits. -/

theorem Text.isDigit_iff {c : Char} :
    Text.isDigit c = true ↔ ∃ base ∈ Text.digitZeros, base ≤ c.toNat ∧ c.toNat < base + 10 := by
  simp [Text.isDigit, Text.digitValue?]

/-- No run of digits holds a letter of ASCII or a blank. -/
theorem Text.digitZeros_apart : ∀ base ∈ Text.digitZeros, base = 0x30 ∨
    0x660 ≤ base ∧ (base + 10 ≤ 0x1680 ∨ 0x1680 < base) ∧
      (base + 10 ≤ 0x2000 ∨ 0x3000 < base) := by
  decide

theorem Text.isDigit_of_isBlank {c : Char} (blank : Text.isBlank c = true) :
    Text.isDigit c = false := by
  rw [← Bool.not_eq_true, Text.isDigit_iff]
  rintro ⟨base, member, low, high⟩
  have apart := Text.digitZeros_apart base member
  simp only [Text.isBlank, Bool.or_eq_true, Bool.and_eq_true, decide_eq_true_eq, beq_iff_eq]
    at blank
  omega

/- The characters of the default patterns stand within words. -/

theorem letter_bounds {c : Char} (letter : CharSet.letter.contains c = true) :
    65 ≤ c.toNat ∧ c.toNat ≤ 122 := by
  simp only [CharSet.letter, CharSet.contains, Bool.or_eq_true, Bool.and_eq_true,
    decide_eq_true_eq, Bool.false_eq_true, or_false] at letter
  have low : ('a' : Char).toNat = 97 := rfl
  have high : ('z' : Char).toNat = 122 := rfl
  have lowUpper : ('A' : Char).toNat = 65 := rfl
  have highUpper : ('Z' : Char).toNat = 90 := rfl
  omega

theorem not_isBlank_of_letter {c : Char} (letter : CharSet.letter.contains c = true) :
    Text.isBlank c = false := by
  have bounds := letter_bounds letter
  rw [← Bool.not_eq_true]
  intro blank
  simp only [Text.isBlank, Bool.or_eq_true, Bool.and_eq_true, decide_eq_true_eq, beq_iff_eq]
    at blank
  omega

theorem not_isDigit_of_letter {c : Char} (letter : CharSet.letter.contains c = true) :
    Text.isDigit c = false := by
  have bounds := letter_bounds letter
  rw [← Bool.not_eq_true, Text.isDigit_iff]
  rintro ⟨base, member, low, high⟩
  have apart := Text.digitZeros_apart base member
  omega

theorem breaksWord_iff {c : Char} :
    breaksWord c = true ↔ Text.isBlank c = true ∨ c = '(' ∨ c = ')' ∨ c = ',' := by
  simp [breaksWord, or_assoc]

theorem not_contains_of_breaksWord {set : CharSet}
    (blank : ∀ c, Text.isBlank c = true → set.contains c = false)
    (marks : set.contains '(' = false ∧ set.contains ')' = false ∧ set.contains ',' = false) :
    ∀ c, breaksWord c = true → set.contains c = false := by
  intro c breaks
  rcases breaksWord_iff.mp breaks with isBlank | rfl | rfl | rfl
  · exact blank c isBlank
  · exact marks.1
  · exact marks.2.1
  · exact marks.2.2

theorem letter_staysInWord : (Pattern.char .letter).StaysInWord := by
  refine not_contains_of_breaksWord ?_ (by decide)
  intro c blank
  rw [← Bool.not_eq_true]
  intro letter
  simp [not_isBlank_of_letter letter] at blank

theorem inWord_of_letter {c : Char} (letter : CharSet.letter.contains c = true) :
    breaksWord c = false := by
  rw [← Bool.not_eq_true]
  intro stops
  exact Bool.noConfusion ((letter_staysInWord c stops).symm.trans letter)

theorem digit_staysInWord : (Pattern.char .digit).StaysInWord :=
  not_contains_of_breaksWord (fun _ blank => Text.isDigit_of_isBlank blank) (by decide)

theorem one_staysInWord {x : Char} (inWord : breaksWord x = false) :
    (Pattern.char (.one x)).StaysInWord := by
  intro c breaks
  rw [← Bool.not_eq_true]
  intro same
  rw [CharSet.contains, beq_iff_eq] at same
  rw [same, inWord] at breaks
  cases breaks

theorem either_staysInWord {left right : CharSet} (leftStays : (Pattern.char left).StaysInWord)
    (rightStays : (Pattern.char right).StaysInWord) :
    (Pattern.char (.either left right)).StaysInWord := by
  intro c breaks
  simp [CharSet.contains, leftStays c breaks, rightStays c breaks]

theorem none_staysInWord : (Pattern.char .none).StaysInWord := fun _ _ => rfl

theorem asciiDigit_staysInWord : (Pattern.char .asciiDigit).StaysInWord := by
  refine not_contains_of_breaksWord ?_ (by decide)
  intro c blank
  rw [← Bool.not_eq_true]
  intro digit
  simp only [CharSet.asciiDigit, CharSet.contains, Bool.or_false, Bool.and_eq_true,
    decide_eq_true_eq] at digit
  have low : ('0' : Char).toNat = 48 := rfl
  have high : ('9' : Char).toNat = 57 := rfl
  have isDigit := Text.isDigit_of_ascii (c := c) (by omega) (by omega)
  simp [Text.isDigit_of_isBlank blank] at isDigit

def BeginsOperand (c : Char) : Prop := CharSet.digit.contains c = true ∨ c = '.'

theorem BeginsOperand.inWord {c : Char} (begins : BeginsOperand c) : breaksWord c = false := by
  rw [← Bool.not_eq_true]
  intro stops
  rcases begins with digit | rfl
  · exact Bool.noConfusion ((digit_staysInWord c stops).symm.trans digit)
  · cases stops

namespace Pattern

theorem name_staysInWord : name.StaysInWord :=
  ⟨⟨letter_staysInWord, letter_staysInWord⟩, asciiDigit_staysInWord, letter_staysInWord, trivial⟩

theorem digits_staysInWord : digits.StaysInWord := ⟨digit_staysInWord, digit_staysInWord⟩

theorem number_staysInWord : number.StaysInWord :=
  ⟨digit_staysInWord, one_staysInWord (by decide), digits_staysInWord, trivial⟩

theorem scientific_staysInWord : scientific.StaysInWord :=
  ⟨digits_staysInWord, ⟨one_staysInWord (by decide), digits_staysInWord, trivial⟩,
    either_staysInWord (one_staysInWord (by decide))
      (either_staysInWord (one_staysInWord (by decide)) none_staysInWord),
    either_staysInWord (one_staysInWord (by decide))
      (either_staysInWord (one_staysInWord (by decide)) none_staysInWord),
    digits_staysInWord, trivial⟩

/- Where the patterns begin. -/

theorem remainders_many_none {p : Pattern} {text : List Char} (never : p.remainders text = []) :
    (many p).remainders text = [text] := by
  rw [remainders]
  cases text.length with
  | zero => rfl
  | succ fuel => simp [repeated, never]

theorem remainders_char_none {set : CharSet} {c : Char} (never : set.contains c = false)
    (cs : List Char) : (char set).remainders (c :: cs) = [] := by
  simp [remainders, never]

theorem remainders_digits_none {c : Char} (noDigit : CharSet.digit.contains c = false)
    (cs : List Char) : digits.remainders (c :: cs) = [] := by
  unfold digits atLeastOnce
  rw [remainders, remainders_char_none noDigit]
  rfl

theorem operand_begins (last : Pattern) {c : Char} (noDigit : CharSet.digit.contains c = false)
    (noPoint : c ≠ '.') (cs : List Char) :
    (scientificThen last).split? (c :: cs) = none ∧ (numberThen last).split? (c :: cs) = none := by
  have point : (CharSet.one '.').contains c = false := beq_eq_false_iff_ne.mpr noPoint
  constructor
  · have never : (scientificThen last).remainders (c :: cs) = [] := by
      unfold scientificThen
      rw [remainders, remainders_digits_none noDigit]
      rfl
    simp [split?, remainder?, never]
  · have optional : (optional (char (.one '.'))).remainders (c :: cs) = [c :: cs] := by
      rw [remainders, remainders_char_none point]
      rfl
    have never : (numberThen last).remainders (c :: cs) = [] := by
      unfold numberThen
      rw [remainders, remainders_many_none (remainders_char_none noDigit cs)]
      simp only [List.flatMap_cons, List.flatMap_nil, List.append_nil]
      rw [remainders, optional]
      simp only [List.flatMap_cons, List.flatMap_nil, List.append_nil]
      rw [remainders, remainders_digits_none noDigit]
      rfl
    simp [split?, remainder?, never]

/- Names. -/

theorem head?_flatMap {β γ : Type} {xs : List β} {f : β → List γ} (some_ : ∀ x, f x ≠ []) :
    (xs.flatMap f).head? = xs.head?.bind fun x => (f x).head? := by
  cases xs with
  | nil => rfl
  | cons x xs =>
    cases found : f x with
    | nil => exact absurd found (some_ x)
    | cons y ys => simp [found]

theorem head?_repeated (set : CharSet) (fuel : Nat) (text : List Char)
    (enough : text.length ≤ fuel) :
    (repeated (char set).remainders fuel text).head? = some (text.dropWhile set.contains) := by
  induction fuel generalizing text with
  | zero =>
    have empty : text = [] := List.length_eq_zero_iff.mp (Nat.le_zero.mp enough)
    subst empty
    rfl
  | succ fuel ih =>
    cases text with
    | nil => rfl
    | cons c cs =>
      by_cases holds : set.contains c = true
      · have one : (char set).remainders (c :: cs) = [cs] := by simp [remainders, holds]
        have rest := ih cs (by simpa using enough)
        have shorter : ([cs] : List (List Char)).filter (·.length < (c :: cs).length) = [cs] := by
          simp
        rw [repeated, one, shorter, List.flatMap_cons, List.flatMap_nil, List.append_nil,
          List.head?_append, rest, List.dropWhile_cons_of_pos holds]
        rfl
      · have none_ : (char set).remainders (c :: cs) = [] := by simp [remainders, holds]
        rw [repeated, none_, List.dropWhile_cons_of_neg holds]
        rfl

theorem remainders_many_ne_nil (p : Pattern) (text : List Char) :
    (many p).remainders text ≠ [] := by
  rw [remainders]
  cases text.length with
  | zero => simp [repeated]
  | succ fuel => simp [repeated]

theorem remainder?_many (set : CharSet) (text : List Char) :
    (many (char set)).remainder? text = some (text.dropWhile set.contains) :=
  head?_repeated set text.length text (Nat.le_refl _)

theorem remainder?_seq {p q : Pattern} (total : ∀ text, q.remainders text ≠ [])
    (text : List Char) : (seq p q).remainder? text = (p.remainder? text).bind q.remainder? := by
  unfold remainder?
  rw [remainders, head?_flatMap total]

theorem remainders_seq_ne_nil {p q : Pattern} (first : ∀ text, p.remainders text ≠ [])
    (second : ∀ text, q.remainders text ≠ []) (text : List Char) :
    (seq p q).remainders text ≠ [] := by
  rw [remainders]
  intro none_
  cases found : p.remainders text with
  | nil => exact first text found
  | cons rest more =>
    rw [found, List.flatMap_cons] at none_
    exact second rest (List.append_eq_nil_iff.mp none_).1

def nameRest (text : List Char) : List Char :=
  ((text.dropWhile CharSet.letter.contains).dropWhile
    CharSet.asciiDigit.contains).dropWhile CharSet.letter.contains

theorem remainder?_name (c : Char) (cs : List Char) :
    name.remainder? (c :: cs) =
      if CharSet.letter.contains c then some (nameRest cs) else none := by
  have total := remainders_many_ne_nil
  have empty (text : List Char) : empty.remainders text ≠ [] := by simp [remainders]
  have last := remainders_seq_ne_nil (total (char .letter)) empty
  have middle := remainders_seq_ne_nil (total (char .asciiDigit)) last
  unfold name atLeastOnce
  rw [remainder?_seq middle, remainder?_seq (total (char .letter))]
  have first : (char .letter).remainder? (c :: cs) =
      if CharSet.letter.contains c then some cs else none := by
    unfold remainder?
    rw [remainders]
    split
    · rfl
    · rfl
  rw [first]
  split
  · rw [Option.bind_some, remainder?_many, Option.bind_some, remainder?_seq last, remainder?_many,
      Option.bind_some, remainder?_seq empty, remainder?_many]
    rfl
  · rfl

theorem dropWhile_append_cases (p : Char → Bool) (xs ys : List Char) :
    xs.dropWhile p = [] ∨
      xs.dropWhile p ≠ [] ∧ (xs ++ ys).dropWhile p = xs.dropWhile p ++ ys := by
  by_cases gone : xs.dropWhile p = []
  · exact .inl gone
  · rw [List.dropWhile_append, if_neg (mt List.isEmpty_iff.mp gone)]
    exact .inr ⟨gone, rfl⟩

/-- A name that is taken from the front of a text is a name as a whole. -/
theorem nameRest_eq_nil {taken rest : List Char} (h : nameRest (taken ++ rest) = rest) :
    nameRest taken = [] := by
  unfold nameRest at h ⊢
  rcases dropWhile_append_cases CharSet.letter.contains taken rest with gone | ⟨_, first⟩
  · rw [gone]
    rfl
  · rw [first] at h
    rcases dropWhile_append_cases CharSet.asciiDigit.contains
      (taken.dropWhile CharSet.letter.contains) rest with gone | ⟨_, second⟩
    · rw [gone]
      rfl
    · rw [second] at h
      rcases dropWhile_append_cases CharSet.letter.contains
        ((taken.dropWhile CharSet.letter.contains).dropWhile CharSet.asciiDigit.contains) rest
        with gone | ⟨left, third⟩
      · exact gone
      · rw [third] at h
        exact absurd (List.append_left_eq_self.mp h) left

/-- A name begins with a letter and is a name as a whole. -/
theorem split?_name {text taken rest : List Char} (h : name.split? text = some (taken, rest)) :
    name.split? taken = some (taken, []) ∧
      ∃ c cs, taken = c :: cs ∧ CharSet.letter.contains c = true := by
  have whole := append_eq_of_split? h
  obtain ⟨left, found, same⟩ := Option.map_eq_some_iff.mp h
  obtain ⟨_, rfl⟩ := Prod.mk.inj same
  cases text with
  | nil => cases found
  | cons c cs =>
    rw [remainder?_name] at found
    split at found
    · rename_i letter
      have restEq : nameRest cs = left := Option.some.inj found
      cases taken with
      | nil =>
        have suffixes : nameRest cs <:+ cs :=
          ((List.dropWhile_suffix _).trans (List.dropWhile_suffix _)).trans
            (List.dropWhile_suffix _)
        have long := suffixes.length_le
        simp only [List.nil_append] at whole
        rw [restEq, whole, List.length_cons] at long
        omega
      | cons first others =>
        obtain ⟨rfl, rfl⟩ := List.cons.inj whole
        refine ⟨?_, first, others, rfl, letter⟩
        unfold split?
        rw [remainder?_name, if_pos letter, nameRest_eq_nil restEq]
        simp
    · cases found

end Pattern

end InfixCalc
