import InfixCalc.Proofs.Binary64.Fields
import InfixCalc.Proofs.Binary64.Scale
import InfixCalc.Proofs.Pattern.Numeral
import InfixCalc.Real.Format

/-!
# Numerals of doubles

A finite double that is not negative is shown as a numeral. Shown without the fraction of an
integer it reads as it does with it.
-/

namespace InfixCalc.Binary64

open InfixCalc.Number InfixCalc.Text

/- Reading. -/

theorem dropWhile_reverse_cons {c : Char} (noBlank : isBlank c = false) (cs : List Char) :
    ∃ ds, (c :: cs).reverse.dropWhile isBlank = ds ++ [c] := by
  have blank : ¬ isBlank c = true := by simp [noBlank]
  rw [List.reverse_cons, List.dropWhile_append, List.dropWhile_cons_of_neg blank]
  split
  · exact ⟨[], rfl⟩
  · exact ⟨_, rfl⟩

theorem trim_cons {c : Char} (noBlank : isBlank c = false) (cs : List Char) :
    ∃ ds, trim (c :: cs) = c :: ds := by
  obtain ⟨ds, same⟩ := dropWhile_reverse_cons noBlank cs
  unfold trim trimStart
  rw [List.dropWhile_cons_of_neg (by simp [noBlank]), same]
  exact ⟨_, List.reverse_concat⟩

theorem dropWhile_eq_self {text : List Char} (noBlank : ∀ c ∈ text, isBlank c = false) :
    text.dropWhile isBlank = text := by
  cases text with
  | nil => rfl
  | cons c cs => exact List.dropWhile_cons_of_neg (by simp [noBlank c List.mem_cons_self])

theorem trim_eq_self {text : List Char} (noBlank : ∀ c ∈ text, isBlank c = false) :
    trim text = text := by
  unfold trim trimStart
  rw [dropWhile_eq_self noBlank, dropWhile_eq_self fun c member =>
    noBlank c (List.mem_reverse.mp member), List.reverse_reverse]

theorem not_isBlank_of_begins {c : Char} (begins : BeginsOperand c) : isBlank c = false := by
  rw [← Bool.not_eq_true]
  intro blank
  rcases begins with digit | rfl
  · exact Bool.noConfusion ((isDigit_of_isBlank blank).symm.trans digit)
  · cases blank

theorem not_letter_of_begins {c : Char} (begins : BeginsOperand c) :
    ¬ (('a' ≤ c ∧ c ≤ 'z') ∨ ('A' ≤ c ∧ c ≤ 'Z')) := by
  intro bounds
  have letter : CharSet.letter.contains c = true := by
    simp only [CharSet.letter, CharSet.contains, Bool.or_eq_true, Bool.and_eq_true,
      decide_eq_true_eq, Bool.false_eq_true, or_false]
    exact bounds
  rcases begins with digit | rfl
  · exact Bool.noConfusion ((not_isDigit_of_letter letter).symm.trans digit)
  · cases letter

theorem signOf_of_begins {c : Char} (begins : BeginsOperand c) (cs : List Char) :
    signOf (c :: cs) = (false, c :: cs) := by
  unfold signOf
  split
  · rename_i same
    cases same
    rcases begins with digit | point
    · cases digit
    · cases point
  · rename_i same
    cases same
    rcases begins with digit | point
    · cases digit
    · cases point
  · rfl

theorem lowerCase_ne {c d : Char} (begins : BeginsOperand c) (letter : 'a' ≤ d ∧ d ≤ 'z')
    (cs : List Char) (ds : List Char) : lowerCase (c :: cs) ≠ String.ofList (d :: ds) := by
  intro same
  have heads := congrArg String.toList same
  rw [lowerCase, String.toList_ofList, String.toList_ofList, List.map_cons] at heads
  have head : c.toLower = d := (List.cons.inj heads).1
  unfold Char.toLower at head
  split at head
  · rename_i upper
    exact not_letter_of_begins begins (.inr upper)
  · subst head
    exact not_letter_of_begins begins (.inl letter)

theorem read_of_begins {c : Char} (begins : BeginsOperand c) {cs ds : List Char}
    (trimmed : trim (c :: cs) = c :: ds) : read (String.ofList (c :: cs)) =
      (unsigned (c :: ds)).map fun (digits, exponent) => ofDecimal false digits exponent := by
  unfold read
  rw [String.toList_ofList, trimmed, signOf_of_begins begins]
  simp only
  split
  · rename_i named
    exact absurd named (lowerCase_ne begins (by decide) ds ['n', 'f'])
  · rename_i named
    exact absurd named (lowerCase_ne begins (by decide) ds ['n', 'f', 'i', 'n', 'i', 't', 'y'])
  · rename_i named
    exact absurd named (lowerCase_ne begins (by decide) ds ['a', 'n'])
  · rfl

theorem exists_ofDecimal_of_read {c : Char} (begins : BeginsOperand c) {cs : List Char} {x : Float}
    (reads : read (String.ofList (c :: cs)) = some x) :
    ∃ digits exponent, x = ofDecimal false digits exponent := by
  obtain ⟨ds, trimmed⟩ := trim_cons (not_isBlank_of_begins begins) cs
  rw [read_of_begins begins trimmed] at reads
  obtain ⟨⟨digits, exponent⟩, _, same⟩ := Option.map_eq_some_iff.mp reads
  exact ⟨digits, exponent, same.symm⟩

/-- A finite double that is read from a text without a sign is not negative. -/
theorem exists_decode_of_read {c : Char} (begins : BeginsOperand c) {cs : List Char} {x : Float}
    (reads : read (String.ofList (c :: cs)) = some x) (finite : x.isFinite = true) :
    ∃ significand place, decode x = .finite false significand place := by
  obtain ⟨digits, exponent, rfl⟩ := exists_ofDecimal_of_read begins reads
  exact exists_decode_ofDecimal finite

/- Digits. -/

theorem foldl_digits {ds : List Char} (digits : ∀ c ∈ ds, c.isDigit = true) (start : Nat) :
    (ds.filterMap digitValue?).foldl (fun value d => 10 * value + d) start =
      Nat.ofDigitChars 10 ds start := by
  induction ds generalizing start with
  | nil => rfl
  | cons c ds ih =>
    have value := digitValue?_of_isDigit (digits c List.mem_cons_self)
    rw [List.filterMap_cons_some value, List.foldl_cons, Nat.ofDigitChars_cons]
    exact ih (fun d member => digits d (List.mem_cons_of_mem _ member)) _

theorem digitsValue_digits {ds : List Char} (digits : ∀ c ∈ ds, c.isDigit = true) :
    digitsValue (ds.filterMap digitValue?) = Nat.ofDigitChars 10 ds 0 :=
  foldl_digits digits 0

theorem digitRun_stops {rest : List Char}
    (stops : ∀ c ∈ rest.head?, digitValue? c = none ∧ c ≠ '_') (afterDigit : Bool) :
    digitRun afterDigit rest = ([], rest) := by
  cases rest with
  | nil => rfl
  | cons c more =>
    obtain ⟨noDigit, noScore⟩ := stops c rfl
    rw [digitRun, noDigit]
    simp [noScore]

theorem digitRun_append {ds : List Char} (digits : ∀ c ∈ ds, CharSet.digit.contains c = true)
    {rest : List Char} (stops : ∀ c ∈ rest.head?, digitValue? c = none ∧ c ≠ '_')
    (afterDigit : Bool) :
    digitRun afterDigit (ds ++ rest) = (ds.filterMap digitValue?, rest) := by
  induction ds generalizing afterDigit with
  | nil => exact digitRun_stops stops afterDigit
  | cons c ds ih =>
    obtain ⟨d, value⟩ := Option.isSome_iff_exists.mp (digits c List.mem_cons_self)
    have later := ih (fun d member => digits d (List.mem_cons_of_mem _ member)) true
    rw [List.cons_append, digitRun, value]
    simp only [later, List.filterMap_cons, value]

theorem filterMap_ne_nil {ds : List Char} (run : IsDigits ds) : ds.filterMap digitValue? ≠ [] := by
  obtain ⟨c, rest, rfl, digit⟩ := run.cons
  obtain ⟨d, value⟩ := Option.isSome_iff_exists.mp digit
  rw [List.filterMap_cons_some value]
  exact List.cons_ne_nil _ _

/-- Nothing, or an exponent. -/
def IsTail (tail : List Char) (exponent : Int) : Prop :=
  (tail = [] ∨ ∃ es, tail = 'e' :: es) ∧ exponentOf tail = some exponent

theorem isTail_nil : IsTail [] 0 := ⟨.inl rfl, rfl⟩

theorem IsTail.stops {tail : List Char} {exponent : Int} (h : IsTail tail exponent) :
    ∀ c ∈ tail.head?, digitValue? c = none ∧ c ≠ '_' := by
  intro c first
  rcases h.1 with rfl | ⟨es, rfl⟩
  · cases first
  · cases first
    decide

/-- The number that a whole part, a fraction and an exponent stand for. -/
theorem unsigned_fixedText {whole part : List Char} (run : IsRun whole)
    (digits : ∀ c ∈ part, c.isDigit = true) {tail : List Char} {exponent : Int}
    (ends : IsTail tail exponent) :
    unsigned (fixedText whole part ++ tail) =
      some (Nat.ofDigitChars 10 (whole ++ part) 0, exponent - part.length) := by
  have some_ := filterMap_ne_nil run.isDigits
  have value := digitsValue_digits (run.append digits).2
  have count : (part.filterMap digitValue?).length = part.length := by
    rw [List.filterMap_length_eq_length]
    exact fun c member => Option.isSome_iff_exists.mpr ⟨_, digitValue?_of_isDigit (digits c member)⟩
  rw [List.filterMap_append] at value
  unfold unsigned fixedText
  by_cases none_ : part = []
  · have first := digitRun_append run.isDigits.2 ends.stops false
    subst none_
    rw [if_pos rfl, first]
    -- no point can follow the digits
    rcases ends with ⟨rfl | ⟨es, rfl⟩, read⟩
    · simpa [some_, read] using value
    · simpa [some_, read] using value
  · have pointStops : ∀ c ∈ ('.' :: (part ++ tail)).head?, digitValue? c = none ∧ c ≠ '_' := by
      intro c first
      cases first
      decide
    have first := digitRun_append run.isDigits.2 pointStops false
    have later :=
      digitRun_append (fun c member => digit_contains (digits c member)) ends.stops false
    rw [if_neg none_, List.append_assoc, List.cons_append, first]
    simp only [later]
    simp [some_, ends.2, value, count]

/- Integers with and without a fraction. -/

theorem unsigned_digits {ds : List Char} (run : IsRun ds) :
    unsigned ds = some (Nat.ofDigitChars 10 ds 0, 0) := by
  have whole := unsigned_fixedText run (List.forall_mem_nil _) isTail_nil
  simpa [fixedText] using whole

theorem unsigned_point_zero {ds : List Char} (run : IsRun ds) :
    unsigned (ds ++ ['.', '0']) = some (10 * Nat.ofDigitChars 10 ds 0, 0 - 1) := by
  have zero : ∀ c ∈ ['0'], c.isDigit = true := List.forall_mem_singleton.mpr rfl
  have whole := unsigned_fixedText run zero isTail_nil
  simpa [fixedText, Nat.ofDigitChars_append, Nat.ofDigitChars_cons] using whole

theorem not_isBlank_of_isDigit {c : Char} (digit : c.isDigit = true) : isBlank c = false :=
  not_isBlank_of_begins (.inl (digit_contains digit))

/-- An integer is read the same with a fraction of zero. -/
theorem read_point_zero {ds : List Char} (run : IsRun ds) :
    read (String.ofList (ds ++ ['.', '0'])) = read (String.ofList ds) := by
  have noBlank : ∀ c ∈ ds, isBlank c = false := fun c member =>
    not_isBlank_of_isDigit (run.2 c member)
  have fraction : ∀ c ∈ ['.', '0'], isBlank c = false :=
    List.forall_mem_cons.mpr ⟨rfl, List.forall_mem_singleton.mpr rfl⟩
  have noBlankToo : ∀ c ∈ ds ++ ['.', '0'], isBlank c = false := by
    intro c member
    rcases List.mem_append.mp member with first | last
    · exact noBlank c first
    · exact fraction c last
  have short := unsigned_digits run
  have long := unsigned_point_zero run
  have trimmed := trim_eq_self noBlank
  have trimmedToo := trim_eq_self noBlankToo
  obtain ⟨c, rest, rfl, digit⟩ := run.cons
  have begins : BeginsOperand c := .inl (digit_contains digit)
  rw [List.cons_append] at trimmedToo long ⊢
  rw [read_of_begins begins trimmed, read_of_begins begins trimmedToo, short, long]
  exact congrArg some (ofDecimal_ten_mul false _ 0)

/- Shapes of texts. -/

theorem isRun_digitChars (n : Nat) : IsRun (digitChars n) :=
  ⟨Nat.toDigits_ne_nil, fun _ member => Nat.isDigit_of_mem_toDigits (by decide) (by decide) member⟩

theorem isFixed_mantissaText {ds : List Char} (run : IsRun ds) : IsFixed (mantissaText ds) := by
  match ds, run with
  | [], run => exact absurd rfl run.1
  | [d], run => exact .whole run
  | d :: e :: more, run =>
    have first : IsRun [d] := isRun_singleton (run.2 d List.mem_cons_self)
    have later : IsRun (e :: more) :=
      ⟨List.cons_ne_nil _ _, fun c member => run.2 c (List.mem_cons_of_mem _ member)⟩
    exact .point first later

theorem exponentText_eq (exponent : Int) : ∃ sign es, exponentText exponent = 'e' :: sign :: es ∧
    (sign = '+' ∨ sign = '-') ∧ IsRun es := by
  refine ⟨_, _, rfl, ?_, ?_⟩
  · split
    · exact .inr rfl
    · exact .inl rfl
  · refine ⟨by simp [(isRun_digitChars _).1], fun c member => ?_⟩
    rcases List.mem_append.mp member with zero | digit
    · exact isDigit_of_mem_replicate zero
    · exact (isRun_digitChars _).2 c digit

/-- A positive number is shown as a numeral. A layout that keeps the point differs from one that
does not only in the fraction of an integer. -/
theorem isNumeral_render (least most : Int) (d : Digits) :
    IsNumeral (Layout.render ⟨least, most, false⟩ d) ∧
      (Layout.render ⟨least, most, true⟩ d = Layout.render ⟨least, most, false⟩ d ∨
        IsRun (Layout.render ⟨least, most, false⟩ d) ∧
          Layout.render ⟨least, most, true⟩ d =
            Layout.render ⟨least, most, false⟩ d ++ ['.', '0']) := by
  have run := isRun_digitChars d.digits
  have size := List.length_pos_iff.mpr run.1
  unfold Layout.render
  dsimp only
  generalize digitChars d.digits = digits at run size
  split
  · rename_i far
    obtain ⟨sign, es, written, signed, exponent⟩ := exponentText_eq (d.exponent + digits.length - 1)
    rw [written]
    exact ⟨.exponent (isFixed_mantissaText run) signed exponent, .inl rfl⟩
  · rename_i near
    split
    · rename_i whole
      have zeros : IsRun (digits ++ List.replicate d.exponent.toNat '0') :=
        run.append fun c member => isDigit_of_mem_replicate member
      simp only [Bool.false_eq_true, if_false, List.append_nil, if_true]
      exact ⟨.fixed (.whole zeros), .inr ⟨zeros, trivial⟩⟩
    · rename_i part
      split
      · exact ⟨.fixed (.point (run.take (by omega)) (run.drop (by omega))), .inl rfl⟩
      · have zero : IsRun ['0'] := isRun_singleton rfl
        exact ⟨.fixed (.point zero (run.prepend fun c member => isDigit_of_mem_replicate member)),
          .inl rfl⟩

theorem exists_numeral {x : Float} {significand : Nat} {exponent : Int}
    (decoded : decode x = .finite false significand exponent) :
    ∃ cs, plain.text x = String.ofList cs ∧ IsNumeral cs ∧
      (text x = String.ofList cs ∨ IsRun cs ∧ text x = String.ofList (cs ++ ['.', '0'])) := by
  unfold text Layout.text
  simp only [decoded, Bool.false_eq_true, if_false]
  by_cases zero : significand = 0
  · have run : IsRun ['0'] := isRun_singleton rfl
    simp only [if_pos zero]
    exact ⟨['0'], rfl, .fixed (.whole run), .inr ⟨run, rfl⟩⟩
  · simp only [if_neg zero]
    obtain ⟨numeral, same | ⟨run, fraction⟩⟩ :=
      isNumeral_render (-4) 15 (shortest significand exponent)
    · exact ⟨_, rfl, numeral, .inl (congrArg String.ofList same)⟩
    · exact ⟨_, rfl, numeral, .inr ⟨run, congrArg String.ofList fraction⟩⟩

theorem format_eq_text {x : Float} {significand : Nat} {exponent : Int}
    (decoded : decode x = .finite false significand exponent) : Real.format x = plain.text x := by
  unfold Real.format
  split
  · rename_i zero
    obtain ⟨negative, place, decodedZero⟩ := decode_of_beq_zero zero
    rw [decoded] at decodedZero
    cases decodedZero
    simp [Layout.text, decoded, plain]
  · rfl

/-- A double that is read back from its shortest text is read back from the form of operands, which
is a numeral. -/
theorem exists_format {x : Float} {significand : Nat} {exponent : Int}
    (decoded : decode x = .finite false significand exponent) (reads : read (text x) = some x) :
    ∃ cs, Real.format x = String.ofList cs ∧ IsNumeral cs ∧
      read (String.ofList cs) = some x := by
  obtain ⟨cs, shown, numeral, same | ⟨run, fraction⟩⟩ := exists_numeral decoded
  · exact ⟨cs, (format_eq_text decoded).trans shown, numeral, same ▸ reads⟩
  · refine ⟨cs, (format_eq_text decoded).trans shown, numeral, ?_⟩
    rw [← read_point_zero run, ← fraction]
    exact reads

end InfixCalc.Binary64
