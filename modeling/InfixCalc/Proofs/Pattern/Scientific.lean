import InfixCalc.Proofs.Pattern.Match
import InfixCalc.Proofs.Pattern.Numeral

/-!
# Numbers as patterns

The texts that the patterns of numbers and exponents match as a whole, in the digits of any script.
-/

namespace InfixCalc.Pattern

/-- The exponent of a number in scientific notation. -/
def exponent : Pattern := exponentThen .empty

variable {text rest : List Char}

theorem mem_remainders_digits : rest ∈ digits.remainders text ↔
    ∃ front, IsDigits front ∧ text = front ++ rest := by
  unfold digits IsDigits
  simp only [mem_remainders_atLeastOnce, and_assoc]

theorem mem_remainders_digitsEmpty : rest ∈ (seq digits empty).remainders text ↔
    ∃ front, IsDigits front ∧ text = front ++ rest := by
  rw [mem_remainders_seq, ← mem_remainders_digits]
  constructor
  · rintro ⟨middle, taken, nothing⟩
    rwa [mem_remainders_empty.mp nothing]
  · exact fun taken => ⟨rest, taken, mem_remainders_empty.mpr rfl⟩

theorem matchesWhole_number : number.MatchesWhole text ↔ IsMantissa text := by
  unfold MatchesWhole number
  simp only [mem_remainders_seq (p := many _), mem_remainders_seq (p := optional _),
    mem_remainders_many, mem_remainders_optional, mem_remainders_one, mem_remainders_digitsEmpty]
  constructor
  · rintro ⟨_, ⟨front, digits, rfl⟩, _, rfl | rfl, behind, run, rfl⟩
    · rw [List.append_nil]
      exact .point digits run
    · rw [List.append_nil]
      exact .whole ⟨by simp [run.1], List.forall_mem_append.mpr ⟨digits, run.2⟩⟩
  · rintro (run | ⟨digits, run⟩)
    · exact ⟨_, ⟨[], List.forall_mem_nil _, rfl⟩, _, .inr rfl, _, run, (List.append_nil _).symm⟩
    · exact ⟨_, ⟨_, digits, rfl⟩, _, .inl rfl, _, run, (List.append_nil _).symm⟩

theorem matchesWhole_exponent : exponent.MatchesWhole text ↔ IsExponent text := by
  unfold MatchesWhole exponent exponentThen
  change [] ∈ (seq (char markSet) (seq (optional (char signSet)) (seq digits empty))).remainders
    text ↔ _
  simp only [mem_remainders_seq (p := char _), mem_remainders_seq (p := optional _),
    mem_remainders_char, mem_remainders_optional, mem_remainders_digitsEmpty, contains_markSet,
    contains_signSet]
  constructor
  · rintro ⟨_, ⟨mark, marked, rfl⟩, _, ⟨sign, signed, rfl⟩ | rfl, behind, run, rfl⟩
    · rw [List.append_nil]
      exact .signed marked signed run
    · rw [List.append_nil]
      exact .plain marked run
  · rintro (⟨marked, run⟩ | ⟨marked, signed, run⟩)
    · exact ⟨_, ⟨_, marked, rfl⟩, _, .inr rfl, _, run, (List.append_nil _).symm⟩
    · exact ⟨_, ⟨_, marked, rfl⟩, _, .inl ⟨_, signed, rfl⟩, _, run, (List.append_nil _).symm⟩

/- The preferred match. -/

theorem split?_of_remainder? {p : Pattern} {front : List Char}
    (found : p.remainder? (front ++ rest) = some rest) :
    p.split? (front ++ rest) = some (front, rest) := by
  simp [split?, found]

theorem split?_all_of_remainder? {p : Pattern} (found : p.remainder? text = some []) :
    p.split? text = some (text, []) := by
  simp [split?, found]

theorem split?_of_remainders_nil {p : Pattern} (never : p.remainders text = []) :
    p.split? text = none := by
  simp [split?, remainder?, never]

theorem letter_of_mark {mark : Char} (marked : mark = 'e' ∨ mark = 'E') :
    CharSet.letter.contains mark = true := by
  rcases marked with rfl | rfl <;> rfl

theorem noDigit_of_isExponent {es : List Char} (exponent : IsExponent es) : NoDigit es := by
  obtain ⟨mark, rest, rfl, marked⟩ := exponent.cons
  rintro _ ⟨⟩
  rcases marked with rfl | rfl <;> decide

theorem noPoint_of_isExponent {es : List Char} (exponent : IsExponent es) :
    ∀ c ∈ es.head?, c ≠ '.' := by
  obtain ⟨mark, rest, rfl, marked⟩ := exponent.cons
  rintro _ ⟨⟩
  rcases marked with rfl | rfl <;> decide

/-- A number that begins with a digit is taken with its exponent. -/
theorem split?_scientific {cs es : List Char} (mantissa : IsMantissa cs)
    (begins : ∀ c ∈ cs.head?, c ≠ '.') (exponent : IsExponent es) :
    scientific.split? (cs ++ es) = some (cs ++ es, []) := by
  have found : (scientificThen .empty).remainder? (cs ++ (es ++ [])) = some [] :=
    remainder?_scientificThen mantissa begins exponent nofun rfl
  rw [List.append_nil] at found
  exact split?_all_of_remainder? found

theorem split?_scientific_noDigit (stops : NoDigit text) : scientific.split? text = none :=
  split?_of_remainders_nil (remainders_seq_none (remainders_digits_noDigit stops))

/-- A number is taken without the exponent behind it where it has to do without one. -/
theorem split?_number {cs es : List Char} (mantissa : IsMantissa cs) (exponent : IsExponent es) :
    number.split? (cs ++ es) = some (cs, es) :=
  split?_of_remainder? (remainder?_numberThen mantissa (noDigit_of_isExponent exponent)
    (noPoint_of_isExponent exponent) rfl)

theorem split?_scientific_digits {ds : List Char} (run : IsDigits ds) :
    scientific.split? ds = none := by
  have noMark : ∀ c ∈ ds, c ≠ 'e' ∧ c ≠ 'E' := by
    intro c member
    have digit := run.2 c member
    constructor
    · rintro rfl
      cases digit
    · rintro rfl
      cases digit
  have never : (scientificThen .empty).remainder? ds = none :=
    remainder?_scientificThen_none .empty noMark
  change (scientificThen .empty).split? ds = none
  rw [split?, never]
  rfl

theorem split?_number_digits {ds : List Char} (run : IsDigits ds) :
    number.split? ds = some (ds, []) := by
  have found : (numberThen .empty).remainder? (ds ++ []) = some [] :=
    remainder?_numberThen (.whole run) nofun nofun rfl
  rw [List.append_nil] at found
  exact split?_all_of_remainder? found

theorem dropWhile_letter {rest : List Char}
    (stops : ∀ c ∈ rest.head?, CharSet.letter.contains c = false) :
    rest.dropWhile CharSet.letter.contains = rest := by
  cases rest with
  | nil => rfl
  | cons c cs => exact List.dropWhile_cons_of_neg (by simp [stops c rfl])

/-- Of digits a name takes some of the first ones, none of another script than ASCII. -/
theorem nameRest_digits {ds : List Char} (digits : ∀ c ∈ ds, CharSet.digit.contains c = true) :
    nameRest ds = ds.dropWhile CharSet.asciiDigit.contains := by
  have noLetter {rest : List Char} (suffix : rest <:+ ds) :
      ∀ c ∈ rest.head?, CharSet.letter.contains c = false := fun c first =>
    not_letter_of_digit (digits c (suffix.subset (List.mem_of_head? first)))
  unfold nameRest
  rw [dropWhile_letter (noLetter List.suffix_rfl),
    dropWhile_letter (noLetter (List.dropWhile_suffix _))]

theorem nameRest_sign {sign : Char} (signed : sign = '+' ∨ sign = '-') (rest : List Char) :
    nameRest (sign :: rest) = sign :: rest := by
  rcases signed with rfl | rfl <;> rfl

/-- What a name leaves of an exponent: digits, or the sign and the digits behind it. -/
inductive IsLeft : List Char → Prop where
  | nothing : IsLeft []
  | digits {ds : List Char} : IsDigits ds → IsLeft ds
  | signed {sign : Char} {ds : List Char} :
      sign = '+' ∨ sign = '-' → IsDigits ds → IsLeft (sign :: ds)

theorem isLeft_nameRest_digits {ds : List Char} (run : IsDigits ds) : IsLeft (nameRest ds) := by
  rw [nameRest_digits run.2]
  by_cases gone : ds.dropWhile CharSet.asciiDigit.contains = []
  · rw [gone]
    exact .nothing
  · exact .digits ⟨gone, fun c member => run.2 c ((List.dropWhile_suffix _).subset member)⟩

/-- Where an exponent is taken for a name, the name begins with its mark. -/
theorem split?_name_exponent {es : List Char} (exponent : IsExponent es) :
    ∃ taken left, name.split? es = some (taken, left) ∧ taken.head? = es.head? ∧
      left.length < es.length ∧ IsLeft left := by
  have split {mark : Char} {rest : List Char} (marked : mark = 'e' ∨ mark = 'E')
      (isLeft : IsLeft (nameRest rest)) :
      ∃ taken left, name.split? (mark :: rest) = some (taken, left) ∧
        taken.head? = (mark :: rest).head? ∧ left.length < (mark :: rest).length ∧
          IsLeft left := by
    have letter := letter_of_mark marked
    have found : name.split? (mark :: rest) = some
        ((mark :: rest).take ((mark :: rest).length - (nameRest rest).length), nameRest rest) := by
      rw [split?, remainder?_name, if_pos letter]
      rfl
    obtain ⟨_, c, cs, taken, _⟩ := split?_name found
    have whole := append_eq_of_split? found
    have suffix : nameRest rest <:+ rest :=
      ((List.dropWhile_suffix _).trans (List.dropWhile_suffix _)).trans (List.dropWhile_suffix _)
    refine ⟨_, _, found, ?_, Nat.lt_succ_of_le suffix.length_le, isLeft⟩
    rw [taken] at whole ⊢
    exact congrArg some (List.cons.inj whole).1
  cases exponent with
  | plain marked run => exact split marked (isLeft_nameRest_digits run)
  | signed marked signed run =>
    refine split marked ?_
    rw [nameRest_sign signed]
    exact .signed signed run

end InfixCalc.Pattern
