import InfixCalc.Proofs.Pattern.Default

/-!
# Numerals

The texts that numbers are printed as, and that the default operand patterns match as a whole.
-/

namespace InfixCalc

def IsRun (ds : List Char) : Prop := ds ≠ [] ∧ ∀ c ∈ ds, c.isDigit = true

inductive IsFixed : List Char → Prop where
  | whole {ds : List Char} : IsRun ds → IsFixed ds
  | point {ds es : List Char} : IsRun ds → IsRun es → IsFixed (ds ++ '.' :: es)

/-- A number without a sign, and perhaps an exponent with one. -/
inductive IsNumeral : List Char → Prop where
  | fixed {cs : List Char} : IsFixed cs → IsNumeral cs
  | exponent {cs es : List Char} {sign : Char} :
      IsFixed cs → sign = '+' ∨ sign = '-' → IsRun es → IsNumeral (cs ++ 'e' :: sign :: es)

theorem not_letter_of_digit {c : Char} (digit : CharSet.digit.contains c = true) :
    CharSet.letter.contains c = false := by
  rw [← Bool.not_eq_true]
  intro letter
  exact Bool.noConfusion ((not_isDigit_of_letter letter).symm.trans digit)

/-- Digits of any script. -/
def IsDigits (ds : List Char) : Prop := ds ≠ [] ∧ ∀ c ∈ ds, CharSet.digit.contains c = true

/-- A number without an exponent in any script, perhaps with its point in front. -/
inductive IsMantissa : List Char → Prop where
  | whole {ds : List Char} : IsDigits ds → IsMantissa ds
  | point {ds es : List Char} :
      (∀ c ∈ ds, CharSet.digit.contains c = true) → IsDigits es → IsMantissa (ds ++ '.' :: es)

/-- An exponent in any script, with or without a sign. -/
inductive IsExponent : List Char → Prop where
  | plain {mark : Char} {ds : List Char} :
      mark = 'e' ∨ mark = 'E' → IsDigits ds → IsExponent (mark :: ds)
  | signed {mark sign : Char} {ds : List Char} :
      mark = 'e' ∨ mark = 'E' → sign = '+' ∨ sign = '-' → IsDigits ds →
        IsExponent (mark :: sign :: ds)

theorem digit_contains {c : Char} (digit : c.isDigit = true) : CharSet.digit.contains c = true := by
  simp only [Char.isDigit, Bool.and_eq_true, decide_eq_true_eq] at digit
  have low : 48 ≤ c.toNat := digit.1
  have high : c.toNat ≤ 57 := digit.2
  exact Text.isDigit_of_ascii low (by omega)

theorem digitValue?_of_isDigit {c : Char} (digit : c.isDigit = true) :
    Text.digitValue? c = some (c.toNat - 48) := by
  simp only [Char.isDigit, Bool.and_eq_true, decide_eq_true_eq] at digit
  have low : 48 ≤ c.toNat := digit.1
  have high : c.toNat ≤ 57 := digit.2
  have first : c.toNat < 58 := by omega
  simp [Text.digitValue?, Text.digitZeros, low, first]

theorem isRun_singleton {c : Char} (digit : c.isDigit = true) : IsRun [c] :=
  ⟨List.cons_ne_nil _ _, List.forall_mem_singleton.mpr digit⟩

theorem IsRun.cons {ds : List Char} (run : IsRun ds) :
    ∃ c rest, ds = c :: rest ∧ c.isDigit = true := by
  cases ds with
  | nil => exact absurd rfl run.1
  | cons c rest => exact ⟨c, rest, rfl, run.2 c List.mem_cons_self⟩

theorem IsDigits.cons {ds : List Char} (run : IsDigits ds) :
    ∃ c rest, ds = c :: rest ∧ CharSet.digit.contains c = true := by
  cases ds with
  | nil => exact absurd rfl run.1
  | cons c rest => exact ⟨c, rest, rfl, run.2 c List.mem_cons_self⟩

theorem isDigits_singleton {c : Char} (digit : CharSet.digit.contains c = true) : IsDigits [c] :=
  ⟨List.cons_ne_nil _ _, List.forall_mem_singleton.mpr digit⟩

theorem IsRun.isDigits {ds : List Char} (run : IsRun ds) : IsDigits ds :=
  ⟨run.1, fun c member => digit_contains (run.2 c member)⟩

theorem IsFixed.isMantissa {cs : List Char} (fixed : IsFixed cs) : IsMantissa cs := by
  cases fixed with
  | whole run => exact .whole run.isDigits
  | point run more => exact .point run.isDigits.2 more.isDigits

/-- A number that begins with its point is a fraction. -/
theorem IsMantissa.of_point {cs : List Char} (mantissa : IsMantissa cs)
    (begins : cs.head? = some '.') : ∃ fs, cs = '.' :: fs ∧ IsDigits fs := by
  have notDigit (ds : List Char) (digits : ∀ c ∈ ds, CharSet.digit.contains c = true) :
      ds.head? ≠ some '.' := by
    intro first
    have digit := digits '.' (List.mem_of_head? first)
    cases digit
  cases mantissa with
  | whole run => exact absurd begins (notDigit _ run.2)
  | @point ds fs digits run =>
    cases ds with
    | nil => exact ⟨fs, rfl, run⟩
    | cons d ds => exact absurd begins (notDigit (d :: ds) digits)

theorem IsExponent.cons {es : List Char} (exponent : IsExponent es) :
    ∃ mark rest, es = mark :: rest ∧ (mark = 'e' ∨ mark = 'E') := by
  cases exponent with
  | plain marked _ => exact ⟨_, _, rfl, marked⟩
  | signed marked _ _ => exact ⟨_, _, rfl, marked⟩

/-- Behind its mark an exponent goes on with a digit or a sign. -/
theorem IsExponent.cons_cons {es : List Char} (exponent : IsExponent es) :
    ∃ mark next rest, es = mark :: next :: rest ∧ (mark = 'e' ∨ mark = 'E') ∧
      CharSet.letter.contains next = false := by
  cases exponent with
  | plain marked run =>
    obtain ⟨d, ds, rfl, digit⟩ := run.cons
    exact ⟨_, d, ds, rfl, marked, not_letter_of_digit digit⟩
  | signed marked signed _ =>
    refine ⟨_, _, _, rfl, marked, ?_⟩
    rcases signed with rfl | rfl <;> rfl

theorem isDigit_of_mem_replicate {c : Char} {count : Nat} (member : c ∈ List.replicate count '0') :
    c.isDigit = true := by
  rw [List.eq_of_mem_replicate member]
  rfl

theorem IsRun.append {ds es : List Char} (run : IsRun ds) (digits : ∀ c ∈ es, c.isDigit = true) :
    IsRun (ds ++ es) := by
  refine ⟨by simp [run.1], fun c member => ?_⟩
  rcases List.mem_append.mp member with first | later
  · exact run.2 c first
  · exact digits c later

theorem IsRun.prepend {ds es : List Char} (run : IsRun es) (digits : ∀ c ∈ ds, c.isDigit = true) :
    IsRun (ds ++ es) := by
  refine ⟨by simp [run.1], fun c member => ?_⟩
  rcases List.mem_append.mp member with first | later
  · exact digits c first
  · exact run.2 c later

theorem IsRun.take {ds : List Char} (run : IsRun ds) {count : Nat} (some_ : count ≠ 0) :
    IsRun (ds.take count) :=
  ⟨by simp [run.1, some_], fun c member => run.2 c (List.mem_of_mem_take member)⟩

theorem IsRun.drop {ds : List Char} (run : IsRun ds) {count : Nat} (fewer : count < ds.length) :
    IsRun (ds.drop count) :=
  ⟨by simpa using fewer, fun c member => run.2 c (List.mem_of_mem_drop member)⟩

theorem IsFixed.cons {cs : List Char} (fixed : IsFixed cs) :
    ∃ c rest, cs = c :: rest ∧ c.isDigit = true := by
  cases fixed with
  | whole run => exact run.cons
  | point run _ =>
    obtain ⟨c, rest, rfl, digit⟩ := run.cons
    exact ⟨c, _, rfl, digit⟩

theorem IsFixed.begins {cs : List Char} (fixed : IsFixed cs) : ∀ c ∈ cs.head?, c ≠ '.' := by
  obtain ⟨c, rest, rfl, digit⟩ := fixed.cons
  rintro _ ⟨⟩ rfl
  cases digit

theorem IsFixed.digit_or_point {cs : List Char} (fixed : IsFixed cs) :
    ∀ c ∈ cs, c.isDigit = true ∨ c = '.' := by
  cases fixed with
  | whole run => exact fun c member => .inl (run.2 c member)
  | point run more =>
    intro c member
    rcases List.mem_append.mp member with first | later
    · exact .inl (run.2 c first)
    · rcases List.mem_cons.mp later with rfl | last
      · exact .inr rfl
      · exact .inl (more.2 c last)

/-- A whole part, and a fraction where there is one. -/
def fixedText (whole part : List Char) : List Char :=
  if part = [] then whole else whole ++ '.' :: part

theorem isFixed_fixedText {whole part : List Char} (run : IsRun whole)
    (digits : ∀ c ∈ part, c.isDigit = true) : IsFixed (fixedText whole part) := by
  unfold fixedText
  split
  · exact .whole run
  · rename_i some_
    exact .point run ⟨some_, digits⟩

theorem IsNumeral.cons {cs : List Char} (numeral : IsNumeral cs) :
    ∃ c rest, cs = c :: rest ∧ c.isDigit = true := by
  cases numeral with
  | fixed fixed => exact fixed.cons
  | exponent fixed _ _ =>
    obtain ⟨c, rest, rfl, digit⟩ := fixed.cons
    exact ⟨c, _, rfl, digit⟩

theorem IsNumeral.chars {cs : List Char} (numeral : IsNumeral cs) :
    ∀ c ∈ cs, c.isDigit = true ∨ c ∈ ['.', 'e', '+', '-'] := by
  have fixedPart {ds : List Char} (fixed : IsFixed ds) :
      ∀ c ∈ ds, c.isDigit = true ∨ c ∈ ['.', 'e', '+', '-'] := by
    intro c member
    rcases fixed.digit_or_point c member with digit | rfl
    · exact .inl digit
    · exact .inr (by decide)
  cases numeral with
  | fixed fixed => exact fixedPart fixed
  | @exponent ds es sign fixed signed run =>
    refine List.forall_mem_append.mpr ⟨fixedPart fixed, List.forall_mem_cons.mpr ⟨.inr (by decide),
      List.forall_mem_cons.mpr ⟨?_, fun c member => .inl (run.2 c member)⟩⟩⟩
    rcases signed with rfl | rfl
    · exact .inr (by decide)
    · exact .inr (by decide)

namespace Pattern

/- The preferred match of a sequence. -/

theorem remainder?_seq_of {p q : Pattern} {text middle rest : List Char}
    (first : p.remainder? text = some middle) (second : q.remainder? middle = some rest) :
    (seq p q).remainder? text = some rest := by
  unfold remainder? at first second ⊢
  rw [remainders]
  cases found : p.remainders text with
  | nil =>
    rw [found] at first
    cases first
  | cons head more =>
    rw [found] at first
    cases first
    rw [List.flatMap_cons, List.head?_append, second]
    rfl

theorem remainder?_optional_some {p : Pattern} {text rest : List Char}
    (taken : p.remainder? text = some rest) : (optional p).remainder? text = some rest := by
  unfold remainder? at taken ⊢
  rw [remainders, List.head?_append, taken]
  rfl

theorem remainder?_optional_none {p : Pattern} {text : List Char}
    (never : p.remainders text = []) : (optional p).remainder? text = some text := by
  unfold remainder?
  rw [remainders, never]
  rfl

theorem remainder?_char {set : CharSet} {c : Char} (holds : set.contains c = true)
    (cs : List Char) : (char set).remainder? (c :: cs) = some cs := by
  simp [remainder?, remainders, holds]

theorem remainder?_empty (text : List Char) : empty.remainder? text = some text := rfl

theorem remainders_seq_none {p q : Pattern} {text : List Char} (never : p.remainders text = []) :
    (seq p q).remainders text = [] := by
  rw [remainders, never]
  rfl

def NoDigit (rest : List Char) : Prop := ∀ c ∈ rest.head?, CharSet.digit.contains c = false

theorem dropWhile_noDigit {rest : List Char} (stops : NoDigit rest) :
    rest.dropWhile CharSet.digit.contains = rest := by
  cases rest with
  | nil => rfl
  | cons c cs =>
    have noDigit := stops c rfl
    exact List.dropWhile_cons_of_neg (by simp [noDigit])

theorem remainders_char_noDigit {text : List Char} (stops : NoDigit text) :
    (char .digit).remainders text = [] := by
  cases text with
  | nil => rfl
  | cons c cs => exact remainders_char_none (stops c rfl) cs

theorem remainders_digits_noDigit {text : List Char} (stops : NoDigit text) :
    digits.remainders text = [] :=
  remainders_seq_none (remainders_char_noDigit stops)

theorem remainder?_many_digit {ds rest : List Char}
    (digits : ∀ c ∈ ds, CharSet.digit.contains c = true) (stops : NoDigit rest) :
    (many (char .digit)).remainder? (ds ++ rest) = some rest := by
  rw [remainder?_many, List.dropWhile_append_of_pos digits, dropWhile_noDigit stops]

theorem remainder?_digits {ds rest : List Char} (run : IsDigits ds) (stops : NoDigit rest) :
    digits.remainder? (ds ++ rest) = some rest := by
  obtain ⟨c, more, rfl, digit⟩ := run.cons
  exact remainder?_seq_of (remainder?_char digit (more ++ rest))
    (remainder?_many_digit (fun d member => run.2 d (List.mem_cons_of_mem _ member)) stops)

/- Numbers without an exponent. -/

/-- A repetition of digits gives back the last one, if what follows cannot do without it. -/
theorem remainder?_many_digit_seq {q : Pattern} {tail rest : List Char} (stops : NoDigit tail)
    (needs : q.remainders tail = [])
    (one : ∀ c : Char, CharSet.digit.contains c = true → q.remainder? (c :: tail) = some rest)
    {ds : List Char} (run : IsDigits ds) :
    (seq (many (char .digit)) q).remainder? (ds ++ tail) = some rest := by
  unfold remainder?
  rw [remainders, remainders]
  obtain ⟨some_, digits⟩ := run
  induction ds with
  | nil => exact absurd rfl some_
  | cons c ds ih =>
    have taken : (char CharSet.digit).remainders (c :: (ds ++ tail)) = [ds ++ tail] := by
      simp [remainders, digits c List.mem_cons_self]
    have shorter : ([ds ++ tail] : List (List Char)).filter
        (·.length < (c :: (ds ++ tail)).length) = [ds ++ tail] := by
      simp
    rw [List.cons_append, List.length_cons, repeated, taken, shorter, List.flatMap_cons,
      List.flatMap_nil, List.append_nil, List.flatMap_append, List.head?_append]
    cases ds with
    | nil =>
      have last := one c (digits c List.mem_cons_self)
      have ended := remainders_many_none (remainders_char_noDigit stops)
      rw [remainders] at ended
      rw [List.nil_append, ended]
      simpa [needs, remainder?] using last
    | cons d ds =>
      rw [ih (List.cons_ne_nil _ _) fun e member => digits e (List.mem_cons_of_mem _ member)]
      rfl

theorem remainders_point_none {text : List Char} (noPoint : ∀ c ∈ text.head?, c ≠ '.') :
    (char (.one '.')).remainders text = [] := by
  cases text with
  | nil => rfl
  | cons c cs =>
    refine remainders_char_none ?_ cs
    exact beq_eq_false_iff_ne.mpr (noPoint c rfl)

theorem ne_point_of_digit {c : Char} (digit : CharSet.digit.contains c = true) : c ≠ '.' := by
  rintro rfl
  cases digit

theorem remainder?_numberThen {last : Pattern} {cs tail rest : List Char}
    (mantissa : IsMantissa cs) (stops : NoDigit tail) (noPoint : ∀ c ∈ tail.head?, c ≠ '.')
    (ends : last.remainder? tail = some rest) :
    (numberThen last).remainder? (cs ++ tail) = some rest := by
  have noMore := remainders_point_none noPoint
  unfold numberThen
  cases mantissa with
  | whole run =>
    refine remainder?_many_digit_seq stops ?_ ?_ run
    · rw [remainders, remainders, noMore, List.nil_append, List.flatMap_singleton, remainders,
        remainders_digits_noDigit stops]
      rfl
    · intro c digit
      have noPoint : (char (.one '.')).remainders (c :: tail) = [] := by
        refine remainders_point_none ?_
        intro d same
        cases same
        exact ne_point_of_digit digit
      exact remainder?_seq_of (remainder?_optional_none noPoint)
        (remainder?_seq_of (remainder?_digits (isDigits_singleton digit) stops) ends)
  | @point ds es run more =>
    have stopsPoint : NoDigit ('.' :: (es ++ tail)) := by
      intro c same
      cases same
      decide
    rw [List.append_assoc, List.cons_append]
    exact remainder?_seq_of (remainder?_many_digit run stopsPoint)
      (remainder?_seq_of (remainder?_optional_some (remainder?_char rfl _))
        (remainder?_seq_of (remainder?_digits more stops) ends))

/- Numbers with an exponent. -/

def markSet : CharSet := .either (.one 'e') (.either (.one 'E') .none)

def signSet : CharSet := .either (.one '-') (.either (.one '+') .none)

theorem contains_markSet {c : Char} : markSet.contains c = true ↔ c = 'e' ∨ c = 'E' := by
  simp [markSet, CharSet.contains]

theorem contains_signSet {c : Char} : signSet.contains c = true ↔ c = '+' ∨ c = '-' := by
  simp [signSet, CharSet.contains, or_comm]

theorem not_sign_of_digit {c : Char} (digit : CharSet.digit.contains c = true) :
    signSet.contains c = false := by
  rw [← Bool.not_eq_true, contains_signSet]
  rintro (rfl | rfl)
  · cases digit
  · cases digit

theorem remainder?_exponentThen {last : Pattern} {es tail rest : List Char}
    (exponent : IsExponent es) (stops : NoDigit tail) (ends : last.remainder? tail = some rest) :
    (exponentThen last).remainder? (es ++ tail) = some rest := by
  cases exponent with
  | plain marked run =>
    have later := remainder?_seq_of (remainder?_digits run stops) ends
    obtain ⟨d, ds, rfl, digit⟩ := run.cons
    have noSign := remainders_char_none (not_sign_of_digit digit) (ds ++ tail)
    exact remainder?_seq_of (remainder?_char (contains_markSet.mpr marked) _)
      (remainder?_seq_of (remainder?_optional_none noSign) later)
  | signed marked isSign run =>
    exact remainder?_seq_of (remainder?_char (contains_markSet.mpr marked) _)
      (remainder?_seq_of
        (remainder?_optional_some (remainder?_char (contains_signSet.mpr isSign) _))
        (remainder?_seq_of (remainder?_digits run stops) ends))

theorem remainder?_scientificThen {last : Pattern} {cs es tail rest : List Char}
    (mantissa : IsMantissa cs) (begins : ∀ c ∈ cs.head?, c ≠ '.') (exponent : IsExponent es)
    (stops : NoDigit tail) (ends : last.remainder? tail = some rest) :
    (scientificThen last).remainder? (cs ++ (es ++ tail)) = some rest := by
  have later := remainder?_exponentThen exponent stops ends
  obtain ⟨mark, more, rfl, marked⟩ := exponent.cons
  rw [List.cons_append] at later ⊢
  have stopsLetter : NoDigit (mark :: (more ++ tail)) := by
    intro c same
    cases same
    rcases marked with rfl | rfl <;> decide
  have noPoint : (CharSet.one '.').contains mark = false := by
    rcases marked with rfl | rfl <;> rfl
  cases mantissa with
  | whole whole =>
    refine remainder?_seq_of (remainder?_digits whole stopsLetter)
      (remainder?_seq_of (remainder?_optional_none ?_) later)
    exact remainders_seq_none (remainders_char_none noPoint _)
  | @point ds fs digits part =>
    have whole : IsDigits ds := by
      refine ⟨?_, digits⟩
      rintro rfl
      exact begins '.' rfl rfl
    have stopsPoint : NoDigit ('.' :: fs ++ mark :: (more ++ tail)) := by
      intro c same
      cases same
      decide
    rw [List.append_assoc]
    refine remainder?_seq_of (remainder?_digits whole stopsPoint)
      (remainder?_seq_of (remainder?_optional_some ?_) later)
    exact remainder?_seq_of (remainder?_char rfl _)
      (remainder?_seq_of (remainder?_digits part stopsLetter) (remainder?_empty _))

theorem remainders_exponentThen_none (last : Pattern) {text : List Char}
    (noLetter : ∀ c ∈ text, c ≠ 'e' ∧ c ≠ 'E') : (exponentThen last).remainders text = [] := by
  refine remainders_seq_none ?_
  cases text with
  | nil => rfl
  | cons c cs =>
    obtain ⟨small, capital⟩ := noLetter c List.mem_cons_self
    refine remainders_char_none ?_ cs
    simp [CharSet.contains, small, capital]

theorem remainders_seq_of_suffixes {p q : Pattern} {text : List Char}
    (never : ∀ rest, rest <:+ text → q.remainders rest = []) : (seq p q).remainders text = [] := by
  rw [remainders, List.flatMap_eq_nil_iff]
  intro middle member
  exact never middle (suffix_of_mem_remainders p text middle member)

theorem remainder?_scientificThen_none (last : Pattern) {text : List Char}
    (noLetter : ∀ c ∈ text, c ≠ 'e' ∧ c ≠ 'E') : (scientificThen last).remainder? text = none := by
  have never : (scientificThen last).remainders text = [] := by
    refine remainders_seq_of_suffixes fun middle first => ?_
    refine remainders_seq_of_suffixes fun rest second => ?_
    refine remainders_exponentThen_none last fun c member => ?_
    exact noLetter c ((second.trans first).subset member)
  rw [remainder?, never]
  rfl

/-- What may stand behind a number: it is taken as a whole, and nothing of it goes on with the
number. -/
structure Closes (last : Pattern) (tail : List Char) : Prop where
  noDigit : NoDigit tail
  noPoint : ∀ c ∈ tail.head?, c ≠ '.'
  noLetter : ∀ c ∈ tail, c ≠ 'e' ∧ c ≠ 'E'
  whole : last.remainder? tail = some []

theorem closes_nil {last : Pattern} (whole : last.remainder? [] = some []) : Closes last [] :=
  ⟨nofun, nofun, nofun, whole⟩

end Pattern

theorem IsFixed.no_exponent {cs : List Char} (fixed : IsFixed cs) :
    ∀ c ∈ cs, c ≠ 'e' ∧ c ≠ 'E' := by
  intro c member
  rcases fixed.digit_or_point c member with digit | rfl
  · constructor
    · rintro rfl
      cases digit
    · rintro rfl
      cases digit
  · decide

end InfixCalc
