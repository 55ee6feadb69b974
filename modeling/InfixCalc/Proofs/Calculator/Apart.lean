import InfixCalc.Pattern.Reader
import InfixCalc.Proofs.Calculator.Kept
import InfixCalc.Proofs.Scan.Equals

/-!
# Expressions and assignments

A line is an assignment just where it matches a pattern. No line that matches it is an expression:
behind the name stands an equals sign that is part of no token.
-/

namespace InfixCalc.Calculator

open InfixCalc.Number

def assignmentText : String := "\\s*([a-zA-Z][a-zA-Z0-9]*)\\s*=(?!=)\\s*(.+)$"

def blanksPattern : Pattern := .many (.char .blank)

def namePartSet : CharSet :=
  .either (.range 'a' 'z') (.either (.range 'A' 'Z') (.either (.range '0' '9') .none))

/-- The expression of an assignment, behind the equals sign. -/
def valuePattern : Pattern :=
  .seq blanksPattern (.seq (.seq (.atLeastOnce (.char .any)) .empty) (.seq .atEnd .empty))

def namePattern : Pattern :=
  .seq (.char .letter) (.seq (.many (.char namePartSet)) .empty)

def equalsPattern : Pattern := .seq (.char (.one '=')) .empty

/-- An equals sign without another one behind it, and what is assigned. -/
def assigningPattern : Pattern :=
  .seq (.char (.one '=')) (.seq (.ahead false equalsPattern) valuePattern)

def assignmentPattern : Pattern :=
  .seq blanksPattern (.seq namePattern (.seq blanksPattern assigningPattern))

/- The characters of a name. -/

theorem isNameStart_iff {c : Char} :
    isNameStart c = true ↔ CharSet.letter.contains c = true := by
  simp only [isNameStart, Char.isAlpha, Char.isUpper, Char.isLower, CharSet.letter,
    CharSet.contains, Bool.or_eq_true, Bool.and_eq_true, decide_eq_true_eq, Bool.or_false]
  exact or_comm

theorem isNamePart_iff {c : Char} :
    isNamePart c = true ↔ namePartSet.contains c = true := by
  simp only [isNamePart, Char.isAlpha, Char.isUpper, Char.isLower, Char.isDigit, namePartSet,
    CharSet.contains, Bool.or_eq_true, Bool.and_eq_true, decide_eq_true_eq, Bool.or_false]
  rw [or_assoc, or_left_comm]
  exact Iff.rfl

theorem not_isBlank_of_isNameStart {c : Char} (starts : isNameStart c = true) :
    Text.isBlank c = false :=
  not_isBlank_of_letter (isNameStart_iff.mp starts)

theorem not_isNamePart_of_isBlank {c : Char} (blank : Text.isBlank c = true) :
    isNamePart c = false := by
  rw [← Bool.not_eq_true]
  intro part
  rcases Bool.or_eq_true _ _ ▸ part with alpha | digit
  · exact Bool.noConfusion ((not_isBlank_of_isNameStart alpha).symm.trans blank)
  · exact Bool.noConfusion ((Text.isDigit_of_isBlank blank).symm.trans (digit_contains digit))

/- Lines with a name in front of an equals sign. -/

/-- A name, with blanks on both sides. -/
def IsTarget (front : List Char) : Prop :=
  ∃ blanks c part space, front = blanks ++ c :: (part ++ space) ∧
    (∀ x ∈ blanks, Text.isBlank x = true) ∧ isNameStart c = true ∧
    (∀ x ∈ part, isNamePart x = true) ∧ ∀ x ∈ space, Text.isBlank x = true

/-- A line with a name in front of an equals sign, and no other equals sign behind that one. -/
structure Targets (text behind : List Char) : Prop where
  front : ∃ front, IsTarget front ∧ text = front ++ '=' :: behind
  single : behind.head? ≠ some '='

theorem Targets.hasLoneEquals {text behind : List Char} (targets : Targets text behind) :
    HasLoneEquals text := by
  obtain ⟨⟨_, ⟨blanks, c, part, space, rfl, blank, starts, parts, spaces⟩, rfl⟩, single⟩ := targets
  refine ⟨_, behind, rfl, ?_, single⟩
  have first : isNamePart c = true := by
    rw [isNamePart, show c.isAlpha = true from starts, Bool.true_or]
  exact List.forall_mem_append.mpr ⟨fun x member => .inl (blank x member),
    List.forall_mem_cons.mpr ⟨.inr first, List.forall_mem_append.mpr
      ⟨fun x member => .inr (parts x member), fun x member => .inl (spaces x member)⟩⟩⟩

theorem Targets.ofLine? {line : String} {behind : List Char}
    (targets : Targets line.toList behind) :
    (Assignment.ofLine? line).isSome = (assigned? behind).isSome := by
  obtain ⟨⟨_, ⟨blanks, c, part, space, rfl, blank, starts, parts, spaces⟩, whole⟩, single⟩ :=
    targets
  have trimmed : Text.trimStart line.toList = c :: (part ++ (space ++ '=' :: behind)) := by
    rw [whole, Text.trimStart, List.append_assoc, List.dropWhile_append_of_pos blank,
      List.cons_append, List.append_assoc]
    exact List.dropWhile_cons_of_neg (by simp [not_isBlank_of_isNameStart starts])
  have stops : (space ++ '=' :: behind).dropWhile isNamePart = space ++ '=' :: behind := by
    cases space with
    | nil => rfl
    | cons d space =>
      have ends := not_isNamePart_of_isBlank (spaces d List.mem_cons_self)
      exact List.dropWhile_cons_of_neg (by simp [ends])
  have left : Text.trimStart ((part ++ (space ++ '=' :: behind)).dropWhile isNamePart) =
      '=' :: behind := by
    rw [List.dropWhile_append_of_pos parts, stops, Text.trimStart,
      List.dropWhile_append_of_pos spaces]
    rfl
  unfold Assignment.ofLine?
  rw [trimmed]
  simp only [starts, if_true, left]
  split
  · rename_i other same
    obtain ⟨_, rfl⟩ := List.cons.inj same
    exact absurd rfl single
  · rename_i other _ same
    obtain ⟨_, rfl⟩ := List.cons.inj same
    exact Option.isSome_map
  · rename_i never
    exact absurd rfl (never behind)

theorem exists_targets_of_ofLine? {line : String}
    (given : (Assignment.ofLine? line).isSome = true) :
    ∃ behind, Targets line.toList behind := by
  unfold Assignment.ofLine? at given
  split at given
  · cases given
  · rename_i c rest trimmed
    split at given
    · rename_i starts
      have whole : line.toList = line.toList.takeWhile Text.isBlank ++
          c :: (rest.takeWhile isNamePart ++
            ((rest.dropWhile isNamePart).takeWhile Text.isBlank ++
              Text.trimStart (rest.dropWhile isNamePart))) := by
        rw [Text.trimStart, List.takeWhile_append_dropWhile, List.takeWhile_append_dropWhile,
          ← trimmed, Text.trimStart, List.takeWhile_append_dropWhile]
      have target : IsTarget (line.toList.takeWhile Text.isBlank ++
          c :: (rest.takeWhile isNamePart ++ (rest.dropWhile isNamePart).takeWhile Text.isBlank)) :=
        ⟨_, c, _, _, rfl, fun _ member => List.mem_takeWhile_imp member, starts,
          fun _ member => List.mem_takeWhile_imp member,
          fun _ member => List.mem_takeWhile_imp member⟩
      split at given
      · cases given
      · rename_i behind noMore same
        refine ⟨behind, ⟨_, target, ?_⟩, ?_⟩
        · rw [same] at whole
          simpa using whole
        · intro first
          obtain ⟨more, rfl⟩ := List.head?_eq_some_iff.mp first
          exact noMore more rfl
      · cases given
    · cases given

/- The pattern. -/

theorem mem_remainders_blanks {text rest : List Char} :
    rest ∈ blanksPattern.remainders text ↔
      ∃ blanks, (∀ x ∈ blanks, Text.isBlank x = true) ∧ text = blanks ++ rest :=
  Pattern.mem_remainders_many

theorem matchesStart_equals {text : List Char} :
    equalsPattern.matchesStart text = true ↔ text.head? = some '=' := by
  rw [Pattern.matchesStart_iff, List.head?_eq_some_iff]
  refine exists_congr fun rest => ?_
  unfold equalsPattern
  simp only [Pattern.mem_remainders_seq, Pattern.mem_remainders_one, Pattern.mem_remainders_empty]
  constructor
  · rintro ⟨_, rfl, rfl⟩
    rfl
  · exact fun same => ⟨rest, same, rfl⟩

theorem mem_remainders_name {text rest : List Char} :
    rest ∈ namePattern.remainders text ↔
      ∃ c part, text = c :: (part ++ rest) ∧ isNameStart c = true ∧
        ∀ x ∈ part, isNamePart x = true := by
  unfold namePattern
  simp only [Pattern.mem_remainders_seq, Pattern.mem_remainders_char, Pattern.mem_remainders_many,
    Pattern.mem_remainders_empty, ← isNameStart_iff, ← isNamePart_iff]
  constructor
  · rintro ⟨_, ⟨c, starts, rfl⟩, _, ⟨part, parts, rfl⟩, rfl⟩
    exact ⟨c, part, rfl, starts, parts⟩
  · rintro ⟨c, part, rfl, starts, parts⟩
    exact ⟨_, ⟨c, starts, rfl⟩, _, ⟨part, parts, rfl⟩, rfl⟩

theorem mem_remainders_assigning {text rest : List Char} :
    rest ∈ assigningPattern.remainders text ↔
      ∃ behind, text = '=' :: behind ∧ behind.head? ≠ some '=' ∧
        rest ∈ valuePattern.remainders behind := by
  unfold assigningPattern
  simp only [Pattern.mem_remainders_seq, Pattern.mem_remainders_one, Pattern.mem_remainders_ahead]
  refine exists_congr fun behind => and_congr_right fun _ => ?_
  rw [← Bool.not_eq_true, matchesStart_equals]
  constructor
  · rintro ⟨_, ⟨single, rfl⟩, value⟩
    exact ⟨single, value⟩
  · rintro ⟨single, value⟩
    exact ⟨behind, ⟨single, rfl⟩, value⟩

theorem matchesStart_assignment {text : List Char} :
    assignmentPattern.matchesStart text = true ↔
      ∃ behind, Targets text behind ∧ valuePattern.matchesStart behind = true := by
  unfold assignmentPattern
  simp only [Pattern.matchesStart_iff, Pattern.mem_remainders_seq, mem_remainders_blanks,
    mem_remainders_name, mem_remainders_assigning]
  constructor
  · rintro ⟨rest, _, ⟨blanks, blank, rfl⟩, _, ⟨c, part, rfl, starts, parts⟩, _,
      ⟨space, spaces, rfl⟩, behind, rfl, single, value⟩
    exact ⟨behind, ⟨⟨_, ⟨blanks, c, part, space, rfl, blank, starts, parts, spaces⟩, by simp⟩,
      single⟩, rest, value⟩
  · rintro ⟨behind, ⟨⟨_, ⟨blanks, c, part, space, rfl, blank, starts, parts, spaces⟩, rfl⟩,
      single⟩, rest, value⟩
    exact ⟨rest, _, ⟨blanks, blank, by simp⟩, _, ⟨c, part, rfl, starts, parts⟩, _,
      ⟨space, spaces, rfl⟩, behind, rfl, single, value⟩

/- The expression of an assignment. -/

/-- Blanks, a line that is not empty, and perhaps its end. -/
def IsValue (behind : List Char) : Prop :=
  ∃ blanks line tail, behind = blanks ++ (line ++ tail) ∧
    (∀ x ∈ blanks, Text.isBlank x = true) ∧ line ≠ [] ∧ (∀ x ∈ line, x ≠ '\n') ∧
    (tail = [] ∨ tail = ['\n'])

theorem matchesStart_value {behind : List Char} :
    valuePattern.matchesStart behind = true ↔ IsValue behind := by
  unfold valuePattern
  simp only [Pattern.matchesStart_iff, Pattern.mem_remainders_seq, mem_remainders_blanks,
    Pattern.mem_remainders_atLeastOnce, Pattern.mem_remainders_empty, Pattern.mem_remainders_atEnd]
  constructor
  · rintro ⟨_, _, ⟨blanks, blank, rfl⟩, _, ⟨_, ⟨line, some_, inLine, rfl⟩, rfl⟩, _,
      ⟨ends, rfl⟩, rfl⟩
    exact ⟨blanks, line, _, rfl, blank, some_, fun x member => bne_iff_ne.mp (inLine x member),
      ends⟩
  · rintro ⟨blanks, line, tail, rfl, blank, some_, inLine, ends⟩
    exact ⟨tail, _, ⟨blanks, blank, rfl⟩, _, ⟨_, ⟨line, some_,
      fun x member => bne_iff_ne.mpr (inLine x member), rfl⟩, rfl⟩, _, ⟨ends, rfl⟩, rfl⟩

/-- Of nothing but blanks, the last one that is no line break is assigned. -/
theorem isValue_of_blanks {before tail : List Char} {c : Char}
    (blank : ∀ x ∈ before ++ c :: tail, Text.isBlank x = true) (other : c ≠ '\n')
    (ends : tail = [] ∨ tail = ['\n']) : IsValue (before ++ c :: tail) := by
  refine ⟨before, [c], tail, rfl, (List.forall_mem_append.mp blank).1, List.cons_ne_nil _ _, ?_,
    ends⟩
  exact List.forall_mem_singleton.mpr other

theorem exists_tail_of_singleLine? {text line : List Char} (given : singleLine? text = some line) :
    ∃ tail, line ++ tail = text ∧ line ≠ [] ∧ (∀ x ∈ line, x ≠ '\n') ∧
      (tail = [] ∨ tail = ['\n']) := by
  unfold singleLine? at given
  simp only at given
  split at given
  · cases given
  · rename_i some_
    split at given
    · rename_i ends
      cases given
      refine ⟨text.dropWhile (· != '\n'), List.takeWhile_append_dropWhile, ?_, ?_, ?_⟩
      · exact fun none => some_ (List.isEmpty_iff.mpr none)
      · intro x member
        have keeps := List.mem_takeWhile_imp member
        exact bne_iff_ne.mp keeps
      · rwa [Bool.or_eq_true, List.isEmpty_iff, beq_iff_eq] at ends
    · cases given

theorem isValue_of_assigned? {behind : List Char} (given : (assigned? behind).isSome = true) :
    IsValue behind := by
  unfold assigned? at given
  split at given
  · rename_i nothing
    have blank : ∀ x ∈ behind, Text.isBlank x = true := List.dropWhile_eq_nil_iff.mp nothing
    split at given
    · rename_i c more reversed
      split at given
      · cases given
      · rename_i other
        rw [List.reverse_eq_cons_iff, List.reverse_cons, List.append_assoc] at reversed
        subst reversed
        exact isValue_of_blanks blank (fun same => other (beq_iff_eq.mpr same)) (.inr rfl)
    · rename_i c more _ reversed
      split at given
      · cases given
      · rename_i other
        rw [List.reverse_eq_cons_iff] at reversed
        subst reversed
        exact isValue_of_blanks blank (fun same => other (beq_iff_eq.mpr same)) (.inl rfl)
    · cases given
  · obtain ⟨line, found⟩ := Option.isSome_iff_exists.mp given
    obtain ⟨tail, trimmed, some_, inLine, ends⟩ := exists_tail_of_singleLine? found
    refine ⟨behind.takeWhile Text.isBlank, line, tail, ?_,
      fun _ member => List.mem_takeWhile_imp member, some_, inLine, ends⟩
    rw [trimmed]
    exact List.takeWhile_append_dropWhile.symm

theorem singleLine?_append {line tail : List Char} (some_ : line ≠ [])
    (inLine : ∀ x ∈ line, x ≠ '\n') (ends : tail = [] ∨ tail = ['\n']) :
    singleLine? (line ++ tail) = some line := by
  have keeps : ∀ x ∈ line, (x != '\n') = true := fun x member => bne_iff_ne.mpr (inLine x member)
  unfold singleLine?
  rw [List.takeWhile_append_of_pos keeps, List.dropWhile_append_of_pos keeps]
  rcases ends with rfl | rfl
  · simp [some_]
  · simp [some_]

theorem assigned?_of_isValue {behind : List Char} (value : IsValue behind) :
    (assigned? behind).isSome = true := by
  obtain ⟨blanks, line, tail, rfl, blank, some_, inLine, ends⟩ := value
  have trimmed : Text.trimStart (blanks ++ (line ++ tail)) = Text.trimStart (line ++ tail) :=
    List.dropWhile_append_of_pos blank
  unfold assigned?
  rw [trimmed]
  rcases Pattern.dropWhile_append_cases Text.isBlank line tail with gone | ⟨left, stays⟩
  · have nothing : Text.trimStart (line ++ tail) = [] := by
      rw [Text.trimStart, List.dropWhile_append, gone]
      rcases ends with rfl | rfl
      · rfl
      · rfl
    rcases List.eq_nil_or_concat line with none | ⟨before, c, rfl⟩
    · exact absurd none some_
    · have other : c ≠ '\n' := inLine c (by simp)
      rw [nothing]
      rcases ends with rfl | rfl
      · simp [other]
      · simp [other]
  · have kept : ∀ x ∈ line.dropWhile Text.isBlank, x ≠ '\n' :=
      fun x member => inLine x ((List.dropWhile_suffix _).subset member)
    rw [Text.trimStart, stays]
    split
    · rename_i nothing
      exact absurd (List.append_eq_nil_iff.mp nothing).1 left
    · rw [singleLine?_append left kept ends]
      rfl

theorem isSome_assigned? {behind : List Char} :
    (assigned? behind).isSome = true ↔ valuePattern.matchesStart behind = true := by
  rw [matchesStart_value]
  exact ⟨isValue_of_assigned?, assigned?_of_isValue⟩

/-- A line is an assignment just where it matches the pattern. -/
theorem isSome_ofLine? {line : String} : (Assignment.ofLine? line).isSome = true ↔
    assignmentPattern.matchesStart line.toList = true := by
  rw [matchesStart_assignment]
  constructor
  · intro given
    obtain ⟨behind, targets⟩ := exists_targets_of_ofLine? given
    rw [targets.ofLine?] at given
    exact ⟨behind, targets, isSome_assigned?.mp given⟩
  · rintro ⟨behind, targets, value⟩
    rw [targets.ofLine?]
    exact isSome_assigned?.mpr value

/- Expressions. -/

theorem assign_of_unmatched {line : String}
    (unmatched : assignmentPattern.matchesStart line.toList = false) (c : Calculator) :
    c.assign line = (.ok none, c) := by
  have none_ : Assignment.ofLine? line = none := by
    rw [← Option.not_isSome_iff_eq_none, isSome_ofLine?, unmatched]
    exact Bool.false_ne_true
  unfold assign
  rw [none_]

theorem comparesByEquals_real :
    (Real.wordbook : Wordbook Seed Float).vocabulary.ComparesByEquals := by
  have spelled : ∀ label ∈ Real.operatorSpellings.map (·.1) ++ Real.callSpellings,
      '=' ∈ label.toList → label ∈ equalsLabels := by decide
  exact fun label member => spelled label (Wordbook.WellSpelled.mem_labels member)

theorem root_error_of_assignment {scanner : Scanner Seed Float} (ready : scanner.Ready)
    (compares : scanner.vocabulary.ComparesByEquals) {line : String}
    (matched : assignmentPattern.matchesStart line.toList = true) (limit : Option Nat) :
    ∃ cause, scanner.root limit line = .error cause ∧ cause.IsLexical := by
  obtain ⟨behind, targets, _⟩ := matchesStart_assignment.mp matched
  obtain ⟨cause, refused, lexical⟩ :=
    ready.refuses_of_hasLoneEquals compares targets.hasLoneEquals
  exact ⟨cause, bind_eq_error_iff.mpr (.inl refused), lexical⟩

/-- A line that matches the pattern of assignments is refused where an expression is expected, since
it cannot be cut into tokens. So a line that is built makes no assignment: nothing is evaluated for
it, and the calculator stays as it is. -/
theorem build_error_of_assignment {cacheSize maxDepth : Setting} {first b : Builder Seed Float}
    (made : Real.builder cacheSize maxDepth = .ok first) (used : first.Used b) (line : String) :
    (assignmentPattern.matchesStart line.toList = true →
      ∃ cause, (b.build line).1 = .error cause ∧ cause.IsLexical) ∧
    ∀ expression, (b.build line).1 = .ok expression →
      ∀ c : Calculator, c.assign line = (.ok none, c) := by
  obtain ⟨consistent, words, standard, _⟩ := Real.builder_eq_ok made
  obtain ⟨kept, config, vocabulary⟩ := used.kept consistent
  have ready : (Scanner.make b.vocabulary b.config).Ready := ⟨config ▸ standard, rfl, kept.regular⟩
  have compares : b.vocabulary.ComparesByEquals := by
    rw [vocabulary, words]
    exact comparesByEquals_real
  have refused (matched : assignmentPattern.matchesStart line.toList = true) :
      ∃ cause, (b.build line).1 = .error cause ∧ cause.IsLexical := by
    obtain ⟨cause, failed, lexical⟩ := root_error_of_assignment ready compares matched
      b.config.maxDepth
    exact ⟨cause, kept.build_error failed, lexical⟩
  refine ⟨refused, fun expression built c => assign_of_unmatched ?_ c⟩
  rw [← Bool.not_eq_true]
  intro matched
  obtain ⟨cause, failed, _⟩ := refused matched
  cases built.symm.trans failed

/-- A calculator that has just been made over a builder without a cache. -/
def untouched : Calculator := ofBuilder Real.seedBuilder

/-- `x = 2` is no expression, and `2 * x` is no assignment. -/
theorem build_error_of_assignment_named :
    (∃ cause, (Real.seedBuilder.build "x = 2").1 = .error cause ∧ cause.IsLexical) ∧
      (∃ expression, (Real.seedBuilder.build "2 * x").1 = .ok expression) ∧
      untouched.assign "2 * x" = (.ok none, untouched) := by
  have matched : assignmentPattern.matchesStart "x = 2".toList = true := by decide +kernel
  obtain ⟨refused, _⟩ := build_error_of_assignment Real.made_seedBuilder .new "x = 2"
  obtain ⟨e, built, _⟩ := Real.exists_build_doubled
  obtain ⟨_, apart⟩ := build_error_of_assignment Real.made_seedBuilder .new "2 * x"
  exact ⟨refused matched, ⟨e, built⟩, apart e built untouched⟩

end InfixCalc.Calculator
