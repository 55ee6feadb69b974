import InfixCalc.Calculator.Assignment
import InfixCalc.Proofs.Pattern.Match
import InfixCalc.Proofs.Scan.Segment

/-!
# Lone equals signs

No token has an equals sign but the comparisons. So a text whose first equals sign follows a name,
and is not followed by another one, cannot be cut into tokens, whatever else stands in it.
-/

namespace InfixCalc

variable {σ α : Type}

def equalsLabels : List String := ["==", "<=", ">=", "!="]

/-- The labels with an equals sign are comparisons. -/
def Vocabulary.ComparesByEquals (v : Vocabulary σ α) : Prop :=
  ∀ label ∈ v.labels, '=' ∈ label.toList → label ∈ equalsLabels

/-- Blanks, letters and digits come first, and then an equals sign without another one behind. -/
def HasLoneEquals (text : List Char) : Prop :=
  ∃ front behind, text = front ++ '=' :: behind ∧
    (∀ c ∈ front, Text.isBlank c = true ∨ Calculator.isNamePart c = true) ∧
    behind.head? ≠ some '='

theorem not_hasLoneEquals_nil : ¬ HasLoneEquals [] := by
  rintro ⟨front, behind, whole, _⟩
  simp at whole

theorem HasLoneEquals.of_cons {c : Char} {text : List Char} (lone : HasLoneEquals (c :: text))
    (other : c ≠ '=') : HasLoneEquals text := by
  obtain ⟨front, behind, whole, plain, single⟩ := lone
  cases front with
  | nil => exact absurd (List.cons.inj whole).1 other
  | cons d front =>
    exact ⟨front, behind, (List.cons.inj whole).2, (List.forall_mem_cons.mp plain).2, single⟩

/-- The sign is still there when some text without it is taken away. -/
theorem HasLoneEquals.of_append {taken rest : List Char} (lone : HasLoneEquals (taken ++ rest))
    (free : '=' ∉ taken) : HasLoneEquals rest := by
  induction taken with
  | nil => exact lone
  | cons c taken ih =>
    have other : c ≠ '=' := fun same => free (same ▸ List.mem_cons_self)
    exact ih (lone.of_cons other) fun later => free (List.mem_cons_of_mem _ later)

theorem toList_of_mem_equalsLabels {label : String} (among : label ∈ equalsLabels) :
    ∃ c, label.toList = [c, '='] ∧ Text.isBlank c = false ∧ Calculator.isNamePart c = false := by
  simp only [equalsLabels, List.mem_cons, List.not_mem_nil, or_false] at among
  rcases among with rfl | rfl | rfl | rfl
  · exact ⟨'=', rfl, rfl, rfl⟩
  · exact ⟨'<', rfl, rfl, rfl⟩
  · exact ⟨'>', rfl, rfl, rfl⟩
  · exact ⟨'!', rfl, rfl, rfl⟩

/-- The equals sign of a comparison is no lone one: it follows neither a blank nor a name, or it is
followed by another one. -/
theorem not_hasLoneEquals_of_comparison {label : String} (among : label ∈ equalsLabels)
    (rest : List Char) : ¬ HasLoneEquals (label.toList ++ rest) := by
  obtain ⟨c, shape, noBlank, noName⟩ := toList_of_mem_equalsLabels among
  rw [shape]
  rintro ⟨front, behind, whole, plain, single⟩
  cases front with
  | nil =>
    obtain ⟨_, left⟩ := List.cons.inj whole
    rw [← left] at single
    exact single rfl
  | cons d front =>
    obtain ⟨rfl, _⟩ := List.cons.inj whole
    rcases plain c List.mem_cons_self with blank | name
    · exact Bool.noConfusion (noBlank.symm.trans blank)
    · exact Bool.noConfusion (noName.symm.trans name)

namespace Pattern

theorem digits_avoids_equals : digits.Avoids '=' := ⟨rfl, rfl⟩

theorem number_avoids_equals : number.Avoids '=' := ⟨rfl, rfl, digits_avoids_equals, trivial⟩

theorem scientific_avoids_equals : scientific.Avoids '=' :=
  ⟨digits_avoids_equals, ⟨rfl, digits_avoids_equals, trivial⟩, rfl, rfl, digits_avoids_equals,
    trivial⟩

theorem name_avoids_equals : name.Avoids '=' := ⟨⟨rfl, rfl⟩, rfl, rfl, trivial⟩

end Pattern

/-- The patterns of a standard configuration take no equals sign. -/
theorem Config.IsStandard.avoids_equals {config : Config α} (standard : config.IsStandard) :
    ∀ m ∈ config.matchers, ∃ p : Pattern, m = p.matcher ∧ p.Avoids '=' := by
  rw [standard.matchers_eq]
  refine List.forall_mem_map.mpr fun p member => ⟨p, rfl, ?_⟩
  simp only [List.mem_cons, List.not_mem_nil, or_false] at member
  rcases member with rfl | rfl | rfl
  · exact Pattern.name_avoids_equals
  · exact Pattern.scientific_avoids_equals
  · exact Pattern.number_avoids_equals

namespace Scanner

variable {scanner : Scanner σ α} (ready : scanner.Ready)
include ready

/-- What spells a token, or blanks, has no equals sign unless it is a comparison. -/
theorem Ready.equals_of_spells (compares : scanner.vocabulary.ComparesByEquals)
    {last token : Option (Token σ α)} {rest source : List Char}
    (spells : scanner.Spells last rest source token) :
    '=' ∉ source ∨ String.ofList source ∈ equalsLabels := by
  have word {text : List Char}
      (longest : IsLongest scanner.vocabulary (String.ofList source) text) :
      '=' ∉ source ∨ String.ofList source ∈ equalsLabels := by
    by_cases free : '=' ∉ source
    · exact .inl free
    · refine .inr (compares _ longest.registered ?_)
      rw [String.toList_ofList]
      exact not_not.mp free
  have avoids := ready.standard.avoids_equals
  cases spells with
  | blank blanks _ =>
    refine .inl fun member => ?_
    have blank := blanks _ member
    revert blank
    decide
  | separator separates =>
    refine .inl fun member => ?_
    obtain rfl := List.mem_singleton.mp member
    cases separates
  | sign signed _ _ =>
    refine .inl fun member => ?_
    obtain rfl := List.mem_singleton.mp member
    cases signed
  | call longest _ _ => exact word longest
  | operator longest _ _ _ => exact word longest
  | operand _ found _ =>
    obtain ⟨written, member, split⟩ := List.exists_of_findSome?_eq_some (found [])
    obtain ⟨p, same, free⟩ :=
      avoids written.matcher (List.mem_cons_of_mem _ (List.mem_map_of_mem member))
    rw [same] at split
    exact .inl (free.not_mem_taken split)
  | name _ found =>
    obtain ⟨p, same, free⟩ := avoids _ List.mem_cons_self
    rw [same] at found
    exact .inl (free.not_mem_taken (found []))

theorem Ready.not_cut_of_hasLoneEquals (compares : scanner.vocabulary.ComparesByEquals)
    {last : Option (Token σ α)} {pieces : List (Piece σ α)} (cut : scanner.Cut last pieces) :
    ¬ HasLoneEquals (Piece.sources pieces) := by
  induction cut with
  | nil => exact not_hasLoneEquals_nil
  | @cons last p pieces _ spells _ ih =>
    intro lone
    change HasLoneEquals (p.source ++ Piece.sources pieces) at lone
    rcases ready.equals_of_spells compares spells with free | comparison
    · exact ih (lone.of_append free)
    · rw [← String.toList_ofList (l := p.source)] at lone
      exact not_hasLoneEquals_of_comparison comparison _ lone

/-- A text with a lone equals sign behind a name cannot be scanned. -/
theorem Ready.refuses_of_hasLoneEquals (compares : scanner.vocabulary.ComparesByEquals)
    {text : String} (lone : HasLoneEquals text.toList) :
    ∃ cause, scanner.scan text = .error cause ∧ cause.IsLexical := by
  cases scanned : scanner.scan text with
  | error cause => exact ⟨cause, rfl, (ready.refuses_of_scan scanned).isLexical⟩
  | ok tokens =>
    unfold scan at scanned
    simp only at scanned
    split at scanned
    · cases scanned
    · obtain ⟨last, runs, done, _⟩ := runs_of_scanAll scanned
      obtain ⟨pieces, _, whole, cut, _⟩ := ready.exists_pieces runs done rfl
      rw [← show Piece.sources pieces = text.toList from whole] at lone
      exact absurd lone (ready.not_cut_of_hasLoneEquals compares cut)

end Scanner
end InfixCalc
