import Mathlib.Data.List.Basic
import InfixCalc.Config
import InfixCalc.Vocabulary.Basic

/-!
# Patterns that stay in a word

Blanks, parentheses and commas break words. A pattern that accepts none of these characters, and
does not look ahead, matches a text before a break as it matches the text alone.
-/

namespace InfixCalc

/-- Whether the character cannot stand in a label. -/
def breaksWord (c : Char) : Bool := Text.isBlank c || c == '(' || c == ')' || c == ','

def Breaks (rest : List Char) : Prop := ∀ c ∈ rest.head?, breaksWord c = true

theorem breaks_nil : Breaks [] := by simp [Breaks]

theorem breaks_cons {c : Char} {rest : List Char} : Breaks (c :: rest) ↔ breaksWord c = true := by
  simp [Breaks]

theorem isValidLabel_iff {label : String} :
    isValidLabel label = true ↔
      label.toList ≠ [] ∧ ∀ c ∈ label.toList, breaksWord c = false := by
  simp only [isValidLabel, breaksWord, Bool.and_eq_true, Bool.not_eq_true', List.all_eq_true,
    List.isEmpty_eq_false_iff]

namespace Pattern

/-- Every character that the pattern accepts stands within a word, and the pattern does not look
further than it matches. -/
def StaysInWord : Pattern → Prop
  | .empty => True
  | .char set => ∀ c, breaksWord c = true → set.contains c = false
  | .seq first second | .alt first second => first.StaysInWord ∧ second.StaysInWord
  | .optional inner | .many inner => inner.StaysInWord
  | .ahead _ _ | .atEnd => False

theorem repeated_append {once : List Char → List (List Char)} {rest : List Char}
    (local_ : ∀ text, once (text ++ rest) = (once text).map (· ++ rest)) (fuel more : Nat)
    (text : List Char) (enough : text.length ≤ fuel) (enoughMore : (text ++ rest).length ≤ more) :
    repeated once more (text ++ rest) = (repeated once fuel text).map (· ++ rest) := by
  have shorter (t : List Char) :
      decide ((t ++ rest).length < (text ++ rest).length) = decide (t.length < text.length) := by
    simp
  induction fuel generalizing more text with
  | zero =>
    have empty : text = [] := List.length_eq_zero_iff.mp (Nat.le_zero.mp enough)
    subst empty
    cases more with
    | zero => simp [repeated]
    | succ more =>
      have none_ : ((once ([] ++ rest)).filter (·.length < ([] ++ rest).length)) = [] := by
        rw [local_, List.filter_map]
        simp
      simp only [repeated, none_]
      rfl
  | succ fuel ih =>
    cases more with
    | zero =>
      obtain ⟨rfl, rfl⟩ : text = [] ∧ rest = [] := by simpa using enoughMore
      simp [repeated]
    | succ more =>
      have rounds : ((once (text ++ rest)).filter (·.length < (text ++ rest).length)) =
          ((once text).filter (·.length < text.length)).map (· ++ rest) := by
        rw [local_, List.filter_map]
        congr 1
        exact List.filter_congr fun t _ => shorter t
      simp only [repeated, rounds, List.flatMap_map, List.map_append, List.map_flatMap,
        List.map_cons, List.map_nil]
      congr 1
      refine List.flatMap_congr ?_
      intro t member
      have smaller : t.length < text.length := by
        simpa using (List.mem_filter.mp member).2
      refine ih more t (by omega) ?_ fun u => by simp
      simp only [List.length_append] at enoughMore ⊢
      omega

/-- A match before a break is a match of the text alone. -/
theorem remainders_append {p : Pattern} (stays : p.StaysInWord) {rest : List Char}
    (breaks : Breaks rest) (text : List Char) :
    p.remainders (text ++ rest) = (p.remainders text).map (· ++ rest) := by
  induction p generalizing text with
  | empty => rfl
  | char set =>
    cases text with
    | nil =>
      cases rest with
      | nil => rfl
      | cons c rest =>
        have never : set.contains c = false := stays c (breaks_cons.mp breaks)
        simp [remainders, never]
    | cons c cs =>
      simp only [List.cons_append, remainders]
      split
      · rfl
      · rfl
  | seq first second firstIh secondIh =>
    simp only [remainders, firstIh stays.1, List.flatMap_map, List.map_flatMap,
      secondIh stays.2]
  | alt first second firstIh secondIh =>
    simp only [remainders, firstIh stays.1, secondIh stays.2, List.map_append]
  | optional inner ih => simp [remainders, ih stays]
  | many inner ih =>
    exact repeated_append (ih stays) _ _ text (Nat.le_refl _) (Nat.le_refl _)
  | ahead expected inner => cases stays
  | atEnd => cases stays

theorem split?_append {p : Pattern} (stays : p.StaysInWord) {rest : List Char}
    (breaks : Breaks rest) (text : List Char) :
    p.split? (text ++ rest) = (p.split? text).map fun match_ => (match_.1, match_.2 ++ rest) := by
  unfold split? remainder?
  rw [remainders_append stays breaks, List.head?_map]
  cases found : (p.remainders text).head? with
  | none => rfl
  | some left =>
    have short : left.length ≤ text.length :=
      (suffix_of_mem_remainders p text left (List.mem_of_head? found)).length_le
    have taken : (text ++ rest).length - (left ++ rest).length = text.length - left.length := by
      simp only [List.length_append]
      omega
    simp only [Option.map_some, taken]
    rw [List.take_append_of_le_length (Nat.sub_le _ _)]

theorem mem_remainders_of_split? {p : Pattern} {text taken left : List Char}
    (found : p.split? text = some (taken, left)) : left ∈ p.remainders text := by
  obtain ⟨_, first, same⟩ := Option.map_eq_some_iff.mp found
  cases same
  exact List.mem_of_head? first

/-- What is taken stands in a word: the match of the text before a break ends before it. -/
theorem inWord_of_split? {p : Pattern} (stays : p.StaysInWord) {text taken left : List Char}
    (found : p.split? text = some (taken, left)) : ∀ c ∈ taken, breaksWord c = false := by
  intro c member
  rw [← Bool.not_eq_true]
  intro break_
  obtain ⟨before, behind, rfl⟩ := List.append_of_mem member
  have matched := mem_remainders_of_split? found
  rw [← append_eq_of_split? found, List.append_assoc, List.cons_append,
    remainders_append stays (breaks_cons.mpr break_)] at matched
  obtain ⟨shorter, _, longer⟩ := List.mem_map.mp matched
  have sizes := congrArg List.length longer
  simp only [List.length_append, List.length_cons] at sizes
  omega

end Pattern
end InfixCalc
