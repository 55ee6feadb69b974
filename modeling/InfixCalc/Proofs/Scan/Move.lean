import Mathlib.Data.List.DropRight
import Mathlib.Logic.Relation
import InfixCalc.Proofs.Scan.Step

/-!
# Moves of the scanner

All that one step of the scanner can do. What is scanned is never taken back, so a text whose
tokens are one operand gives that operand wherever it stands.
-/

namespace InfixCalc

variable {σ α : Type}

namespace Scanner

/-- The text goes on with neither a separator nor a sign nor a label. -/
structure Wordless (scanner : Scanner σ α) (state : State σ α) : Prop where
  more : ∃ c rest, state.rest = c :: rest ∧ Separator.ofChar? c = none ∧
    (if state.expectsSign then signLabel? c else none) = none
  noLabel : scanner.labelAt? state.rest = none

/-- What one step does to a state with some text left, and some text behind it. -/
inductive Moves (scanner : Scanner σ α) (behind : List Char) : State σ α → State σ α → Prop where
  | openParen {state : State σ α} {before : List (Token σ α)} {c : Char} {rest : List Char} :
      state.rest = c :: rest → Separator.ofChar? c = some .openParen →
      scanner.withProduct state = .ok before →
        Moves scanner behind state ⟨.separator .openParen :: before, true, rest⟩
  | separator {state : State σ α} {s : Separator} {c : Char} {rest : List Char} :
      state.rest = c :: rest → Separator.ofChar? c = some s → s ≠ .openParen →
        Moves scanner behind state ⟨.separator s :: state.tokens, s != .closeParen, rest⟩
  | sign {state : State σ α} {label : String} {op : Operator σ α} {c : Char}
      {rest : List Char} :
      state.rest = c :: rest → state.expectsSign = true → signLabel? c = some label →
      scanner.vocabulary.marker label = .ok op →
        Moves scanner behind state ⟨.symbol (.operator op) :: state.tokens, true, rest⟩
  | call {state : State σ α} {label : List Char} {callable : Callable σ α}
      {before : List (Token σ α)} :
      (state.expectsSign = true → beginsLikeSign (String.ofList label) = false) →
      scanner.labelAt? state.rest = some label →
      scanner.vocabulary.callable? (String.ofList label) = some callable →
      scanner.withProduct state = .ok before →
        Moves scanner behind state
          ⟨.symbol (.call callable) :: before, false, state.rest.drop label.length⟩
  | before {state : State σ α} {label : List Char} {op : Operator σ α}
      {before : List (Token σ α)} :
      (state.expectsSign = true → beginsLikeSign (String.ofList label) = false) →
      scanner.labelAt? state.rest = some label →
      scanner.vocabulary.callable? (String.ofList label) = none →
      scanner.resolveOperator (String.ofList label) state.operandEnded = .ok op →
      op.fixity = .before → scanner.withProduct state = .ok before →
        Moves scanner behind state
          ⟨.symbol (.operator op) :: before, true, state.rest.drop label.length⟩
  | behind {state : State σ α} {label : List Char} {op : Operator σ α} :
      (state.expectsSign = true → beginsLikeSign (String.ofList label) = false) →
      scanner.labelAt? state.rest = some label →
      scanner.vocabulary.callable? (String.ofList label) = none →
      scanner.resolveOperator (String.ofList label) state.operandEnded = .ok op →
      op.fixity ≠ .before →
        Moves scanner behind state
          ⟨.symbol (.operator op) :: state.tokens, op.fixity != .after,
            state.rest.drop label.length⟩
  | operand {state : State σ α} {text rest : List Char} {value : α}
      {before : List (Token σ α)} :
      scanner.Wordless state → scanner.operandAt? behind state.rest = some (text, rest) →
      scanner.config.read (String.ofList text) = some value →
      scanner.withProduct state = .ok before →
        Moves scanner behind state ⟨.symbol (.operand value) :: before, false, rest⟩
  | name {state : State σ α} {text rest : List Char} {before : List (Token σ α)} :
      scanner.Wordless state → scanner.operandAt? behind state.rest = none →
      scanner.config.variablePattern.matcher.split? behind state.rest = some (text, rest) →
      scanner.withProduct state = .ok before →
        Moves scanner behind state ⟨.symbol (.variable (String.ofList text)) :: before, false, rest⟩
  | blank {state : State σ α} {c : Char} {rest : List Char} :
      state.rest = c :: rest → Text.isBlank c = true →
        Moves scanner behind state ⟨state.tokens, state.expectsSign, rest.dropWhile Text.isBlank⟩

theorem moves_of_scanSeparator {scanner : Scanner σ α} {state next : State σ α} {s : Separator}
    {c : Char} {behind rest : List Char} (left : state.rest = c :: rest)
    (separates : Separator.ofChar? c = some s)
    (scanned : scanner.scanSeparator state s rest = .ok next) :
    scanner.Moves behind state next := by
  unfold scanSeparator at scanned
  simp only at scanned
  split at scanned
  · rename_i opens
    subst opens
    obtain ⟨before, joined, made⟩ := bind_eq_ok_iff.mp scanned
    cases made
    exact .openParen left separates joined
  · rename_i other
    cases scanned
    exact .separator left separates other

theorem beginsLikeSign_of_labelAt? {scanner : Scanner σ α} {label rest : List Char} {c : Char}
    (found : scanner.labelAt? (c :: rest) = some label) (noSign : signLabel? c = none) :
    beginsLikeSign (String.ofList label) = false := by
  unfold labelAt? at found
  have front := List.find?_some found
  rw [beginsLikeSign, String.toList_ofList]
  cases label with
  | nil => rfl
  | cons d label =>
    have same : d = c := (List.cons_prefix_cons.mp (List.isPrefixOf_iff_prefix.mp front)).1
    simp [same, noSign]

theorem moves_of_scanLabel {scanner : Scanner σ α} {state next : State σ α}
    {behind label : List Char}
    (noSign : state.expectsSign = true → beginsLikeSign (String.ofList label) = false)
    (found : scanner.labelAt? state.rest = some label)
    (scanned : scanner.scanLabel state (String.ofList label) (state.rest.drop label.length) =
      .ok next) : scanner.Moves behind state next := by
  unfold scanLabel at scanned
  split at scanned
  · rename_i callable called
    obtain ⟨before, joined, made⟩ := bind_eq_ok_iff.mp scanned
    cases made
    exact .call noSign found called joined
  · rename_i notCalled
    obtain ⟨op, resolved, later⟩ := bind_eq_ok_iff.mp scanned
    simp only at later
    split at later
    · rename_i fixity
      obtain ⟨before, joined, made⟩ := bind_eq_ok_iff.mp later
      cases made
      have awaits : (op.fixity != .after) = true := by
        rw [fixity]
        rfl
      rw [awaits]
      exact .before noSign found notCalled resolved fixity joined
    · rename_i fixity
      cases later
      exact .behind noSign found notCalled resolved fixity

theorem moves_of_step {scanner : Scanner σ α} {state next : State σ α} {behind : List Char}
    (more : state.rest ≠ []) (steps : scanner.step behind state = .ok next) :
    scanner.Moves behind state next := by
  unfold step at steps
  split at steps
  · rename_i empty
    exact absurd empty more
  · rename_i c rest left
    split at steps
    · rename_i separates
      exact moves_of_scanSeparator left separates steps
    · rename_i noSeparator
      split at steps
      · rename_i label signed
        split at signed
        · rename_i expects
          obtain ⟨op, marked, made⟩ := bind_eq_ok_iff.mp steps
          cases made
          rw [show state.expectsSign = true from expects]
          exact .sign left expects signed marked
        · cases signed
      · rename_i noSign
        split at steps
        · rename_i label found
          refine moves_of_scanLabel ?_ found steps
          intro expects
          rw [if_pos expects] at noSign
          rw [left] at found
          exact beginsLikeSign_of_labelAt? found noSign
        · rename_i noLabel
          have wordless : scanner.Wordless state := ⟨⟨c, rest, left, noSeparator, noSign⟩, noLabel⟩
          split at steps
          · rename_i text after found
            obtain ⟨before, joined, later⟩ := bind_eq_ok_iff.mp steps
            split at later
            · rename_i value read
              cases later
              exact .operand wordless found read joined
            · cases later
          · rename_i noOperand
            split at steps
            · rename_i text after found
              obtain ⟨before, joined, made⟩ := bind_eq_ok_iff.mp steps
              cases made
              exact .name wordless noOperand found joined
            · split at steps
              · rename_i blank
                cases steps
                exact .blank left blank
              · cases steps

theorem withProduct_eq_ok {scanner : Scanner σ α} {state : State σ α} {before : List (Token σ α)}
    (joined : scanner.withProduct state = .ok before) :
    state.operandEnded = false ∧ before = state.tokens ∨
      state.operandEnded = true ∧ ∃ product,
        scanner.vocabulary.marker impliedProduct = .ok product ∧
          before = .symbol (.operator product) :: state.tokens := by
  unfold withProduct at joined
  split at joined
  · rename_i ended
    obtain ⟨product, marked, made⟩ := bind_eq_ok_iff.mp joined
    cases made
    exact .inr ⟨ended, product, marked, rfl⟩
  · rename_i notEnded
    cases joined
    exact .inl ⟨Bool.eq_false_iff.mpr notEnded, rfl⟩

/- Runs. -/

/-- What some steps do to a state, each of them taking some of the text. -/
def Runs (scanner : Scanner σ α) : State σ α → State σ α → Prop :=
  Relation.ReflTransGen fun state next =>
    (∃ behind, scanner.Moves behind state next) ∧ next.rest.length < state.rest.length

theorem runs_of_scanAll {scanner : Scanner σ α} {whole : List Char} {state : State σ α}
    {tokens : List (Token σ α)} (scanned : scanner.scanAll whole state = .ok tokens) :
    ∃ last, scanner.Runs state last ∧ last.rest = [] ∧ last.tokens.reverse = tokens := by
  fun_induction scanAll scanner whole state with
  | case1 state empty =>
    cases scanned
    exact ⟨state, .refl, List.isEmpty_iff.mp empty, rfl⟩
  | case2 state more behind cause failed => cases scanned
  | case3 state more behind next steps shorter ih =>
    obtain ⟨last, runs, done, made⟩ := ih scanned
    refine ⟨last, .head ⟨⟨_, moves_of_step ?_ steps⟩, shorter⟩ runs, done, made⟩
    intro empty
    exact more (List.isEmpty_iff.mpr empty)
  | case4 state more behind next steps notShorter cause failed => cases scanned
  | case5 state more behind next steps notShorter again stays => cases scanned

theorem suffix_of_withProduct {scanner : Scanner σ α} {state : State σ α}
    {before : List (Token σ α)} (joined : scanner.withProduct state = .ok before) :
    state.tokens <:+ before := by
  rcases withProduct_eq_ok joined with ⟨_, rfl⟩ | ⟨_, product, _, rfl⟩
  · exact List.suffix_rfl
  · exact List.suffix_cons _ _

/-- A step passes over blanks, or it puts a token behind those that are there. -/
theorem Moves.tokens_eq {scanner : Scanner σ α} {behind : List Char} {state next : State σ α}
    (moves : scanner.Moves behind state next) :
    (∃ c rest, state.rest = c :: rest ∧ Text.isBlank c = true ∧
      next = ⟨state.tokens, state.expectsSign, rest.dropWhile Text.isBlank⟩) ∨
      ∃ last before, next.tokens = last :: before ∧ state.tokens <:+ before := by
  cases moves with
  | openParen _ _ joined => exact .inr ⟨_, _, rfl, suffix_of_withProduct joined⟩
  | separator _ _ _ => exact .inr ⟨_, _, rfl, List.suffix_rfl⟩
  | sign _ _ _ _ => exact .inr ⟨_, _, rfl, List.suffix_rfl⟩
  | call _ _ _ joined => exact .inr ⟨_, _, rfl, suffix_of_withProduct joined⟩
  | before _ _ _ _ _ joined => exact .inr ⟨_, _, rfl, suffix_of_withProduct joined⟩
  | behind _ _ _ _ _ => exact .inr ⟨_, _, rfl, List.suffix_rfl⟩
  | operand _ _ _ joined => exact .inr ⟨_, _, rfl, suffix_of_withProduct joined⟩
  | name _ _ _ joined => exact .inr ⟨_, _, rfl, suffix_of_withProduct joined⟩
  | blank left blank => exact .inl ⟨_, _, left, blank, rfl⟩

theorem Runs.tokens_suffix {scanner : Scanner σ α} {state last : State σ α}
    (runs : scanner.Runs state last) : state.tokens <:+ last.tokens := by
  induction runs with
  | refl => exact List.suffix_rfl
  | tail _ advances ih =>
    obtain ⟨⟨_, moves⟩, _⟩ := advances
    rcases moves.tokens_eq with ⟨c, rest, _, _, rfl⟩ | ⟨token, before, made, front⟩
    · exact ih
    · rw [made]
      exact (ih.trans front).trans (List.suffix_cons token before)

theorem dropWhile_append_dropWhile (p : Char → Bool) (text rest : List Char) :
    (text.dropWhile p ++ rest).dropWhile p = (text ++ rest).dropWhile p := by
  rw [List.dropWhile_append, List.dropWhile_append, List.dropWhile_idempotent]

theorem Runs.blank {scanner : Scanner σ α} {state last : State σ α}
    (runs : scanner.Runs state last) (done : last.rest = []) (same : last.tokens = state.tokens) :
    state.rest.dropWhile Text.isBlank = [] := by
  induction runs using Relation.ReflTransGen.head_induction_on with
  | refl =>
    rw [done]
    rfl
  | head advances rest ih =>
    obtain ⟨⟨_, moves⟩, _⟩ := advances
    rcases moves.tokens_eq with ⟨c, text, left, blank, rfl⟩ | ⟨token, before, made, front⟩
    · have later := ih same
      rw [List.dropWhile_idempotent] at later
      rw [left, List.dropWhile_cons_of_pos blank, later]
    · have grown := (Runs.tokens_suffix rest).length_le
      have shorter := front.length_le
      rw [made, same, List.length_cons] at grown
      omega

/- Literals. -/

theorem eq_of_suffix_singleton {β : Type} {x y : β} {xs : List β} (suffix : x :: xs <:+ [y]) :
    x = y ∧ xs = [] := by
  obtain ⟨front, whole⟩ := suffix
  cases front with
  | nil => exact List.cons.inj whole
  | cons z front => simp at whole

section Ready

variable {scanner : Scanner σ α} (ready : scanner.Ready)
include ready

theorem Ready.operandAt?_append {behind text taken left rest : List Char} (breaks : Breaks rest)
    (found : scanner.operandAt? behind text = some (taken, left)) (other : List Char) :
    scanner.operandAt? other (text ++ rest) = some (taken, left ++ rest) := by
  rw [ready.operandAt?_eq] at found ⊢
  rw [Pattern.split?_append Pattern.scientific_staysInWord breaks,
    Pattern.split?_append Pattern.number_staysInWord breaks]
  cases scientific : Pattern.scientific.split? text with
  | some match_ =>
    rw [scientific] at found
    cases found
    rfl
  | none =>
    rw [scientific] at found
    cases number : Pattern.number.split? text with
    | some match_ =>
      rw [number] at found
      cases found
      rfl
    | none =>
      rw [number] at found
      cases found

theorem Ready.leads_operandAt? {behind text taken left : List Char} {value : α}
    (noLabel : scanner.labelAt? text = none)
    (found : scanner.operandAt? behind text = some (taken, left))
    (read : scanner.config.read (String.ofList taken) = some value)
    (shorter : left.length < text.length) {tokens : List (Token σ α)} (fresh : Fresh tokens)
    {rest : List Char} (breaks : Breaks rest) :
    scanner.Leads ⟨tokens, true, text ++ rest⟩
      ⟨.symbol (.operand value) :: tokens, false, left ++ rest⟩ := by
  have foundToo := ready.operandAt?_append breaks found
  have noLabelToo := ready.labelAt?_append breaks text
  rw [noLabel] at noLabelToo
  cases text with
  | nil => cases shorter
  | cons c cs =>
    refine leads_scanOperand (ready.takesNumbers.beginsOperand found) noLabelToo foundToo read
      (withProduct_fresh scanner _ fresh) ?_
    change (left ++ rest).length < (c :: cs ++ rest).length
    rw [List.length_append, List.length_append]
    omega

/-- A text that gives one operand gives it before any break, where an operand is expected. -/
theorem Ready.leads_operand {state last : State σ α} {value : α} (runs : scanner.Runs state last)
    (done : last.rest = []) (made : last.tokens = [.symbol (.operand value)])
    (nothing : state.tokens = []) {tokens : List (Token σ α)} (fresh : Fresh tokens)
    {rest : List Char} (breaks : Breaks rest) :
    scanner.Leads ⟨tokens, true, state.rest ++ rest⟩
      ⟨.symbol (.operand value) :: tokens, false, rest⟩ := by
  induction runs using Relation.ReflTransGen.head_induction_on with
  | refl =>
    rw [made] at nothing
    cases nothing
  | @head state next advances runs ih =>
    obtain ⟨⟨_, moves⟩, shorter⟩ := advances
    have suffix := Runs.tokens_suffix runs
    rw [made] at suffix
    cases moves with
    | openParen _ _ _ => cases (eq_of_suffix_singleton suffix).1
    | separator _ _ _ => cases (eq_of_suffix_singleton suffix).1
    | sign _ _ _ _ => cases (eq_of_suffix_singleton suffix).1
    | call _ _ _ _ => cases (eq_of_suffix_singleton suffix).1
    | before _ _ _ _ _ _ => cases (eq_of_suffix_singleton suffix).1
    | behind _ _ _ _ _ => cases (eq_of_suffix_singleton suffix).1
    | name _ _ _ _ => cases (eq_of_suffix_singleton suffix).1
    | @blank c text left blank =>
      have later := ih nothing
      rw [left]
      refine (ready.leads_dropWhile tokens true (c :: text ++ rest)).trans ?_
      rw [List.cons_append, List.dropWhile_cons_of_pos blank, ← dropWhile_append_dropWhile]
      exact (ready.leads_dropWhile tokens true _).symm.trans later
    | @operand taken left found before wordless split read joined =>
      obtain ⟨same, only⟩ := eq_of_suffix_singleton suffix
      cases same
      -- behind the operand only blanks are left
      have blanks : left.dropWhile Text.isBlank = [] := by
        refine Runs.blank runs done ?_
        rw [made, only]
      have after : scanner.Leads ⟨.symbol (.operand value) :: tokens, false, left ++ rest⟩
          ⟨.symbol (.operand value) :: tokens, false, rest⟩ := by
        refine (ready.leads_dropWhile _ false (left ++ rest)).trans ?_
        rw [← dropWhile_append_dropWhile, blanks, List.nil_append]
        exact (ready.leads_dropWhile _ false rest).symm
      refine Leads.trans ?_ after
      exact ready.leads_operandAt? wordless.noLabel split read shorter fresh breaks

end Ready

end Scanner
end InfixCalc
