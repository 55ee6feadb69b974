import InfixCalc.Proofs.Conversion.Refusal
import InfixCalc.Proofs.Evaluation.Reached
import InfixCalc.Proofs.Refusal

/-!
# What messages quote

Labels, names and operands stand in words, so a build that quotes them says what is wrong in one
line. An evaluation also quotes values, and its message stays in one line if they are shown so.
-/

namespace InfixCalc

variable {σ α : Type}

theorem oneLine_of_inWord {text : String} (inWord : ∀ c ∈ text.toList, breaksWord c = false) :
    OneLine text :=
  fun member => absurd (inWord _ member) (by decide)

theorem IsUsable.oneLine {label : String} (usable : IsUsable label) : OneLine label :=
  oneLine_of_inWord (isValidLabel_iff.mp usable.2).2

/- Builds. -/

namespace Scanner.Ready

variable {scanner : Scanner σ α} (ready : scanner.Ready)
include ready

theorem inWord_operandAt? {behind text taken left : List Char}
    (found : scanner.operandAt? behind text = some (taken, left)) :
    ∀ c ∈ taken, breaksWord c = false := by
  rw [ready.operandAt?_eq] at found
  cases scientific : Pattern.scientific.split? text with
  | some match_ =>
    rw [scientific] at found
    cases found
    exact Pattern.inWord_of_split? Pattern.scientific_staysInWord scientific
  | none =>
    rw [scientific] at found
    exact Pattern.inWord_of_split? Pattern.number_staysInWord found

theorem oneLine_of_isName {label : String} (isName : scanner.IsName label) : OneLine label := by
  have named := isName.2
  rw [ready.nameAt?_eq] at named
  exact oneLine_of_inWord (Pattern.inWord_of_split? Pattern.name_staysInWord named)

theorem inLine_of_refuses {cause : Failure} (refuses : scanner.Refuses cause) : cause.InLine := by
  cases refuses with
  | blank => exact List.forall_mem_nil _
  | undefined which =>
    refine List.forall_mem_singleton.mpr ?_
    rcases which with rfl | rfl
    · exact oneLine_of_all rfl
    · exact oneLine_of_all rfl
  | word found =>
    have inWord := (ready.inWord (List.mem_of_find?_eq_some found)).2
    refine List.forall_mem_singleton.mpr (oneLine_of_inWord ?_)
    rwa [String.toList_ofList]
  | operand found =>
    refine List.forall_mem_singleton.mpr (oneLine_of_inWord ?_)
    rw [String.toList_ofList]
    exact ready.inWord_operandAt? found
  | @character position c notBlank =>
    refine List.forall_mem_singleton.mpr ?_
    intro member
    change '\n' ∈ (String.singleton c).toList at member
    rw [String.toList_singleton] at member
    cases List.mem_singleton.mp member
    cases notBlank

theorem oneLine_display {op : Operator σ α} (offers : scanner.vocabulary.Offers op) :
    OneLine op.display := by
  have under {fits : Fixity → Prop} {label : String} {source : Operator σ α}
      (stands : Vocabulary.OperatorUnder fits label source) : OneLine source.label :=
    stands.1 ▸ stands.2.1.oneLine
  have shown {fits : Fixity → Prop} (stands : Vocabulary.OperatorUnder fits op.label op) :
      OneLine op.display := by
    rw [Operator.display, stands.2.2.1]
    exact under stands
  cases offers with
  | before _ found => exact shown (ready.regular.before _ op found)
  | between _ found => exact shown (ready.regular.between _ op found)
  | after _ _ found => exact shown (ready.regular.after _ op found)
  | marker marked =>
    rcases Vocabulary.source_of_marker marked with ⟨source, written, before | between, rfl⟩ | rfl
    · exact under (ready.regular.before written source before)
    · exact under (ready.regular.between written source between)
    · exact oneLine_of_all rfl

theorem shownAs_of_gives {s : Symbol σ α} (gives : scanner.Gives s) : s.ShownAs OneLine := by
  cases gives with
  | operand _ => exact trivial
  | name _ => exact trivial
  | operator offers => exact ready.oneLine_display offers
  | call called =>
    exact (ready.regular.isUsable (Vocabulary.mem_labels_of_callable? called)).oneLine

/-- What is refused while a text is scanned or parsed is said in one line, whatever the text is, if
that holds of the operands that cannot be shown. -/
theorem inLine_of_root {limit : Option Nat} {text : String} {cause : Failure}
    (shows : ∀ value cause, scanner.config.display value = .error cause → cause.InLine)
    (failed : scanner.root limit text = .error cause) : cause.InLine := by
  rcases bind_eq_error_iff.mp failed with unscanned | ⟨tokens, scanned, unread⟩
  · exact ready.inLine_of_refuses (ready.refuses_of_scan unscanned)
  · have given := (ready.of_scan scanned).1
    rcases Tree.ofTokens_eq_error unread with unparsed | ⟨value, _, unshown⟩
    · rcases bind_eq_error_iff.mp unparsed with unordered | ⟨symbols, _, unassembled⟩
      · rcases Postfix.reorder_refuses (oneLine_of_all rfl) (oneLine_of_all rfl)
          (fun s member => ready.shownAs_of_gives (given s member)) unordered with
          syntactic | ⟨rfl, _⟩
        · exact syntactic.quoted
        · exact List.forall_mem_nil _
      · rcases Tree.assemble_error unassembled with rfl | ⟨most, _, rfl⟩
        · exact List.forall_mem_nil _
        · exact List.forall_mem_nil _
    · exact shows value cause unshown

end Scanner.Ready

/- Words. -/

/-- A failure or a text that the refusal itself carries stays in one line. -/
def Refusal.InLine : Refusal → Prop
  | .zeroDivisor | .unusable _ => True
  | .told text => OneLine text
  | .failure cause => cause.InLine

namespace Outcome

def InLine (outcome : Outcome α) : Prop := ∀ refusal, outcome = .error refusal → refusal.InLine

theorem InLine.failure {cause : Failure} (inLine : cause.InLine) :
    Outcome.InLine (.error (.failure cause) : Outcome α) := by
  rintro _ ⟨⟩
  exact inLine

theorem InLine.ite {condition : Prop} {decidable : Decidable condition} {yes no : Outcome α}
    (inLine : yes.InLine) (inLineToo : no.InLine) :
    Outcome.InLine (if condition then yes else no) := by
  split
  · exact inLine
  · exact inLineToo

@[simp] theorem IsPlain.inLine {outcome : Outcome α} (plain : outcome.IsPlain) :
    outcome.InLine := by
  rintro refusal rfl
  cases plain with
  | zeroDivisor => exact trivial
  | unusable reason => exact trivial

end Outcome

namespace Meaning

/-- What the operation refuses, it refuses in one line. -/
def InLine : Meaning σ α → Prop
  | .same | .drawn _ => True
  | .unary f => ∀ x, (f x).InLine
  | .binary f => ∀ x y, (f x y).InLine
  | .ternary f => ∀ x y z cause, f x y z = .error cause → cause.InLine
  | .aggregate f => ∀ xs, (f xs).InLine

variable {label : String} (oneLine : OneLine label) {state : σ} {cause : Failure}
include oneLine

theorem inLine_conclude {shown : String} (oneLineToo : OneLine shown) {outcome : Outcome α}
    (inLine : outcome.InLine)
    (failed : (((conclude label shown outcome : Action σ α α).start []).run state).1 =
      .error cause) : cause.InLine := by
  cases outcome with
  | ok value => cases failed
  | error refusal =>
    have holds := inLine refusal rfl
    cases failed
    cases refusal with
    | zeroDivisor => exact List.forall_mem_singleton.mpr oneLine
    | unusable reason =>
      exact List.forall_mem_cons.mpr ⟨oneLine, List.forall_mem_singleton.mpr oneLineToo⟩
    | told text =>
      exact List.forall_mem_cons.mpr ⟨oneLine, List.forall_mem_cons.mpr
        ⟨oneLineToo, List.forall_mem_singleton.mpr holds⟩⟩
    | failure cause => exact holds

theorem InLine.give [Shown α]
    (shown : ∀ value : α, OneLine (Shown.text value) ∧ OneLine (Shown.quoted value))
    {meaning : Meaning σ α} (inLine : meaning.InLine) {operands : List α}
    (failed : (((meaning.give label operands).start []).run state).1 = .error cause) :
    cause.InLine := by
  unfold Meaning.give at failed
  split at failed
  · cases failed
  · rename_i f x
    exact inLine_conclude oneLine (shown x).1 (inLine x) failed
  · rename_i f x y
    have both : OneLine (Shown.text x ++ ", " ++ Shown.text y) :=
      oneLine_append.mpr ⟨oneLine_append.mpr ⟨(shown x).1, oneLine_of_all rfl⟩, (shown y).1⟩
    exact inLine_conclude oneLine both (inLine x y) failed
  · rename_i f x y z
    cases came : f x y z with
    | ok value =>
      rw [came] at failed
      cases failed
    | error other =>
      rw [came] at failed
      cases failed
      exact inLine x y z _ came
  · rename_i f
    have each : ∀ text ∈ operands.map Shown.quoted, OneLine text :=
      List.forall_mem_map.mpr fun value _ => (shown value).2
    have list : OneLine (listText operands) :=
      oneLine_append.mpr ⟨oneLine_append.mpr
        ⟨oneLine_of_all rfl, oneLine_intercalate (oneLine_of_all rfl) each⟩, oneLine_of_all rfl⟩
    exact inLine_conclude oneLine list (inLine operands) failed
  · cases failed
  · cases failed
    exact List.forall_mem_nil _

end Meaning

/-- A choice that is no index is shown in one line. -/
def Selection.InLine : Selection → Prop
  | .index _ => True
  | .other shown => OneLine shown

theorem Tree.inLine_chosen {label : String} (oneLine : OneLine label) {selection : Selection}
    (inLine : selection.InLine) {count : Nat} {cause : Failure}
    (failed : chosen label count selection = .error cause) : cause.InLine := by
  unfold chosen at failed
  split at failed
  · cases failed
    exact List.forall_mem_cons.mpr ⟨oneLine, List.forall_mem_singleton.mpr inLine⟩
  · split at failed
    · cases failed
    · split at failed
      · cases failed
        exact List.forall_mem_nil _
      · cases failed
        exact List.forall_mem_singleton.mpr oneLine

namespace Wordbook

variable [Shown α]

/-- Values are shown in one line, and so is all that words refuse. -/
structure InLine (book : Wordbook σ α) : Prop where
  shown : ∀ value : α, OneLine (Shown.text value) ∧ OneLine (Shown.quoted value)
  meanings : ∀ word ∈ book.meanings, word.2.InLine
  branches : ∀ word ∈ book.branches, ∀ value,
    (∀ cause, word.2.2 value = .error cause → cause.InLine) ∧
      ∀ selection, word.2.2 value = .ok selection → selection.InLine

variable {book : Wordbook σ α}

omit [Shown α] in
theorem WellSpelled.oneLine {level : Nat} (spelled : book.WellSpelled level) :
    (∀ word ∈ book.meanings, OneLine word.1) ∧ ∀ word ∈ book.branches, OneLine word.1 := by
  constructor
  · intro word member
    refine (spelled.usable word.1 ?_).oneLine
    rcases List.mem_append.mp member with operator | function
    · obtain ⟨entry, inside, rfl⟩ := List.mem_map.mp operator
      exact List.mem_append_left _
        (List.mem_map_of_mem (List.mem_map_of_mem inside : _ ∈ book.spellings))
    · obtain ⟨entry, inside, rfl⟩ := List.mem_map.mp function
      exact List.mem_append_right _ (List.mem_append_left _ (List.mem_map_of_mem inside))
  · intro word member
    exact (spelled.usable word.1 (List.mem_append_right _
      (List.mem_append_right _ (List.mem_map_of_mem member)))).oneLine

variable {level : Nat} (inLine : book.InLine) (spelled : book.WellSpelled level)
include inLine spelled

theorem InLine.of_refuses {values : String → Option α} {s : Symbol σ α}
    {cs : List (Tree (Symbol σ α))}
    (named : ∀ label, s = .variable label → OneLine label) {state : σ} {cause : Failure}
    (refuses : book.Refuses values cause (.node s cs) state) : cause.InLine := by
  cases refuses with
  | name same =>
    rw [same]
    exact List.forall_mem_singleton.mpr (named _ rfl)
  | word member _ _ _ failed =>
    exact Meaning.InLine.give (spelled.oneLine.1 _ member) inLine.shown
      (inLine.meanings _ member) failed
  | branch member label _ failed =>
    obtain ⟨refusals, selections⟩ := inLine.branches _ member _
    rcases bind_eq_error_iff.mp failed with refused | ⟨selection, chose, outside⟩
    · exact refusals _ refused
    · exact Tree.inLine_chosen (label ▸ spelled.oneLine.2 _ member) (selections selection chose)
        outside

/-- What an evaluation refuses is said in one line. -/
theorem InLine.of_evaluate (exact : book.IsExact) {config : Config α}
    (ready : (Scanner.make book.vocabulary config).Ready) {limit : Option Nat} {text : String}
    {t : Tree (Symbol σ α)} (read : (Scanner.make book.vocabulary config).root limit text = .ok t)
    {values : String → Option α} {state : σ} {cause : Failure}
    (failed : ((t.evaluate values).run state).1 = .error cause) : cause.InLine := by
  have spoken := (ready.spoken_root read).1
  have means := means_root exact read
  have named := means.and_postorder
    (Q := fun s => ∀ label, s = .variable label → OneLine label) fun s member label same =>
      ready.oneLine_of_isName (spoken.isName (same ▸ member))
  obtain ⟨inner, reached, reaches, refuses⟩ := exists_refuses means failed
  cases reaches.all named with
  | node here _ => exact inLine.of_refuses spelled here.2 refuses

end Wordbook

/-- What goes wrong with an expression that has been built is said in one line. -/
theorem Builder.Consistent.inLine_of_evaluate [Shown α] {b : Builder σ α}
    (consistent : b.Consistent) (standard : b.config.IsStandard) {book : Wordbook σ α}
    (words : b.vocabulary = book.vocabulary) (inLine : book.InLine) {level : Nat}
    (spelled : book.WellSpelled level) (exact : book.IsExact) {text : String}
    {e : Expression σ α} (built : (b.build text).1 = .ok e) {bindings : List (String × α)}
    {state : σ} {cause : Failure} (failed : ((e.evaluate bindings).run state).1 = .error cause) :
    cause.InLine := by
  have ready : (Scanner.make b.vocabulary b.config).Ready := ⟨standard, rfl, consistent.regular⟩
  have read := ((consistent.build text).sound e built).root
  rw [words] at ready read
  exact inLine.of_evaluate spelled exact ready read failed

end InfixCalc
