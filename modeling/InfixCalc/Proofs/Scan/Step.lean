import Mathlib.Data.List.Find
import InfixCalc.Proofs.Pattern.Default
import InfixCalc.Proofs.Vocabulary.Regular
import InfixCalc.Token.Scan

/-!
# Steps of the scanner

What the scanner does where a separator, a sign, a label, a variable or a blank begins. One state
leads to another if scanning comes to the same from both.
-/

namespace InfixCalc

variable {σ α : Type}

namespace Scanner

/-- A scanner for all labels of a regular vocabulary, with the default patterns. -/
structure Ready (scanner : Scanner σ α) : Prop where
  standard : scanner.config.IsStandard
  labels : scanner.labels = labelChars scanner.vocabulary
  regular : scanner.vocabulary.Regular

/-- Scanning from both states comes to the same. -/
def Leads (scanner : Scanner σ α) (state next : State σ α) : Prop :=
  ∀ whole, scanner.scanAll whole state = scanner.scanAll whole next

theorem Leads.refl (scanner : Scanner σ α) (state : State σ α) : scanner.Leads state state :=
  fun _ => rfl

theorem Leads.symm {scanner : Scanner σ α} {state next : State σ α}
    (h : scanner.Leads state next) : scanner.Leads next state :=
  fun whole => (h whole).symm

theorem Leads.trans {scanner : Scanner σ α} {state middle last : State σ α}
    (first : scanner.Leads state middle) (second : scanner.Leads middle last) :
    scanner.Leads state last :=
  fun whole => (first whole).trans (second whole)

theorem scanAll_nil (scanner : Scanner σ α) (whole : List Char) (tokens : List (Token σ α))
    (expectsSign : Bool) :
    scanner.scanAll whole ⟨tokens, expectsSign, []⟩ = .ok tokens.reverse := by
  rw [scanAll]
  rfl

theorem leads_of_step {scanner : Scanner σ α} {state next : State σ α} (more : state.rest ≠ [])
    (steps : ∀ behind, scanner.step behind state = .ok next)
    (shorter : next.rest.length < state.rest.length) : scanner.Leads state next := by
  intro whole
  have notEmpty : state.rest.isEmpty = false := by simpa using more
  rw [scanAll, notEmpty]
  simp [steps, shorter]

/- Labels. -/

theorem isPrefixOf_append {label rest : List Char} (inWord : ∀ c ∈ label, breaksWord c = false)
    (breaks : Breaks rest) (text : List Char) :
    label.isPrefixOf (text ++ rest) = label.isPrefixOf text := by
  induction label generalizing text with
  | nil => simp
  | cons a label ih =>
    cases text with
    | nil =>
      cases rest with
      | nil => rfl
      | cons c rest =>
        have differ : (a == c) = false := by
          refine beq_eq_false_iff_ne.mpr ?_
          rintro rfl
          exact Bool.noConfusion ((inWord a List.mem_cons_self).symm.trans (breaks_cons.mp breaks))
        simp [List.isPrefixOf, differ]
    | cons b text =>
      simp only [List.cons_append, List.isPrefixOf,
        ih (fun c member => inWord c (List.mem_cons_of_mem _ member))]

theorem Ready.inWord {scanner : Scanner σ α} (ready : scanner.Ready) {label : List Char}
    (member : label ∈ scanner.labels) : label ≠ [] ∧ ∀ c ∈ label, breaksWord c = false := by
  rw [ready.labels] at member
  obtain ⟨source, inside, rfl⟩ := List.mem_map.mp member
  exact isValidLabel_iff.mp (ready.regular.isUsable inside).2

theorem Ready.labelAt?_append {scanner : Scanner σ α} (ready : scanner.Ready) {rest : List Char}
    (breaks : Breaks rest) (text : List Char) :
    scanner.labelAt? (text ++ rest) = scanner.labelAt? text :=
  List.find?_congr fun _ member => isPrefixOf_append (ready.inWord member).2 breaks text

theorem Ready.labelAt?_breaks {scanner : Scanner σ α} (ready : scanner.Ready) {rest : List Char}
    (breaks : Breaks rest) : scanner.labelAt? rest = none := by
  have same := ready.labelAt?_append breaks []
  rw [List.nil_append] at same
  rw [same]
  refine List.find?_eq_none.mpr ?_
  intro label member
  cases label with
  | nil => exact absurd rfl (ready.inWord member).1
  | cons c label => simp

theorem isPrefix_of_labelAt? {scanner : Scanner σ α} {text label : List Char}
    (found : scanner.labelAt? text = some label) : label <+: text := by
  unfold labelAt? at found
  have holds := List.find?_some found
  exact List.isPrefixOf_iff_prefix.mp holds

/-- Labels are listed longest first, so no label that stands in front is longer than the one that
is found. -/
theorem Ready.length_le_of_labelAt? {scanner : Scanner σ α} (ready : scanner.Ready)
    {text label other : List Char} (found : scanner.labelAt? text = some label)
    (member : other ∈ scanner.labels) (front : other <+: text) :
    other.length ≤ label.length := by
  have sorted : scanner.labels.Pairwise fun a b => b.length ≤ a.length := by
    rw [ready.labels]
    exact List.pairwise_map.mpr (Vocabulary.labels_sorted scanner.vocabulary)
  obtain ⟨_, earlier, later, listed, fails⟩ := List.find?_eq_some_iff_append.mp found
  rw [listed] at member sorted
  rcases List.mem_append.mp member with before | behind
  · have never := fails _ before
    rw [List.isPrefixOf_iff_prefix.mpr front] at never
    cases never
  · rcases List.mem_cons.mp behind with same | behind
    · exact Nat.le_of_eq (congrArg List.length same)
    · exact List.rel_of_pairwise_cons (List.pairwise_append.mp sorted).2.1 behind

theorem Ready.labelAt?_label {scanner : Scanner σ α} (ready : scanner.Ready) {label : String}
    (member : label ∈ scanner.vocabulary.labels) {rest : List Char} (breaks : Breaks rest) :
    scanner.labelAt? (label.toList ++ rest) = some label.toList := by
  rw [ready.labelAt?_append breaks]
  have here : label.toList ∈ scanner.labels := by
    rw [ready.labels]
    exact List.mem_map_of_mem member
  cases found : scanner.labelAt? label.toList with
  | none =>
    have self : label.toList.isPrefixOf label.toList = true :=
      List.isPrefixOf_iff_prefix.mpr List.prefix_rfl
    exact absurd self (List.find?_eq_none.mp found label.toList here)
  | some first =>
    have front := isPrefix_of_labelAt? found
    rw [front.eq_of_length_le (ready.length_le_of_labelAt? found here List.prefix_rfl)]

/- Whether an operand has just ended. -/

/-- Behind the tokens an operand may begin. -/
def Fresh (tokens : List (Token σ α)) : Prop := ∀ last ∈ tokens.head?, last.endsOperand = false

def Complete (tokens : List (Token σ α)) : Prop := ∃ last ∈ tokens.head?, last.endsOperand = true

theorem fresh_nil : Fresh ([] : List (Token σ α)) := by simp [Fresh]

theorem fresh_cons {last : Token σ α} {tokens : List (Token σ α)} :
    Fresh (last :: tokens) ↔ last.endsOperand = false := by
  simp [Fresh]

theorem fresh_operator {op : Operator σ α} (notAfter : op.fixity ≠ .after)
    (tokens : List (Token σ α)) : Fresh (.symbol (.operator op) :: tokens) :=
  fresh_cons.mpr (beq_eq_false_iff_ne.mpr notAfter)

theorem complete_cons {last : Token σ α} {tokens : List (Token σ α)} :
    Complete (last :: tokens) ↔ last.endsOperand = true := by
  simp [Complete]

theorem operandEnded_of_fresh (state : State σ α) (fresh : Fresh state.tokens) :
    state.operandEnded = false := by
  unfold State.operandEnded
  split
  · rename_i last tokens same
    rw [same] at fresh
    exact fresh_cons.mp fresh
  · rfl

theorem operandEnded_of_complete (state : State σ α) (complete : Complete state.tokens) :
    state.operandEnded = true := by
  unfold State.operandEnded
  split
  · rename_i last tokens same
    rw [same] at complete
    exact complete_cons.mp complete
  · rename_i same
    rw [same] at complete
    obtain ⟨last, inside, _⟩ := complete
    cases inside

theorem withProduct_fresh (scanner : Scanner σ α) (state : State σ α)
    (fresh : Fresh state.tokens) : scanner.withProduct state = .ok state.tokens := by
  unfold withProduct
  rw [operandEnded_of_fresh state fresh]
  rfl

/- Characters that begin no label. -/

theorem ofChar?_of_inWord {c : Char} (inWord : breaksWord c = false) :
    Separator.ofChar? c = none := by
  unfold Separator.ofChar?
  split
  · cases inWord
  · cases inWord
  · cases inWord
  · rfl

theorem ofChar?_of_isBlank {c : Char} (blank : Text.isBlank c = true) :
    Separator.ofChar? c = none := by
  unfold Separator.ofChar?
  split
  · cases blank
  · cases blank
  · cases blank
  · rfl

theorem signLabel?_of_isBlank {c : Char} (blank : Text.isBlank c = true) :
    signLabel? c = none := by
  unfold signLabel?
  split
  · cases blank
  · cases blank
  · rfl

theorem signLabel?_of_letter {c : Char} (letter : CharSet.letter.contains c = true) :
    signLabel? c = none := by
  unfold signLabel?
  split
  · cases letter
  · cases letter
  · rfl

theorem ofChar?_of_signLabel? {c : Char} {label : String} (signed : signLabel? c = some label) :
    Separator.ofChar? c = none := by
  unfold Separator.ofChar?
  split
  · cases signed
  · cases signed
  · cases signed
  · rfl

/-- Whether the label is taken for a sign where an operand is expected. -/
def beginsLikeSign (label : String) : Bool := label.toList.head?.any fun c => (signLabel? c).isSome

/- What is scanned, and where that leads. -/

theorem leads_open (scanner : Scanner σ α) {tokens : List (Token σ α)} (fresh : Fresh tokens)
    (expectsSign : Bool)
    (rest : List Char) :
    scanner.Leads ⟨tokens, expectsSign, '(' :: rest⟩
      ⟨.separator .openParen :: tokens, true, rest⟩ := by
  refine leads_of_step (List.cons_ne_nil _ _) ?_ (Nat.lt_succ_self _)
  intro behind
  have before := withProduct_fresh scanner ⟨tokens, expectsSign, '(' :: rest⟩ fresh
  simp only [step, Separator.ofChar?, scanSeparator, if_true, before]
  rfl

theorem leads_close (scanner : Scanner σ α) (tokens : List (Token σ α)) (expectsSign : Bool)
    (rest : List Char) :
    scanner.Leads ⟨tokens, expectsSign, ')' :: rest⟩
      ⟨.separator .closeParen :: tokens, false, rest⟩ :=
  leads_of_step (List.cons_ne_nil _ _) (fun _ => rfl) (Nat.lt_succ_self _)

theorem leads_comma (scanner : Scanner σ α) (tokens : List (Token σ α)) (expectsSign : Bool)
    (rest : List Char) :
    scanner.Leads ⟨tokens, expectsSign, ',' :: rest⟩
      ⟨.separator .comma :: tokens, true, rest⟩ :=
  leads_of_step (List.cons_ne_nil _ _) (fun _ => rfl) (Nat.lt_succ_self _)

theorem leads_sign {scanner : Scanner σ α} {c : Char} {label : String} {sign : Operator σ α}
    (isSign : signLabel? c = some label) (marked : scanner.vocabulary.marker label = .ok sign)
    (tokens : List (Token σ α)) (rest : List Char) :
    scanner.Leads ⟨tokens, true, c :: rest⟩
      ⟨.symbol (.operator sign) :: tokens, true, rest⟩ := by
  have noSeparator := ofChar?_of_signLabel? isSign
  refine leads_of_step (List.cons_ne_nil _ _) ?_ (Nat.lt_succ_self _)
  intro behind
  simp only [step, noSeparator, if_true, isSign, scanSign, marked]
  rfl

/- Operands. -/

theorem operand_first {c : Char} (begins : BeginsOperand c) :
    Separator.ofChar? c = none ∧ signLabel? c = none := by
  refine ⟨ofChar?_of_inWord begins.inWord, ?_⟩
  unfold signLabel?
  split
  · rcases begins with digit | point
    · cases digit
    · cases point
  · rcases begins with digit | point
    · cases digit
    · cases point
  · rfl

theorem leads_scanOperand {scanner : Scanner σ α} {tokens before : List (Token σ α)}
    {expectsSign : Bool} {c : Char} {cs taken left : List Char} {value : α}
    (begins : BeginsOperand c) (noLabel : scanner.labelAt? (c :: cs) = none)
    (found : ∀ behind, scanner.operandAt? behind (c :: cs) = some (taken, left))
    (read : scanner.config.read (String.ofList taken) = some value)
    (joined : scanner.withProduct ⟨tokens, expectsSign, c :: cs⟩ = .ok before)
    (shorter : left.length < (c :: cs).length) :
    scanner.Leads ⟨tokens, expectsSign, c :: cs⟩
      ⟨.symbol (.operand value) :: before, false, left⟩ := by
  obtain ⟨noSeparator, noSign⟩ := operand_first begins
  refine leads_of_step (List.cons_ne_nil _ _) (fun behind => ?_) shorter
  simp only [step, noSeparator, noSign, ite_self, noLabel, found, scanOperand, joined, read]
  rfl

theorem leads_scanVariable {scanner : Scanner σ α} {tokens before : List (Token σ α)}
    {expectsSign : Bool} {c : Char} {cs taken left : List Char}
    (letter : CharSet.letter.contains c = true) (noLabel : scanner.labelAt? (c :: cs) = none)
    (noOperand : ∀ behind, scanner.operandAt? behind (c :: cs) = none)
    (found : ∀ behind,
      scanner.config.variablePattern.matcher.split? behind (c :: cs) = some (taken, left))
    (joined : scanner.withProduct ⟨tokens, expectsSign, c :: cs⟩ = .ok before)
    (shorter : left.length < (c :: cs).length) :
    scanner.Leads ⟨tokens, expectsSign, c :: cs⟩
      ⟨.symbol (.variable (String.ofList taken)) :: before, false, left⟩ := by
  refine leads_of_step (List.cons_ne_nil _ _) (fun behind => ?_) shorter
  simp only [step, ofChar?_of_inWord (inWord_of_letter letter), signLabel?_of_letter letter,
    ite_self, noLabel, noOperand, found, scanVariable, joined]
  rfl

/-- The operands are numbers, with and without an exponent, and what comes behind them. -/
def TakesNumbers (scanner : Scanner σ α) (last : Pattern) : Prop :=
  scanner.config.operandPatterns.map WrittenPattern.matcher =
    [(Pattern.scientificThen last).matcher, (Pattern.numberThen last).matcher]

section TakesNumbers

variable {scanner : Scanner σ α} {last : Pattern} (numbers : scanner.TakesNumbers last)
include numbers

theorem TakesNumbers.operandAt?_eq (behind text : List Char) : scanner.operandAt? behind text =
    ((Pattern.scientificThen last).split? text <|> (Pattern.numberThen last).split? text) := by
  have mapped : scanner.operandAt? behind text =
      (scanner.config.operandPatterns.map WrittenPattern.matcher).findSome?
        (·.split? behind text) := by
    rw [List.findSome?_map]
    rfl
  rw [mapped, numbers, List.findSome?_cons, List.findSome?_cons, List.findSome?_nil]
  simp only [Pattern.matcher]
  cases (Pattern.scientificThen last).split? text with
  | some found => rfl
  | none =>
    cases (Pattern.numberThen last).split? text with
    | some found => rfl
    | none => rfl

theorem TakesNumbers.operandAt?_none {c : Char} (noDigit : CharSet.digit.contains c = false)
    (noPoint : c ≠ '.') (cs behind : List Char) : scanner.operandAt? behind (c :: cs) = none := by
  obtain ⟨noExponent, noNumber⟩ := Pattern.operand_begins last noDigit noPoint cs
  rw [numbers.operandAt?_eq, noExponent, noNumber]
  rfl

theorem TakesNumbers.beginsOperand {c : Char} {behind cs taken left : List Char}
    (found : scanner.operandAt? behind (c :: cs) = some (taken, left)) : BeginsOperand c := by
  by_contra neither
  obtain ⟨noDigit, noPoint⟩ := not_or.mp neither
  rw [numbers.operandAt?_none (Bool.not_eq_true _ ▸ noDigit) noPoint] at found
  cases found

theorem TakesNumbers.append_eq {behind text taken left : List Char}
    (found : scanner.operandAt? behind text = some (taken, left)) : taken ++ left = text := by
  rw [numbers.operandAt?_eq] at found
  cases scientific : (Pattern.scientificThen last).split? text with
  | some match_ =>
    rw [scientific] at found
    cases found
    exact Pattern.append_eq_of_split? scientific
  | none =>
    rw [scientific] at found
    exact Pattern.append_eq_of_split? found

end TakesNumbers

section Ready

variable {scanner : Scanner σ α} (ready : scanner.Ready)
include ready

theorem Ready.takesNumbers : scanner.TakesNumbers .empty := ready.standard.operands

theorem Ready.operandAt?_eq (behind text : List Char) : scanner.operandAt? behind text =
    (Pattern.scientific.split? text <|> Pattern.number.split? text) :=
  ready.takesNumbers.operandAt?_eq behind text

theorem Ready.nameAt?_eq (behind text : List Char) :
    scanner.config.variablePattern.matcher.split? behind text = Pattern.name.split? text := by
  rw [ready.standard.names, Pattern.matcher]

theorem Ready.split?_blank {c : Char} (blank : Text.isBlank c = true) (behind cs : List Char) :
    scanner.config.variablePattern.matcher.split? behind (c :: cs) = none := by
  have noLetter : CharSet.letter.contains c = false := by
    rw [← Bool.not_eq_true]
    intro letter
    exact Bool.noConfusion ((not_isBlank_of_letter letter).symm.trans blank)
  rw [ready.nameAt?_eq, Pattern.split?, Pattern.remainder?_name, noLetter]
  rfl

theorem Ready.leads_blank {c : Char} (blank : Text.isBlank c = true) (tokens : List (Token σ α))
    (expectsSign : Bool) (rest : List Char) :
    scanner.Leads ⟨tokens, expectsSign, c :: rest⟩
      ⟨tokens, expectsSign, rest.dropWhile Text.isBlank⟩ := by
  have noPoint : c ≠ '.' := by
    rintro rfl
    cases blank
  have noLabel : scanner.labelAt? (c :: rest) = none :=
    ready.labelAt?_breaks (breaks_cons.mpr (breaksWord_iff.mpr (.inl blank)))
  refine leads_of_step (List.cons_ne_nil _ _) ?_ ?_
  · intro behind
    simp only [step, ofChar?_of_isBlank blank, signLabel?_of_isBlank blank, ite_self, noLabel,
      ready.takesNumbers.operandAt?_none (Text.isDigit_of_isBlank blank) noPoint,
      ready.split?_blank blank, blank, if_true]
  · exact Nat.lt_succ_of_le (List.dropWhile_suffix _).length_le

theorem Ready.leads_dropWhile (tokens : List (Token σ α)) (expectsSign : Bool)
    (text : List Char) :
    scanner.Leads ⟨tokens, expectsSign, text⟩
      ⟨tokens, expectsSign, text.dropWhile Text.isBlank⟩ := by
  cases text with
  | nil => exact .refl _ _
  | cons c rest =>
    by_cases blank : Text.isBlank c = true
    · rw [List.dropWhile_cons_of_pos blank]
      exact ready.leads_blank blank tokens expectsSign rest
    · rw [List.dropWhile_cons_of_neg blank]
      exact .refl _ _

theorem Ready.leads_space (tokens : List (Token σ α)) (expectsSign : Bool) (rest : List Char) :
    scanner.Leads ⟨tokens, expectsSign, ' ' :: rest⟩ ⟨tokens, expectsSign, rest⟩ :=
  (ready.leads_blank (by decide) tokens expectsSign rest).trans
    (ready.leads_dropWhile tokens expectsSign rest).symm

theorem Ready.leads_label {label : String} (member : label ∈ scanner.vocabulary.labels)
    {tokens : List (Token σ α)} {expectsSign : Bool}
    (noSign : expectsSign = true → beginsLikeSign label = false) {rest : List Char}
    (breaks : Breaks rest) {next : State σ α} (behind : next.rest = rest)
    (scanned :
      scanner.scanLabel ⟨tokens, expectsSign, label.toList ++ rest⟩ label rest = .ok next) :
    scanner.Leads ⟨tokens, expectsSign, label.toList ++ rest⟩ next := by
  have here : label.toList ∈ scanner.labels := by
    rw [ready.labels]
    exact List.mem_map_of_mem member
  obtain ⟨notEmpty, inWord⟩ := ready.inWord here
  have found := ready.labelAt?_label member breaks
  cases chars : label.toList with
  | nil => exact absurd chars notEmpty
  | cons c cs =>
    have noSign' : (if expectsSign then signLabel? c else none) = none := by
      cases expectsSign with
      | false => rfl
      | true =>
        have never := noSign rfl
        rw [beginsLikeSign, chars] at never
        simpa using never
    have whole : String.ofList (c :: cs) = label := by
      rw [← chars, String.ofList_toList]
    have left : (c :: (cs ++ rest)).drop (c :: cs).length = rest := List.drop_left' rfl
    rw [chars] at found scanned inWord
    refine leads_of_step (List.cons_ne_nil _ _) ?_ ?_
    · intro behind
      simp only [List.cons_append] at found scanned ⊢
      simp only [step, ofChar?_of_inWord (inWord c List.mem_cons_self), noSign', found, whole, left,
        scanned]
    · rw [behind, List.cons_append, List.length_cons, List.length_append]
      omega

theorem Ready.leads_call {label : String} {callable : Callable σ α}
    (called : scanner.vocabulary.callable? label = some callable) {tokens : List (Token σ α)}
    (fresh : Fresh tokens)
    (noSign : beginsLikeSign label = false) {rest : List Char}
    (breaks : Breaks rest) :
    scanner.Leads ⟨tokens, true, label.toList ++ rest⟩
      ⟨.symbol (.call callable) :: tokens, false, rest⟩ := by
  refine ready.leads_label (Vocabulary.mem_labels_of_callable? called) (fun _ => noSign) breaks
    rfl ?_
  have before := withProduct_fresh scanner ⟨tokens, true, label.toList ++ rest⟩ fresh
  simp only [scanLabel, called, before]
  rfl

theorem Ready.leads_before {label : String} {op : Operator σ α}
    (notCalled : scanner.vocabulary.callable? label = none)
    (found : scanner.vocabulary.before.get? label = some op) {tokens : List (Token σ α)}
    (fresh : Fresh tokens)
    (noSign : beginsLikeSign label = false) {rest : List Char}
    (breaks : Breaks rest) :
    scanner.Leads ⟨tokens, true, label.toList ++ rest⟩
      ⟨.symbol (.operator op) :: tokens, true, rest⟩ := by
  have member : label ∈ scanner.vocabulary.labels :=
    Vocabulary.mem_labels_iff.mpr
      (.inr (.inr (.inl (Entries.mem_labels_iff.mpr ⟨op, found⟩))))
  refine ready.leads_label member (fun _ => noSign) breaks rfl ?_
  have fixity := (ready.regular.before label op found).2.2.2
  have ended := operandEnded_of_fresh ⟨tokens, true, label.toList ++ rest⟩ fresh
  have before := withProduct_fresh scanner ⟨tokens, true, label.toList ++ rest⟩ fresh
  simp only [scanLabel, notCalled, resolveOperator, ended, Bool.false_eq_true, if_false, found,
    before]
  simp [bind, Except.bind, pure, Except.pure, fixity]

theorem Ready.leads_behind {label : String} {op : Operator σ α}
    (notCalled : scanner.vocabulary.callable? label = none)
    (found : (scanner.vocabulary.between.get? label <|> scanner.vocabulary.after.get? label) =
      some op) {tokens : List (Token σ α)} (complete : Complete tokens) {rest : List Char}
    (breaks : Breaks rest) :
    scanner.Leads ⟨tokens, false, label.toList ++ rest⟩
      ⟨.symbol (.operator op) :: tokens, op.fixity != .after, rest⟩ := by
  have given : scanner.vocabulary.between.get? label = some op ∨
      scanner.vocabulary.after.get? label = some op := by
    cases between : scanner.vocabulary.between.get? label with
    | some other =>
      rw [between] at found
      exact .inl found
    | none =>
      rw [between] at found
      exact .inr found
  have member : label ∈ scanner.vocabulary.labels := by
    refine Vocabulary.mem_labels_iff.mpr (.inr (.inr (.inr ?_)))
    rcases given with between | after
    · exact .inr (Entries.mem_labels_iff.mpr ⟨op, between⟩)
    · exact .inl (Entries.mem_labels_iff.mpr ⟨op, after⟩)
  have fixity : op.fixity ≠ .before := by
    rcases given with between | after
    · have holds := (ready.regular.between label op between).2.2.2
      rintro same
      rw [same] at holds
      cases holds
    · have holds := (ready.regular.after label op after).2.2.2
      rw [holds]
      decide
  refine ready.leads_label member (fun never => Bool.noConfusion never) breaks rfl ?_
  have ended := operandEnded_of_complete ⟨tokens, false, label.toList ++ rest⟩ complete
  have resolved : (scanner.vocabulary.between.get? label <|> scanner.vocabulary.after.get? label <|>
      scanner.vocabulary.before.get? label) = some op := by
    rcases given with between | after
    · rw [between]
      rfl
    · cases between : scanner.vocabulary.between.get? label with
      | some other =>
        rw [between] at found
        exact found
      | none =>
        rw [after]
        rfl
  simp only [scanLabel, notCalled, resolveOperator, ended, if_true, resolved]
  simp [bind, Except.bind, pure, Except.pure, fixity]

def IsName (scanner : Scanner σ α) (label : String) : Prop :=
  scanner.labelAt? label.toList = none ∧
    scanner.config.variablePattern.matcher.split? [] label.toList = some (label.toList, [])

theorem Ready.leads_name {label : String} (isName : scanner.IsName label)
    {tokens : List (Token σ α)} (fresh : Fresh tokens) (expectsSign : Bool) {rest : List Char}
    (breaks : Breaks rest) :
    scanner.Leads ⟨tokens, expectsSign, label.toList ++ rest⟩
      ⟨.symbol (.variable label) :: tokens, false, rest⟩ := by
  have split := isName.2
  rw [ready.nameAt?_eq] at split
  have found := Pattern.split?_append Pattern.name_staysInWord breaks label.toList
  rw [split, Option.map_some, List.nil_append] at found
  obtain ⟨_, c, cs, chars, letter⟩ := Pattern.split?_name split
  have noLabel := ready.labelAt?_append breaks label.toList
  rw [isName.1] at noLabel
  have noDigit : CharSet.digit.contains c = false := not_isDigit_of_letter letter
  have noPoint : c ≠ '.' := by
    rintro rfl
    cases letter
  have noOperand := ready.takesNumbers.operandAt?_none noDigit noPoint (cs ++ rest)
  have whole : String.ofList (c :: cs) = label := by
    rw [← chars, String.ofList_toList]
  rw [chars] at found noLabel ⊢
  rw [← whole]
  refine leads_scanVariable letter noLabel noOperand
    (fun behind => (ready.nameAt?_eq behind _).trans found) (withProduct_fresh scanner _ fresh) ?_
  change rest.length < (cs ++ rest).length + 1
  rw [List.length_append]
  omega

end Ready

end Scanner
end InfixCalc
