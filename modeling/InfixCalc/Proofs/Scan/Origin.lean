import InfixCalc.Proofs.Scan.Move

/-!
# Where tokens come from

Every symbol that is scanned is given by the vocabulary or is an operand or a variable. A call or
an operator that would be taken for a sign where an operand is expected stands only behind a
call or behind an implied product.
-/

namespace InfixCalc

variable {σ α : Type}

/-- The operators that the scanner may find. -/
inductive Vocabulary.Offers (v : Vocabulary σ α) : Operator σ α → Prop where
  | marker {label : String} {op : Operator σ α} : v.marker label = .ok op → Offers v op
  | before {op : Operator σ α} :
      v.callable? op.label = none → v.before.get? op.label = some op → Offers v op
  | between {op : Operator σ α} :
      v.callable? op.label = none → v.between.get? op.label = some op → Offers v op
  | after {op : Operator σ α} :
      v.callable? op.label = none → v.between.get? op.label = none →
        v.after.get? op.label = some op → Offers v op

theorem Vocabulary.label_marker {v : Vocabulary σ α} {label : String} {op : Operator σ α}
    (marked : v.marker label = .ok op) : op.label = label := by
  unfold marker at marked
  simp only at marked
  split at marked
  · rename_i plus
    split at marked
    · cases marked
      rfl
    · cases marked
      exact plus.symm
  · split at marked
    · split at marked
      · cases marked
        rfl
      · cases marked
    · split at marked
      · split at marked
        · cases marked
          rfl
        · cases marked
      · cases marked

namespace Scanner

/-- The values that are read from the texts of operands. -/
def Literal (scanner : Scanner σ α) (value : α) : Prop :=
  ∃ c cs, BeginsOperand c ∧ scanner.config.read (String.ofList (c :: cs)) = some value

/-- The symbols that the scanner may give. -/
inductive Gives (scanner : Scanner σ α) : Symbol σ α → Prop where
  | operand {value : α} : scanner.Literal value → Gives scanner (.operand value)
  | name {label : String} : scanner.IsName label → Gives scanner (.variable label)
  | operator {op : Operator σ α} : scanner.vocabulary.Offers op → Gives scanner (.operator op)
  | call {callable : Callable σ α} :
      scanner.vocabulary.callable? callable.label = some callable → Gives scanner (.call callable)

theorem resolveOperator_eq_ok {scanner : Scanner σ α} {label : String} {afterOperand : Bool}
    {op : Operator σ α} (resolved : scanner.resolveOperator label afterOperand = .ok op) :
    scanner.vocabulary.before.get? label = some op ∨
      scanner.vocabulary.between.get? label = some op ∨
        scanner.vocabulary.between.get? label = none ∧
          scanner.vocabulary.after.get? label = some op := by
  unfold resolveOperator at resolved
  simp only at resolved
  split at resolved
  · rename_i found
    cases resolved
    split at found
    · cases between : scanner.vocabulary.between.get? label with
      | some other =>
        rw [between] at found
        cases found
        exact .inr (.inl rfl)
      | none =>
        rw [between] at found
        cases after : scanner.vocabulary.after.get? label with
        | some other =>
          rw [after] at found
          cases found
          exact .inr (.inr ⟨rfl, rfl⟩)
        | none =>
          rw [after] at found
          exact .inl found
    · exact .inl found
  · cases resolved

/- Operands. -/

theorem mem_of_withProduct {scanner : Scanner σ α} {state : State σ α} {before : List (Token σ α)}
    (joined : scanner.withProduct state = .ok before) {value : α}
    (member : .symbol (.operand value) ∈ before) : .symbol (.operand value) ∈ state.tokens := by
  rcases withProduct_eq_ok joined with ⟨_, rfl⟩ | ⟨_, product, _, rfl⟩
  · exact member
  · simpa using member

section TakesNumbers

variable {scanner : Scanner σ α} {last : Pattern} (numbers : scanner.TakesNumbers last)
include numbers

theorem TakesNumbers.literal {behind text taken left : List Char} {value : α}
    (found : scanner.operandAt? behind text = some (taken, left))
    (shorter : left.length < text.length)
    (reads : scanner.config.read (String.ofList taken) = some value) : scanner.Literal value := by
  have whole := numbers.append_eq found
  subst whole
  cases taken with
  | nil => exact absurd shorter (Nat.lt_irrefl _)
  | cons c cs => exact ⟨c, cs, numbers.beginsOperand found, reads⟩

/-- A step adds no operand but a literal. -/
theorem TakesNumbers.literal_moves {behind : List Char} {state next : State σ α}
    (moves : scanner.Moves behind state next)
    (shorter : next.rest.length < state.rest.length) {value : α}
    (member : .symbol (.operand value) ∈ next.tokens) :
    .symbol (.operand value) ∈ state.tokens ∨ scanner.Literal value := by
  cases moves with
  | openParen _ _ joined => exact .inl (mem_of_withProduct joined (by simpa using member))
  | separator _ _ _ => exact .inl (by simpa using member)
  | sign _ _ _ _ => exact .inl (by simpa using member)
  | call _ _ _ joined => exact .inl (mem_of_withProduct joined (by simpa using member))
  | before _ _ _ _ _ joined => exact .inl (mem_of_withProduct joined (by simpa using member))
  | behind _ _ _ _ _ => exact .inl (by simpa using member)
  | name _ _ _ joined => exact .inl (mem_of_withProduct joined (by simpa using member))
  | blank _ _ => exact .inl member
  | operand _ found reads joined =>
    rcases List.mem_cons.mp member with same | earlier
    · cases same
      exact .inr (numbers.literal found shorter reads)
    · exact .inl (mem_of_withProduct joined earlier)

/-- All operands of a text are literals. -/
theorem TakesNumbers.literal_of_scan {text : String} {tokens : List (Token σ α)}
    (scanned : scanner.scan text = .ok tokens) {value : α}
    (member : .symbol (.operand value) ∈ tokens) : scanner.Literal value := by
  have given {state next : State σ α} (runs : scanner.Runs state next)
      (inside : .symbol (.operand value) ∈ next.tokens) :
      .symbol (.operand value) ∈ state.tokens ∨ scanner.Literal value := by
    induction runs with
    | refl => exact .inl inside
    | tail _ advances ih =>
      obtain ⟨⟨_, moves⟩, shorter⟩ := advances
      rcases numbers.literal_moves moves shorter inside with earlier | literal
      · exact ih earlier
      · exact .inr literal
  unfold scan at scanned
  simp only at scanned
  split at scanned
  · cases scanned
  · obtain ⟨last, runs, _, rfl⟩ := runs_of_scanAll scanned
    exact (given runs (List.mem_reverse.mp member)).resolve_left List.not_mem_nil

end TakesNumbers

section Ready

variable {scanner : Scanner σ α} (ready : scanner.Ready)
include ready

theorem Ready.offers_of_resolveOperator {label : String} {afterOperand : Bool}
    {op : Operator σ α} (notCalled : scanner.vocabulary.callable? label = none)
    (resolved : scanner.resolveOperator label afterOperand = .ok op) :
    op.label = label ∧ scanner.vocabulary.Offers op := by
  rcases resolveOperator_eq_ok resolved with found | found | ⟨missing, found⟩
  · have same := (ready.regular.before label op found).1
    subst same
    exact ⟨rfl, .before notCalled found⟩
  · have same := (ready.regular.between label op found).1
    subst same
    exact ⟨rfl, .between notCalled found⟩
  · have same := (ready.regular.after label op found).1
    subst same
    exact ⟨rfl, .after notCalled missing found⟩

omit ready in
theorem labelAt?_none_of_append {text rest : List Char}
    (noLabel : scanner.labelAt? (text ++ rest) = none) : scanner.labelAt? text = none := by
  refine List.find?_eq_none.mpr ?_
  intro label member holds
  refine List.find?_eq_none.mp noLabel label member ?_
  have front : label <+: text := List.isPrefixOf_iff_prefix.mp holds
  exact List.isPrefixOf_iff_prefix.mpr (front.trans (List.prefix_append text rest))

theorem Ready.isName_of_split? {behind text taken left : List Char}
    (noLabel : scanner.labelAt? text = none)
    (found : scanner.config.variablePattern.matcher.split? behind text = some (taken, left)) :
    scanner.IsName (String.ofList taken) := by
  have whole := Matcher.append_eq _ found
  rw [← whole] at noLabel
  unfold IsName
  rw [String.toList_ofList]
  refine ⟨labelAt?_none_of_append noLabel, ?_⟩
  rw [ready.nameAt?_eq] at found ⊢
  exact (Pattern.split?_name found).1

/-- All symbols that have been scanned are given. -/
def AllGiven (scanner : Scanner σ α) (tokens : List (Token σ α)) : Prop :=
  ∀ s, .symbol s ∈ tokens → scanner.Gives s

omit ready in
theorem allGiven_separator {s : Separator} {tokens : List (Token σ α)}
    (given : scanner.AllGiven tokens) : scanner.AllGiven (.separator s :: tokens) := by
  intro symbol member
  rcases List.mem_cons.mp member with never | member
  · cases never
  · exact given symbol member

omit ready in
theorem allGiven_symbol {s : Symbol σ α} {tokens : List (Token σ α)} (gives : scanner.Gives s)
    (given : scanner.AllGiven tokens) : scanner.AllGiven (.symbol s :: tokens) := by
  intro symbol member
  rcases List.mem_cons.mp member with same | member
  · cases same
    exact gives
  · exact given symbol member

omit ready in
theorem allGiven_withProduct {state : State σ α} {before : List (Token σ α)}
    (given : scanner.AllGiven state.tokens) (joined : scanner.withProduct state = .ok before) :
    scanner.AllGiven before := by
  rcases withProduct_eq_ok joined with ⟨_, rfl⟩ | ⟨_, product, marked, rfl⟩
  · exact given
  · exact allGiven_symbol (.operator (.marker marked)) given

theorem Ready.allGiven_moves {behind : List Char} {state next : State σ α}
    (moves : scanner.Moves behind state next)
    (shorter : next.rest.length < state.rest.length) (given : scanner.AllGiven state.tokens) :
    scanner.AllGiven next.tokens := by
  cases moves with
  | openParen _ _ joined => exact allGiven_separator (allGiven_withProduct given joined)
  | separator _ _ _ => exact allGiven_separator given
  | sign _ _ _ marked => exact allGiven_symbol (.operator (.marker marked)) given
  | call _ _ called joined =>
    refine allGiven_symbol (.call ?_) (allGiven_withProduct given joined)
    rw [ready.regular.label_of_callable? called]
    exact called
  | before _ _ notCalled resolved _ joined =>
    exact allGiven_symbol (.operator (ready.offers_of_resolveOperator notCalled resolved).2)
      (allGiven_withProduct given joined)
  | behind _ _ notCalled resolved _ =>
    exact allGiven_symbol (.operator (ready.offers_of_resolveOperator notCalled resolved).2) given
  | operand _ found reads joined =>
    exact allGiven_symbol (.operand (ready.takesNumbers.literal found shorter reads))
      (allGiven_withProduct given joined)
  | name wordless _ found joined =>
    exact allGiven_symbol (.name (ready.isName_of_split? wordless.noLabel found))
      (allGiven_withProduct given joined)
  | blank _ _ => exact given

theorem Ready.allGiven_runs {state last : State σ α} (runs : scanner.Runs state last)
    (given : scanner.AllGiven state.tokens) : scanner.AllGiven last.tokens := by
  induction runs with
  | refl => exact given
  | tail _ advances ih =>
    obtain ⟨⟨_, moves⟩, shorter⟩ := advances
    exact ready.allGiven_moves moves shorter ih

end Ready

/- Labels that begin like a sign. -/

/-- Whether a symbol that begins an operand would be taken for a sign where one is expected. -/
def looksLikeSign : Symbol σ α → Bool
  | .operator op => op.fixity == .before && beginsLikeSign op.label
  | .call callable => beginsLikeSign callable.label
  | .operand _ | .variable _ => false

/-- Whether no sign is expected behind the front symbol though the other one may begin an operand
there. Behind an implied product stands no operator that could stand between operands. -/
def Hides (v : Vocabulary σ α) (front s : Symbol σ α) : Prop :=
  match front with
  | .call _ => True
  | .operator product => product.label = impliedProduct ∧
      ∀ op, s = .operator op → v.between.get? op.label = none
  | .operand _ | .variable _ => False

/-- Each symbol that looks like a sign stands behind one that hides it. The tokens come last one
first. -/
def Sheltered (v : Vocabulary σ α) : List (Token σ α) → Prop
  | [] => True
  | last :: before =>
    (∀ s, last = .symbol s → looksLikeSign s = true →
      ∃ front earlier, before = .symbol front :: earlier ∧ Hides v front s) ∧
      Sheltered v before

structure Signs (v : Vocabulary σ α) (state : State σ α) : Prop where
  operandEnded : state.expectsSign = false →
    Complete state.tokens ∨ ∃ callable before, state.tokens = .symbol (.call callable) :: before
  sheltered : Sheltered v state.tokens

theorem looksLikeSign_marker {v : Vocabulary σ α} {label : String} {op : Operator σ α}
    (marked : v.marker label = .ok op) (isMarker : beginsLikeSign label = false) :
    looksLikeSign (.operator op : Symbol σ α) = false := by
  rw [looksLikeSign, Vocabulary.label_marker marked, isMarker, Bool.and_false]

theorem sheltered_separator {v : Vocabulary σ α} {s : Separator} {tokens : List (Token σ α)}
    (h : Sheltered v tokens) : Sheltered v (.separator s :: tokens) := by
  refine ⟨?_, h⟩
  intro symbol same
  cases same

theorem sheltered_symbol {v : Vocabulary σ α} {s : Symbol σ α} {tokens : List (Token σ α)}
    (plain : looksLikeSign s = false) (h : Sheltered v tokens) :
    Sheltered v (.symbol s :: tokens) := by
  refine ⟨?_, h⟩
  intro other same looks
  cases same
  rw [plain] at looks
  cases looks

theorem sheltered_withProduct {scanner : Scanner σ α} {v : Vocabulary σ α} {state : State σ α}
    {before : List (Token σ α)} (h : Sheltered v state.tokens)
    (joined : scanner.withProduct state = .ok before) : Sheltered v before := by
  rcases withProduct_eq_ok joined with ⟨_, rfl⟩ | ⟨_, product, marked, rfl⟩
  · exact h
  · exact sheltered_symbol (looksLikeSign_marker marked (by decide)) h

theorem Signs.symbol {scanner : Scanner σ α} {v : Vocabulary σ α} {state : State σ α}
    (signs : Signs v state) {before : List (Token σ α)}
    (joined : scanner.withProduct state = .ok before) {s : Symbol σ α}
    (noSign : state.expectsSign = true → looksLikeSign s = false)
    (notBetween : state.operandEnded = true → ∀ op, s = .operator op →
      v.between.get? op.label = none) :
    Sheltered v (.symbol s :: before) := by
  have earlier := sheltered_withProduct signs.sheltered joined
  cases expects : state.expectsSign with
  | true => exact sheltered_symbol (noSign expects) earlier
  | false =>
    refine ⟨fun other same looks => ?_, earlier⟩
    cases same
    rcases signs.operandEnded expects with complete | ⟨callable, outer, made⟩
    · have ended := operandEnded_of_complete state complete
      rcases withProduct_eq_ok joined with ⟨notEnded, _⟩ | ⟨_, product, marked, rfl⟩
      · exact Bool.noConfusion (notEnded.symm.trans ended)
      · exact ⟨_, _, rfl, Vocabulary.label_marker marked, notBetween ended⟩
    · have fresh : Fresh state.tokens := by
        rw [made]
        exact fresh_cons.mpr rfl
      rw [withProduct_fresh scanner state fresh] at joined
      cases joined
      exact ⟨_, _, made, trivial⟩

theorem Ready.between_none_of_resolveOperator {scanner : Scanner σ α} (ready : scanner.Ready)
    {label : String} {op : Operator σ α} (resolved : scanner.resolveOperator label true = .ok op)
    (fixity : op.fixity = .before) : scanner.vocabulary.between.get? label = none := by
  cases between : scanner.vocabulary.between.get? label with
  | none => rfl
  | some other =>
    have found : scanner.resolveOperator label true = .ok other := by
      unfold resolveOperator
      simp [between]
    cases found.symm.trans resolved
    have holds := (ready.regular.between label op between).2.2.2
    rw [fixity] at holds
    cases holds

theorem looksLikeSign_of_signLabel? {v : Vocabulary σ α} {c : Char} {label : String}
    {op : Operator σ α} (signed : signLabel? c = some label) (marked : v.marker label = .ok op) :
    looksLikeSign (.operator op : Symbol σ α) = false := by
  refine looksLikeSign_marker marked ?_
  unfold signLabel? at signed
  split at signed
  · cases signed
    decide
  · cases signed
    decide
  · cases signed

theorem Ready.signs_moves {scanner : Scanner σ α} (ready : scanner.Ready) {behind : List Char}
    {state next : State σ α} (moves : scanner.Moves behind state next)
    (signs : Signs scanner.vocabulary state) : Signs scanner.vocabulary next := by
  cases moves with
  | openParen _ _ joined =>
    exact ⟨fun never => Bool.noConfusion never,
      sheltered_separator (sheltered_withProduct signs.sheltered joined)⟩
  | @separator s c rest left _ other =>
    refine ⟨fun closes => .inl ?_, sheltered_separator signs.sheltered⟩
    have same : s = .closeParen := by simpa using closes
    rw [same]
    exact complete_cons.mpr rfl
  | sign _ _ signed marked =>
    exact ⟨fun never => Bool.noConfusion never,
      sheltered_symbol (looksLikeSign_of_signLabel? signed marked) signs.sheltered⟩
  | call noSign _ called joined =>
    refine ⟨fun _ => .inr ⟨_, _, rfl⟩, signs.symbol joined ?_ ?_⟩
    · intro expects
      rw [looksLikeSign, ready.regular.label_of_callable? called]
      exact noSign expects
    · intro _ op never
      cases never
  | before noSign _ notCalled resolved fixity joined =>
    have label := (ready.offers_of_resolveOperator notCalled resolved).1
    refine ⟨fun never => Bool.noConfusion never, signs.symbol joined ?_ ?_⟩
    · intro expects
      rw [looksLikeSign, label, noSign expects, Bool.and_false]
    · intro ended other same
      cases same
      rw [ended] at resolved
      rw [label]
      exact ready.between_none_of_resolveOperator resolved fixity
  | behind _ _ _ _ fixity =>
    refine ⟨fun ends => .inl (complete_cons.mpr ?_), sheltered_symbol ?_ signs.sheltered⟩
    · simpa [Token.endsOperand, Symbol.endsOperand] using ends
    · rw [looksLikeSign, beq_eq_false_iff_ne.mpr fixity, Bool.false_and]
  | operand _ _ _ joined =>
    exact ⟨fun _ => .inl (complete_cons.mpr rfl),
      sheltered_symbol rfl (sheltered_withProduct signs.sheltered joined)⟩
  | name _ _ _ joined =>
    exact ⟨fun _ => .inl (complete_cons.mpr rfl),
      sheltered_symbol rfl (sheltered_withProduct signs.sheltered joined)⟩
  | blank _ _ => exact ⟨signs.operandEnded, signs.sheltered⟩

theorem Ready.signs_runs {scanner : Scanner σ α} (ready : scanner.Ready) {state last : State σ α}
    (runs : scanner.Runs state last) (signs : Signs scanner.vocabulary state) :
    Signs scanner.vocabulary last := by
  induction runs with
  | refl => exact signs
  | tail _ advances ih =>
    obtain ⟨⟨_, moves⟩, _⟩ := advances
    exact ready.signs_moves moves ih

theorem Sheltered.behind {v : Vocabulary σ α} {later earlier : List (Token σ α)} {s : Symbol σ α}
    (h : Sheltered v (later ++ .symbol s :: earlier)) (looks : looksLikeSign s = true) :
    ∃ front before, earlier = .symbol front :: before ∧ Hides v front s := by
  induction later with
  | nil => exact h.1 s rfl looks
  | cons t later ih => exact ih h.2

/-- The tokens of a text are given, and those that look like signs are sheltered. -/
theorem Ready.of_scan {scanner : Scanner σ α} (ready : scanner.Ready) {text : String}
    {tokens : List (Token σ α)} (scanned : scanner.scan text = .ok tokens) :
    scanner.AllGiven tokens ∧ Sheltered scanner.vocabulary tokens.reverse := by
  unfold scan at scanned
  simp only at scanned
  split at scanned
  · cases scanned
  · obtain ⟨last, runs, _, rfl⟩ := runs_of_scanAll scanned
    rw [List.reverse_reverse]
    constructor
    · intro s member
      exact ready.allGiven_runs runs (by simp [AllGiven]) s (List.mem_reverse.mp member)
    · exact (ready.signs_runs runs ⟨fun never => Bool.noConfusion never, trivial⟩).sheltered

end Scanner
end InfixCalc
