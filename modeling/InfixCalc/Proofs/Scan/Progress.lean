import InfixCalc.Proofs.Scan.Move

/-!
# Progress of the scanner

A round of the scanner takes some text, or it fails, unless a pattern of the configuration matches
without any text where a token may begin. That a pattern does not match the empty text does not
exclude this, since it may look ahead. A round that takes nothing is followed by one that fails, or
the rounds never end.
-/

namespace InfixCalc

variable {σ α : Type}

namespace Pattern

/-- Every look-ahead of the pattern holds at the end of a text. -/
def HoldsAtEnd : Pattern → Prop
  | .empty | .char _ | .atEnd => True
  | .seq first second | .alt first second => first.HoldsAtEnd ∧ second.HoldsAtEnd
  | .optional inner | .many inner => inner.HoldsAtEnd
  | .ahead expected inner => inner.matchesEmpty = expected

theorem matchesEmpty_iff {p : Pattern} : p.matchesEmpty = true ↔ [] ∈ p.remainders [] := by
  rw [matchesEmpty, remainder?, List.isSome_head?]
  constructor
  · intro some_
    obtain ⟨rest, member⟩ := List.exists_mem_of_ne_nil _ some_
    rwa [List.suffix_nil.mp (suffix_of_mem_remainders p [] rest member)] at member
  · exact List.ne_nil_of_mem

/-- Such a pattern matches the empty text if it matches any text without taking some of it. -/
theorem HoldsAtEnd.matchesEmpty {p : Pattern} (holds : p.HoldsAtEnd) {text : List Char}
    (nothing : text ∈ p.remainders text) : p.matchesEmpty = true := by
  rw [matchesEmpty_iff]
  induction p generalizing text with
  | empty => exact List.mem_singleton_self _
  | char set =>
    cases text with
    | nil => cases nothing
    | cons c rest =>
      simp only [remainders] at nothing
      split at nothing
      · cases (List.cons_ne_self c rest) (List.mem_singleton.mp nothing)
      · cases nothing
  | seq first second ihFirst ihSecond =>
    obtain ⟨middle, inFirst, inSecond⟩ := List.mem_flatMap.mp nothing
    have short := suffix_of_mem_remainders first text middle inFirst
    have long := suffix_of_mem_remainders second middle text inSecond
    obtain rfl := short.eq_of_length_le long.length_le
    exact List.mem_flatMap.mpr ⟨[], ihFirst holds.1 inFirst, ihSecond holds.2 inSecond⟩
  | alt first second ihFirst ihSecond =>
    rcases List.mem_append.mp nothing with inside | inside
    · exact List.mem_append_left _ (ihFirst holds.1 inside)
    · exact List.mem_append_right _ (ihSecond holds.2 inside)
  | optional inner => exact List.mem_append_right _ (List.mem_singleton_self _)
  | many inner => exact List.mem_singleton_self _
  | ahead expected inner =>
    have differ : (inner.remainders []).isEmpty ≠ expected := by
      rw [← show inner.matchesEmpty = expected from holds, Pattern.matchesEmpty, remainder?]
      cases inner.remainders [] <;> simp
    simp only [remainders, beq_iff_eq, if_neg differ]
    exact List.mem_singleton_self _
  | atEnd => exact List.mem_singleton_self _

theorem HoldsAtEnd.steady {p : Pattern} (holds : p.HoldsAtEnd) : p.matcher.Steady :=
  fun _ _ found => by
    have empty := holds.matchesEmpty (mem_remainders_of_split? found)
    rwa [Pattern.matchesEmpty, ← Option.isSome_map] at empty

end Pattern

/-- What is left is shorter, or nothing has been taken. -/
theorem Matcher.split?_cases {m : Matcher} {behind text taken rest : List Char}
    (found : m.split? behind text = some (taken, rest)) :
    rest.length < text.length ∨ taken = [] ∧ rest = text := by
  have whole := m.append_eq found
  cases taken with
  | nil => exact .inr ⟨rfl, whole⟩
  | cons c cs =>
    rw [← whole, List.length_append, List.length_cons]
    exact .inl (by omega)

namespace Config

/-- Where the text goes on neither with a separator nor with a label, the configuration finds an
operand or a variable that takes none of it. -/
inductive Idles (config : Config α) (behind text : List Char) : Option α → Prop where
  | operand {value : α} :
      config.operandPatterns.findSome? (·.matcher.split? behind text) = some ([], text) →
      config.read "" = some value → Idles config behind text (some value)
  | name :
      config.operandPatterns.findSome? (·.matcher.split? behind text) = none →
      config.variablePattern.matcher.split? behind text = some ([], text) →
        Idles config behind text none

/-- Whatever the configuration finds at a place of a text takes some of what is left. -/
def TakesSome (config : Config α) : Prop :=
  ∀ behind c rest, Separator.ofChar? c = none → ∀ found, ¬ config.Idles behind (c :: rest) found

def matchers (config : Config α) : List Matcher :=
  config.variablePattern.matcher :: config.operandPatterns.map WrittenPattern.matcher

/-- Without a matcher that looks behind, it does not matter what stands there. -/
theorem Idles.elsewhere {config : Config α} (forgets : ∀ m ∈ config.matchers, m.Forgets)
    {behind text : List Char} {found : Option α} (idles : config.Idles behind text found)
    (other : List Char) : config.Idles other text found := by
  have operands : config.operandPatterns.findSome? (·.matcher.split? other text) =
      config.operandPatterns.findSome? (·.matcher.split? behind text) := by
    have each (p : WrittenPattern) (member : p ∈ config.operandPatterns) :=
      forgets p.matcher (List.mem_cons_of_mem _ (List.mem_map_of_mem member)) other behind text
    generalize config.operandPatterns = ps at each
    induction ps with
    | nil => rfl
    | cons p ps ih =>
      obtain ⟨first, later⟩ := List.forall_mem_cons.mp each
      rw [List.findSome?_cons, List.findSome?_cons, first, ih later]
  cases idles with
  | operand found read => exact .operand (operands.trans found) read
  | name noOperand found =>
    exact .name (operands.trans noOperand)
      ((forgets _ List.mem_cons_self other behind text).trans found)

theorem forall_mem_of_mapM {β γ : Type} {f : β → Except Failure γ} {P : γ → Prop}
    (holds : ∀ x y, f x = .ok y → P y) {xs : List β} {ys : List γ} (made : xs.mapM f = .ok ys) :
    ∀ y ∈ ys, P y := by
  induction xs generalizing ys with
  | nil =>
    cases made
    simp
  | cons x xs ih =>
    rw [List.mapM_cons] at made
    obtain ⟨y, first, later⟩ := bind_eq_ok_iff.mp made
    obtain ⟨others, rest, made⟩ := bind_eq_ok_iff.mp later
    cases made
    exact List.forall_mem_cons.mpr ⟨holds x y first, ih rest⟩

theorem not_matchesEmpty_of_read {compile : String → Except String Matcher} {text : String}
    {p : WrittenPattern} (read : WrittenPattern.read compile text = .ok p) :
    p.matcher.matchesEmpty = false := by
  unfold WrittenPattern.read at read
  split at read
  · cases read
  · split at read
    · cases read
    · rename_i other
      cases read
      exact (Bool.not_eq_true _).mp other

/-- No pattern of an accepted configuration matches the empty text. -/
theorem not_matchesEmpty_of_make {compile : String → Except String Matcher}
    {read : String → Option α} {print display : α → Except Failure String}
    {operandPatterns : List String} {variablePattern : String} {maxDepth : Setting}
    {config : Config α}
    (made : make compile read print display operandPatterns variablePattern maxDepth =
      .ok config) :
    ∀ m ∈ config.matchers, m.matchesEmpty = false := by
  unfold make at made
  simp only at made
  split at made
  · cases made
  · obtain ⟨operands, first, later⟩ := bind_eq_ok_iff.mp made
    obtain ⟨names, second, later⟩ := bind_eq_ok_iff.mp later
    obtain ⟨depth, _, same⟩ := bind_eq_ok_iff.mp later
    cases same
    refine List.forall_mem_cons.mpr ⟨not_matchesEmpty_of_read second, ?_⟩
    exact List.forall_mem_map.mpr
      (forall_mem_of_mapM (fun _ _ => not_matchesEmpty_of_read) first)

/-- An accepted configuration takes some of each text if its matchers are steady. -/
theorem takesSome_of_steady {config : Config α}
    (someText : ∀ m ∈ config.matchers, m.matchesEmpty = false)
    (steady : ∀ m ∈ config.matchers, m.Steady) : config.TakesSome := by
  have never (m : Matcher) (member : m ∈ config.matchers) (behind text : List Char) :
      m.split? behind text ≠ some ([], text) := fun found =>
    Bool.noConfusion ((someText m member).symm.trans (steady m member behind text found))
  intro behind c rest _ found idles
  cases idles with
  | operand found _ =>
    obtain ⟨p, member, split⟩ := List.exists_of_findSome?_eq_some found
    exact never p.matcher (List.mem_cons_of_mem _ (List.mem_map_of_mem member)) _ _ split
  | name _ split => exact never _ List.mem_cons_self _ _ split

theorem IsStandard.matchers_eq {config : Config α} (standard : config.IsStandard) :
    config.matchers = [.name, .scientific, .number].map Pattern.matcher := by
  rw [matchers, standard.names, standard.operands]
  rfl

/-- The default patterns do not look ahead. -/
theorem IsStandard.takesSome {config : Config α} (standard : config.IsStandard) :
    config.TakesSome := by
  refine takesSome_of_steady ?_ ?_
  · rw [standard.matchers_eq]
    decide
  · rw [standard.matchers_eq]
    refine List.forall_mem_map.mpr fun p member => Pattern.HoldsAtEnd.steady ?_
    revert p
    simp [Pattern.HoldsAtEnd, Pattern.name, Pattern.scientific, Pattern.number, Pattern.digits,
      Pattern.atLeastOnce]

end Config

namespace Scanner

/-- One round of the loop over the whole text. -/
def Round (scanner : Scanner σ α) (whole : List Char) (state next : State σ α) : Prop :=
  state.rest ≠ [] ∧ scanner.step (state.behind whole) state = .ok next

/-- Rounds from the state to the end of the text or to one that fails, counted. -/
inductive Loop (scanner : Scanner σ α) (whole : List Char) :
    Nat → State σ α → Except Failure (List (Token σ α)) → Prop where
  | ended {state : State σ α} :
      state.rest = [] → Loop scanner whole 0 state (.ok state.tokens.reverse)
  | failed {state : State σ α} {cause : Failure} :
      state.rest ≠ [] → scanner.step (state.behind whole) state = .error cause →
        Loop scanner whole 1 state (.error cause)
  | round {count : Nat} {state next : State σ α} {result : Except Failure (List (Token σ α))} :
      scanner.Round whole state next → Loop scanner whole count next result →
        Loop scanner whole (count + 1) state result

def start (text : String) : State σ α := ⟨[], true, text.toList⟩

/-- Some rounds over the text lead to the state. -/
def Reaches (scanner : Scanner σ α) (text : String) : State σ α → Prop :=
  Relation.ReflTransGen (scanner.Round text.toList) (start text)

/-- Every round over the text fails or takes some of it. -/
def Advances (scanner : Scanner σ α) (text : String) : Prop :=
  ∀ state next, scanner.Reaches text state → scanner.Round text.toList state next →
    next.rest.length < state.rest.length

/- Rounds that take nothing. -/

def symbolWithoutText : Option α → Symbol σ α
  | some value => .operand value
  | none => .variable ""

theorem endsOperand_symbolWithoutText (found : Option α) :
    (symbolWithoutText found : Symbol σ α).endsOperand = true := by
  cases found <;> rfl

/-- In this state, with such a text behind it, a symbol is found that takes none of the text. -/
structure Idles (scanner : Scanner σ α) (behind : List Char) (state : State σ α)
    (found : Option α) : Prop where
  wordless : scanner.Wordless state
  idles : scanner.config.Idles behind state.rest found

theorem Idles.step_eq {scanner : Scanner σ α} {behind : List Char} {state : State σ α}
    {found : Option α} (idles : scanner.Idles behind state found) :
    scanner.step behind state = scanner.withProduct state >>= fun before =>
      .ok ⟨.symbol (symbolWithoutText found) :: before, false, state.rest⟩ := by
  obtain ⟨⟨⟨c, rest, left, noSeparator, noSign⟩, noLabel⟩, idles⟩ := idles
  obtain ⟨tokens, expectsSign, text⟩ := state
  simp only at left noSign noLabel idles
  subst left
  cases idles with
  | operand found read =>
    have here : scanner.operandAt? behind (c :: rest) = some ([], c :: rest) := found
    simp only [step, noSeparator, noSign, noLabel, here, scanOperand, String.ofList_nil, read]
    rfl
  | name noOperand found =>
    have here : scanner.operandAt? behind (c :: rest) = none := noOperand
    simp only [step, noSeparator, noSign, noLabel, here, found, scanVariable, String.ofList_nil]
    rfl

/-- The next round finds the same symbol again. -/
theorem Idles.again {scanner : Scanner σ α} {behind : List Char} {state : State σ α}
    {found : Option α} (idles : scanner.Idles behind state found) (tokens : List (Token σ α)) :
    scanner.Idles behind ⟨tokens, false, state.rest⟩ found := by
  obtain ⟨⟨⟨c, rest, left, noSeparator, _⟩, noLabel⟩, idles⟩ := idles
  exact ⟨⟨⟨c, rest, left, noSeparator, rfl⟩, noLabel⟩, idles⟩

theorem length_drop_lt {scanner : Scanner σ α} (words : [] ∉ scanner.labels)
    {text label : List Char} (found : scanner.labelAt? text = some label) :
    (text.drop label.length).length < text.length := by
  have notEmpty : label ≠ [] := by
    rintro rfl
    exact words (List.mem_of_find?_eq_some found)
  have short := (isPrefix_of_labelAt? found).length_le
  have positive := List.length_pos_iff.mpr notEmpty
  rw [List.length_drop]
  omega

/-- A move takes some text, or it finds a symbol that takes none. -/
theorem Moves.lt_or_idles {scanner : Scanner σ α} (words : [] ∉ scanner.labels)
    {behind : List Char} {state next : State σ α} (moves : scanner.Moves behind state next) :
    next.rest.length < state.rest.length ∨
      ∃ found before, scanner.Idles behind state found ∧ scanner.withProduct state = .ok before ∧
        next = ⟨.symbol (symbolWithoutText found) :: before, false, state.rest⟩ := by
  cases moves with
  | openParen left _ _ => exact .inl (left ▸ Nat.lt_succ_self _)
  | separator left _ _ => exact .inl (left ▸ Nat.lt_succ_self _)
  | sign left _ _ _ => exact .inl (left ▸ Nat.lt_succ_self _)
  | call _ found _ _ => exact .inl (length_drop_lt words found)
  | before _ found _ _ _ _ => exact .inl (length_drop_lt words found)
  | behind _ found _ _ _ => exact .inl (length_drop_lt words found)
  | @operand text rest value before wordless found read joined =>
    obtain ⟨p, _, split⟩ := List.exists_of_findSome?_eq_some found
    rcases Matcher.split?_cases split with shorter | ⟨rfl, rfl⟩
    · exact .inl shorter
    · exact .inr ⟨some value, before, ⟨wordless, .operand found read⟩, joined, rfl⟩
  | @name text rest before wordless noOperand found joined =>
    rcases Matcher.split?_cases found with shorter | ⟨rfl, rfl⟩
    · exact .inl shorter
    · exact .inr ⟨none, before, ⟨wordless, .name noOperand found⟩, joined, rfl⟩
  | @blank c rest left _ =>
    rw [left]
    exact .inl (Nat.lt_succ_of_le (List.dropWhile_suffix _).length_le)

theorem Moves.lt_of_takesSome {scanner : Scanner σ α} (words : [] ∉ scanner.labels)
    (takes : scanner.config.TakesSome) {behind : List Char} {state next : State σ α}
    (moves : scanner.Moves behind state next) : next.rest.length < state.rest.length := by
  rcases moves.lt_or_idles words with shorter | ⟨found, before, idles, _, _⟩
  · exact shorter
  · obtain ⟨⟨⟨c, rest, left, noSeparator, _⟩, _⟩, idles⟩ := idles
    rw [left] at idles
    exact absurd idles (takes behind c rest noSeparator found)

/-- Wherever the rounds lead, a symbol that takes none of the text cannot be put behind the tokens,
because a product between them is undefined. -/
def NeverIdles (scanner : Scanner σ α) (text : String) : Prop :=
  ∀ state found before, scanner.Reaches text state →
    scanner.Idles (state.behind text.toList) state found → scanner.withProduct state ≠ .ok before

theorem advances_iff_neverIdles {scanner : Scanner σ α} (words : [] ∉ scanner.labels)
    (text : String) : scanner.Advances text ↔ scanner.NeverIdles text := by
  constructor
  · intro advances state found before reached idles joined
    obtain ⟨c, rest, left, _⟩ := idles.wordless.more
    have stays := idles.step_eq
    rw [joined] at stays
    exact absurd (advances state _ reached ⟨left ▸ List.cons_ne_nil c rest, stays⟩)
      (Nat.lt_irrefl _)
  · intro never state next reached round
    rcases (moves_of_step round.1 round.2).lt_or_idles words with
      shorter | ⟨found, before, idles, joined, _⟩
    · exact shorter
    · exact absurd joined (never state found before reached idles)

/- Rounds and the scan. -/

theorem Loop.of_round {scanner : Scanner σ α} {whole : List Char} {count : Nat}
    {state next : State σ α}
    {result : Except Failure (List (Token σ α))} (loop : scanner.Loop whole count state result)
    (round : scanner.Round whole state next) : ∃ less, scanner.Loop whole less next result := by
  cases loop with
  | ended empty => exact absurd empty round.1
  | failed _ failed => cases failed.symm.trans round.2
  | round other later =>
    cases other.2.symm.trans round.2
    exact ⟨_, later⟩

/-- Where an operand has ended and an implied product is defined, a scanner that finds a symbol
without text never comes to an end. -/
theorem Idles.endless {scanner : Scanner σ α} {product : Operator σ α}
    (marked : scanner.vocabulary.marker impliedProduct = .ok product) {whole : List Char}
    {count : Nat} {state : State σ α} {result : Except Failure (List (Token σ α))}
    {found : Option α} (idles : scanner.Idles (state.behind whole) state found)
    (complete : Complete state.tokens) :
    ¬ scanner.Loop whole count state result := by
  intro loop
  induction loop with
  | @ended state empty =>
    obtain ⟨c, rest, left, _⟩ := idles.wordless.more
    cases left.symm.trans empty
  | @failed state cause _ failed =>
    rw [idles.step_eq, withProduct, operandEnded_of_complete _ complete, marked] at failed
    cases failed
  | @round count state next result round _ ih =>
    have steps := round.2
    rw [idles.step_eq, withProduct, operandEnded_of_complete _ complete, marked] at steps
    cases steps
    exact ih (idles.again _) (complete_cons.mpr (endsOperand_symbolWithoutText found))

/-- The scan gives what the rounds come to, or it tells that they never end. -/
theorem loop_or_endless {scanner : Scanner σ α} (words : [] ∉ scanner.labels) (whole : List Char)
    (state : State σ α) :
    (∃ count ≤ state.rest.length + 1,
      scanner.Loop whole count state (scanner.scanAll whole state)) ∨
    (∃ position, scanner.scanAll whole state = .error (.stalledPattern position)) ∧
      ∀ count result, ¬ scanner.Loop whole count state result := by
  fun_induction scanAll scanner whole state with
  | case1 state empty => exact .inl ⟨0, Nat.zero_le _, .ended (List.isEmpty_iff.mp empty)⟩
  | case2 state more behind cause failed =>
    exact .inl ⟨1, Nat.succ_le_succ (Nat.zero_le _), .failed (mt List.isEmpty_iff.mpr more) failed⟩
  | case3 state more behind next steps shorter ih =>
    have round : scanner.Round whole state next := ⟨mt List.isEmpty_iff.mpr more, steps⟩
    rcases ih with ⟨count, small, loop⟩ | ⟨stalled, endless⟩
    · exact .inl ⟨count + 1, by omega, .round round loop⟩
    · refine .inr ⟨stalled, fun count result loop => ?_⟩
      obtain ⟨less, later⟩ := loop.of_round round
      exact endless less result later
  | case4 state more behind next steps longer cause failed =>
    have some_ := mt List.isEmpty_iff.mpr more
    have round : scanner.Round whole state next := ⟨some_, steps⟩
    have moves := moves_of_step some_ steps
    obtain ⟨found, before, _, _, rfl⟩ := (moves.lt_or_idles words).resolve_left longer
    have positive := List.length_pos_iff.mpr some_
    exact .inl ⟨2, by omega, .round round (.failed some_ failed)⟩
  | case5 state more behind next steps longer again stays =>
    have some_ := mt List.isEmpty_iff.mpr more
    have round : scanner.Round whole state next := ⟨some_, steps⟩
    have moves := moves_of_step some_ steps
    obtain ⟨found, before, idles, _, rfl⟩ := (moves.lt_or_idles words).resolve_left longer
    have complete : Complete (.symbol (symbolWithoutText found) :: before) :=
      complete_cons.mpr (endsOperand_symbolWithoutText found)
    -- the second round has put a product in front of the same symbol, so each round can
    have here := idles.again (.symbol (symbolWithoutText found) :: before)
    rw [here.step_eq] at stays
    obtain ⟨joinedBefore, joined, _⟩ := bind_eq_ok_iff.mp stays
    refine .inr ⟨⟨_, rfl⟩, fun count result loop => ?_⟩
    obtain ⟨less, later⟩ := loop.of_round round
    rcases withProduct_eq_ok joined with ⟨notEnded, _⟩ | ⟨_, product, marked, _⟩
    · exact Bool.noConfusion
        (notEnded.symm.trans (operandEnded_of_complete _ complete))
    · exact here.endless marked complete later

theorem Advances.loop {scanner : Scanner σ α} {text : String} (advances : scanner.Advances text)
    {state : State σ α} (reached : scanner.Reaches text state) :
    ∃ count ≤ state.rest.length,
      scanner.Loop text.toList count state (scanner.scanAll text.toList state) := by
  fun_induction scanAll scanner text.toList state with
  | case1 state empty => exact ⟨0, Nat.zero_le _, .ended (List.isEmpty_iff.mp empty)⟩
  | case2 state more behind cause failed =>
    have some_ := mt List.isEmpty_iff.mpr more
    exact ⟨1, List.length_pos_iff.mpr some_, .failed some_ failed⟩
  | case3 state more behind next steps shorter ih =>
    have round : scanner.Round text.toList state next := ⟨mt List.isEmpty_iff.mpr more, steps⟩
    obtain ⟨count, small, loop⟩ := ih (reached.tail round)
    exact ⟨count + 1, by omega, .round round loop⟩
  | case4 state more behind next steps longer cause failed =>
    exact absurd (advances state next reached ⟨mt List.isEmpty_iff.mpr more, steps⟩) longer
  | case5 state more behind next steps longer again stays =>
    exact absurd (advances state next reached ⟨mt List.isEmpty_iff.mpr more, steps⟩) longer

/- A word in front of any text. -/

theorem words_of_reachable {v : Vocabulary σ α} (reachable : v.Reachable) (config : Config α) :
    [] ∉ (make v config).labels := by
  intro member
  obtain ⟨label, inside, empty⟩ := List.mem_map.mp member
  exact (isValidLabel_iff.mp (reachable.regular.isUsable inside).2).1 empty

/-- A letter other than the character. -/
def otherLetter (c : Char) : Char := if c = 'f' then 'g' else 'f'

theorem otherLetter_cases (c : Char) :
    otherLetter c ≠ c ∧ (otherLetter c = 'f' ∨ otherLetter c = 'g') := by
  unfold otherLetter
  split
  · rename_i same
    exact ⟨same ▸ by decide, .inr rfl⟩
  · rename_i other
    exact ⟨Ne.symm other, .inl rfl⟩

def oneCall (d : Char) : Function σ α :=
  ⟨String.ofList [d], .exactly 1, fun _ => Action.parameter 0⟩

theorem reachable_oneCall {d : Char} (letter : d = 'f' ∨ d = 'g') :
    (Vocabulary.empty.putFunction (oneCall d) : Vocabulary σ α).Reachable := by
  have added : Vocabulary.empty.addFunction (String.ofList [d]) (.whole 1)
      (fun _ => Action.parameter 0) =
        .ok ((oneCall d : Function σ α), Vocabulary.empty.putFunction (oneCall d)) := by
    rcases letter with rfl | rfl <;> rfl
  exact .change .empty (.addFunction added)

theorem labels_oneCall (d : Char) (config : Config α) :
    (make (Vocabulary.empty.putFunction (oneCall d) : Vocabulary σ α) config).labels = [[d]] := by
  have listed : (Vocabulary.empty.putFunction (oneCall d) : Vocabulary σ α).labels =
      [String.ofList [d]] := List.mergeSort_singleton _
  rw [make, labelChars, listed, List.map_singleton, String.toList_ofList]

/-- In front of any text the word is scanned first, and no sign is expected behind it. -/
theorem round_oneCall {d : Char} (letter : d = 'f' ∨ d = 'g') (config : Config α)
    (rest : List Char) :
    (make (Vocabulary.empty.putFunction (oneCall d) : Vocabulary σ α) config).Round
      (d :: rest) ⟨[], true, d :: rest⟩
      ⟨[.symbol (.call (.function (oneCall d)))], false, rest⟩ := by
  have called : (Vocabulary.empty.putFunction (oneCall d) : Vocabulary σ α).callable?
      (String.ofList [d]) = some (.function (oneCall d)) := by
    have there : (Vocabulary.empty.putFunction (oneCall d) : Vocabulary σ α).functions.get?
        (String.ofList [d]) = some (oneCall d) := by
      rw [Vocabulary.putFunction, Vocabulary.touch, Entries.get?_insert]
      exact if_pos rfl
    rw [Vocabulary.callable?, there]
  have plain : Separator.ofChar? d = none ∧ signLabel? d = none := by
    rcases letter with rfl | rfl <;> exact ⟨rfl, rfl⟩
  have found : (make (Vocabulary.empty.putFunction (oneCall d) : Vocabulary σ α) config).labelAt?
      (d :: rest) = some [d] := by
    rw [labelAt?, labels_oneCall]
    simp [List.isPrefixOf]
  refine ⟨List.cons_ne_nil _ _, ?_⟩
  simp only [step, plain, if_true, found, scanLabel]
  simp only [make, called]
  rfl

/-- Behind the word a symbol is found where the configuration finds one that takes nothing. -/
theorem takesSome_of_advances {config : Config α} (forgets : ∀ m ∈ config.matchers, m.Forgets)
    (all : ∀ v : Vocabulary σ α, v.Reachable → ∀ text, text.toList.all Text.isBlank = false →
      (make v config).Advances text) : config.TakesSome := by
  intro _ c rest noSeparator found idles
  obtain ⟨other, letter⟩ := otherLetter_cases c
  generalize otherLetter c = d at other letter
  let scanner : Scanner σ α := make (Vocabulary.empty.putFunction (oneCall d)) config
  let called : State σ α := ⟨[.symbol (.call (.function (oneCall d)))], false, c :: rest⟩
  have notBlank : (String.ofList (d :: c :: rest)).toList.all Text.isBlank = false := by
    rw [String.toList_ofList, List.all_cons]
    rcases letter with rfl | rfl <;> rfl
  have advances := all _ (reachable_oneCall letter) _ notBlank
  rw [Advances, Reaches, start, String.toList_ofList] at advances
  -- behind the word the state expects no sign, whatever the text goes on with
  have first := round_oneCall (σ := σ) letter config (c :: rest)
  have here : scanner.Idles (called.behind (d :: c :: rest)) called found := by
    refine ⟨⟨⟨c, rest, rfl, noSeparator, rfl⟩, ?_⟩, idles.elsewhere forgets _⟩
    rw [labelAt?, labels_oneCall]
    simp [called, List.isPrefixOf, other]
  have second : scanner.Round (d :: c :: rest) called
      ⟨[.symbol (symbolWithoutText found), .symbol (.call (.function (oneCall d)))], false,
        c :: rest⟩ := by
    refine ⟨List.cons_ne_nil _ _, ?_⟩
    rw [here.step_eq]
    rfl
  exact absurd (advances _ _ (.single first) second) (Nat.lt_irrefl _)

theorem Advances.of_takesSome {scanner : Scanner σ α} (words : [] ∉ scanner.labels)
    (takes : scanner.config.TakesSome) (text : String) : scanner.Advances text := by
  intro state next _ round
  exact (moves_of_step round.1 round.2).lt_of_takesSome words takes

theorem scan_eq_scanAll {scanner : Scanner σ α} {text : String}
    (notBlank : text.toList.all Text.isBlank = false) :
    scanner.scan text = scanner.scanAll text.toList (start text) := by
  unfold scan
  simp only
  rw [if_neg ((Bool.not_eq_true _).mpr notBlank)]
  rfl

/-- Let an engine read the patterns of an accepted configuration. Every round over a text fails or
takes some of it exactly if no place is reached where a symbol without text can be put behind the
tokens; the scan then ends after at most as many rounds as the text has characters, and otherwise
after one round more or, as it tells, never. All rounds advance if whatever the configuration finds
takes some text, as it does if each matcher that matches somewhere without text matches the empty
text; and for matchers that do not look behind, only then. -/
theorem advances_iff {compile : String → Except String Matcher} {read : String → Option α}
    {print display : α → Except Failure String} {operandPatterns : List String}
    {variablePattern : String} {maxDepth : Setting} {config : Config α}
    (made : Config.make compile read print display operandPatterns variablePattern maxDepth =
      .ok config) :
    (∀ v : Vocabulary σ α, v.Reachable → ∀ text, text.toList.all Text.isBlank = false →
      ((make v config).Advances text ↔ (make v config).NeverIdles text) ∧
      ((make v config).Advances text → ∃ count ≤ text.toList.length,
        (make v config).Loop text.toList count (start text) ((make v config).scan text)) ∧
      ((∃ count ≤ text.toList.length + 1,
        (make v config).Loop text.toList count (start text) ((make v config).scan text)) ∨
      (∃ position, (make v config).scan text = .error (.stalledPattern position)) ∧
        ∀ count result, ¬ (make v config).Loop text.toList count (start text) result)) ∧
    (config.TakesSome → ∀ v : Vocabulary σ α, v.Reachable → ∀ text,
      (make v config).Advances text) ∧
    ((∀ m ∈ config.matchers, m.Steady) → config.TakesSome) ∧
    ((∀ m ∈ config.matchers, m.Forgets) →
      (∀ v : Vocabulary σ α, v.Reachable → ∀ text, text.toList.all Text.isBlank = false →
        (make v config).Advances text) → config.TakesSome) := by
  refine ⟨fun v reachable text notBlank => ?_, fun takes v reachable text => ?_,
    Config.takesSome_of_steady (Config.not_matchesEmpty_of_make made), takesSome_of_advances⟩
  · have words := words_of_reachable reachable config
    rw [scan_eq_scanAll notBlank]
    exact ⟨advances_iff_neverIdles words text, fun advances => advances.loop .refl,
      loop_or_endless words _ (start text)⟩
  · exact .of_takesSome (words_of_reachable reachable config) takes text

/- A pattern that looks ahead. -/

def beforeFive : Config Nat where
  read := fun _ => some 5
  print := fun n => .ok (toString n)
  display := fun n => .ok (toString n)
  operandPatterns :=
    [⟨"(?=5)", (Pattern.seq (.ahead true (.seq (.char (.one '5')) .empty)) .empty).matcher⟩]
  variablePattern := ⟨defaultVariablePattern, Pattern.name.matcher⟩
  maxDepth := none

theorem made_beforeFive :
    Config.make Pattern.compile (fun _ => some 5) (fun n => .ok (toString n))
      (fun n => .ok (toString n)) ["(?=5)"] defaultVariablePattern .absent = .ok beforeFive := rfl

/-- The configuration is accepted, but it finds an operand in front of a five again and again. -/
theorem idles_beforeFive (behind : List Char) : beforeFive.Idles behind ['5'] (some 5) :=
  .operand rfl rfl

def star : Operator Unit Nat := ⟨"*", .left, 3, fun _ => Action.parameter 0, none⟩

theorem reachable_star : (Vocabulary.empty.putOperator star).Reachable := by
  have added : Vocabulary.empty.addOperator "*" "INFIX" (.whole 3) star.body =
      .ok (star, Vocabulary.empty.putOperator star) := rfl
  exact .change .empty (.addOperator added)

theorem idles_star : (make (Vocabulary.empty.putOperator star) beforeFive).Idles
    ((start "5" : State Unit Nat).behind ['5']) (start "5") (some 5) :=
  ⟨⟨⟨'5', [], rfl, rfl, rfl⟩, by decide +kernel⟩, idles_beforeFive _⟩

/-- With a product to put between the operands, scanning a five never comes to an end. -/
theorem endless_beforeFive (count : Nat) (result : Except Failure (List (Token Unit Nat))) :
    ¬ (make (Vocabulary.empty.putOperator star) beforeFive).Loop ['5'] count (start "5")
      result := by
  intro loop
  have marked : (Vocabulary.empty.putOperator star).marker impliedProduct =
      .ok { star with label := impliedProduct, symbol := some "*" } := rfl
  obtain ⟨less, later⟩ := loop.of_round ⟨List.cons_ne_nil _ _, idles_star.step_eq⟩
  exact (idles_star.again _).endless marked (complete_cons.mpr rfl) later

/-- The configuration is accepted, and yet some round takes nothing, and the scan never ends. -/
theorem advances_iff_beforeFive :
    Config.make Pattern.compile (fun _ => some 5) (fun n => .ok (toString n))
      (fun n => .ok (toString n)) ["(?=5)"] defaultVariablePattern .absent = .ok beforeFive ∧
    ¬ (make (Vocabulary.empty.putOperator star) beforeFive).Advances "5" ∧
    ∃ position, (make (Vocabulary.empty.putOperator star) beforeFive).scan "5" =
      .error (.stalledPattern position) := by
  obtain ⟨advances, _, ends⟩ :=
    (advances_iff (σ := Unit) made_beforeFive).1 _ reachable_star "5" rfl
  refine ⟨made_beforeFive, fun all => ?_, ?_⟩
  · exact advances.mp all _ _ _ .refl idles_star rfl
  · rcases ends with ⟨count, _, loop⟩ | ⟨stalled, _⟩
    · exact absurd loop (endless_beforeFive count _)
    · exact stalled

end Scanner
end InfixCalc
