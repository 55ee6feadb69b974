import InfixCalc.Proofs.RoundTrip
import InfixCalc.Proofs.Scan.Refusal

/-!
# Segments of a scanned text

A text that is scanned falls into pieces that follow one another: runs of blanks, and the texts of
its tokens. Nothing of the text is lost, and no token is made up but the implied products between an
operand that has ended and one that begins.
-/

namespace InfixCalc

variable {σ α : Type}

namespace Scanner

/-- Some characters of a text and the token that they spell; blanks spell none. -/
structure Piece (σ α : Type) where
  source : List Char
  token : Option (Token σ α)

def Piece.sources (pieces : List (Piece σ α)) : List Char := pieces.flatMap Piece.source

def Piece.tokens (pieces : List (Piece σ α)) : List (Token σ α) := pieces.filterMap Piece.token

/-- Whether `+` and `-` are signs behind the token. They are at the beginning, and behind an opening
parenthesis, a comma and an operator that does not stand behind its operand. -/
def takesSign : Option (Token σ α) → Bool
  | none => true
  | some (.separator s) => s == .openParen || s == .comma
  | some (.symbol (.operator op)) => op.fixity != .after
  | some (.symbol _) => false

def isImplied : Token σ α → Bool
  | .symbol (.operator op) => op.label == impliedProduct
  | _ => false

/-- Whether the token has been found by its label. -/
def isWord : Token σ α → Bool
  | .symbol (.operator op) => !Tree.isSign op
  | .symbol (.call _) => true
  | _ => false

/-- Whether a product is implied between the tokens. -/
def adjoins (last : Option (Token σ α)) (next : Token σ α) : Bool :=
  last.any Token.endsOperand && next.startsOperand

/-- The longest label that the text begins with. -/
structure IsLongest (v : Vocabulary σ α) (label : String) (text : List Char) : Prop where
  registered : label ∈ v.labels
  front : label.toList <+: text
  longest : ∀ other ∈ v.labels, other.toList <+: text → other.length ≤ label.length

/-- What the characters spell behind the last token and in front of the rest of the text. -/
inductive Spells (scanner : Scanner σ α) (last : Option (Token σ α)) (rest : List Char) :
    List Char → Option (Token σ α) → Prop where
  | blank {source : List Char} :
      (∀ c ∈ source, Text.isBlank c = true) → (∀ c ∈ rest.head?, Text.isBlank c = false) →
        Spells scanner last rest source none
  | separator {c : Char} {s : Separator} :
      Separator.ofChar? c = some s → Spells scanner last rest [c] (some (.separator s))
  | sign {c : Char} {label : String} {sign : Operator σ α} :
      signLabel? c = some label → takesSign last = true →
      scanner.vocabulary.marker label = .ok sign →
        Spells scanner last rest [c] (some (.symbol (.operator sign)))
  | call {source : List Char} {callable : Callable σ α} :
      IsLongest scanner.vocabulary (String.ofList source) (source ++ rest) →
      (takesSign last = true → beginsLikeSign (String.ofList source) = false) →
      scanner.vocabulary.callable? (String.ofList source) = some callable →
        Spells scanner last rest source (some (.symbol (.call callable)))
  | operator {source : List Char} {op : Operator σ α} :
      IsLongest scanner.vocabulary (String.ofList source) (source ++ rest) →
      (takesSign last = true → beginsLikeSign (String.ofList source) = false) →
      scanner.vocabulary.callable? (String.ofList source) = none →
      scanner.resolveOperator (String.ofList source) (last.any Token.endsOperand) = .ok op →
        Spells scanner last rest source (some (.symbol (.operator op)))
  | operand {source : List Char} {value : α} :
      scanner.labelAt? (source ++ rest) = none →
      (∀ behind, scanner.operandAt? behind (source ++ rest) = some (source, rest)) →
      scanner.config.read (String.ofList source) = some value →
        Spells scanner last rest source (some (.symbol (.operand value)))
  | name {source : List Char} :
      scanner.labelAt? (source ++ rest) = none →
      (∀ behind,
        scanner.config.variablePattern.matcher.split? behind (source ++ rest) =
          some (source, rest)) →
        Spells scanner last rest source (some (.symbol (.variable (String.ofList source))))

/-- Pieces that follow one another behind the last token, none of them empty. -/
inductive Cut (scanner : Scanner σ α) : Option (Token σ α) → List (Piece σ α) → Prop where
  | nil {last : Option (Token σ α)} : Cut scanner last []
  | cons {last : Option (Token σ α)} {p : Piece σ α} {pieces : List (Piece σ α)} :
      p.source ≠ [] → scanner.Spells last (Piece.sources pieces) p.source p.token →
      Cut scanner (p.token.or last) pieces → Cut scanner last (p :: pieces)

/-- The tokens are those that are written, with a product wherever one is implied. -/
inductive Multiplied (v : Vocabulary σ α) :
    Option (Token σ α) → List (Token σ α) → List (Token σ α) → Prop where
  | nil {last : Option (Token σ α)} : Multiplied v last [] []
  | apart {last : Option (Token σ α)} {t : Token σ α} {written tokens : List (Token σ α)} :
      adjoins last t = false → Multiplied v (some t) written tokens →
        Multiplied v last (t :: written) (t :: tokens)
  | product {last : Option (Token σ α)} {t : Token σ α} {product : Operator σ α}
      {written tokens : List (Token σ α)} :
      adjoins last t = true → v.marker impliedProduct = .ok product →
      Multiplied v (some t) written tokens →
        Multiplied v last (t :: written) (.symbol (.operator product) :: t :: tokens)

/-- What a step puts behind the tokens that are there, last one first. -/
inductive Adds (v : Vocabulary σ α) (tokens : List (Token σ α)) :
    Option (Token σ α) → List (Token σ α) → Prop where
  | nothing : Adds v tokens none tokens
  | apart {t : Token σ α} : adjoins tokens.head? t = false → Adds v tokens (some t) (t :: tokens)
  | product {t : Token σ α} {product : Operator σ α} :
      adjoins tokens.head? t = true → v.marker impliedProduct = .ok product →
        Adds v tokens (some t) (t :: .symbol (.operator product) :: tokens)

/- One step. -/

theorem isSign_of_marker {v : Vocabulary σ α} {c : Char} {label : String} {sign : Operator σ α}
    (signed : signLabel? c = some label) (marked : v.marker label = .ok sign) :
    Tree.isSign sign = true := by
  rw [Tree.isSign, Vocabulary.label_marker marked]
  unfold signLabel? at signed
  split at signed
  · cases signed
    rfl
  · cases signed
    rfl
  · cases signed

theorem operandEnded_eq (state : State σ α) :
    state.operandEnded = state.tokens.head?.any Token.endsOperand := by
  unfold State.operandEnded
  cases state.tokens with
  | nil => rfl
  | cons t tokens => rfl

theorem adds_of_withProduct {scanner : Scanner σ α} {state : State σ α}
    {before : List (Token σ α)} (joined : scanner.withProduct state = .ok before) {t : Token σ α}
    (starts : t.startsOperand = true) :
    Adds scanner.vocabulary state.tokens (some t) (t :: before) := by
  have same : adjoins state.tokens.head? t = state.operandEnded := by
    rw [adjoins, starts, Bool.and_true, operandEnded_eq]
  rcases withProduct_eq_ok joined with ⟨notEnded, rfl⟩ | ⟨ended, product, marked, rfl⟩
  · exact .apart (same.trans notEnded)
  · exact .product (same.trans ended) marked

theorem adds_of_not_startsOperand (v : Vocabulary σ α) (tokens : List (Token σ α)) {t : Token σ α}
    (starts : t.startsOperand = false) : Adds v tokens (some t) (t :: tokens) :=
  .apart (by rw [adjoins, starts, Bool.and_false])

theorem adjoins_of_takesSign {last : Option (Token σ α)} (takes : takesSign last = true)
    (t : Token σ α) : adjoins last t = false := by
  have notEnded : last.any Token.endsOperand = false := by
    match last, takes with
    | none, _ => rfl
    | some (.separator .openParen), _ => rfl
    | some (.separator .comma), _ => rfl
    | some (.symbol (.operator op)), takes =>
      exact beq_eq_false_iff_ne.mpr (bne_iff_ne.mp takes)
  rw [adjoins, notEnded, Bool.false_and]

/-- A step passes over one piece of the text and adds what the piece spells. -/
structure Passes (scanner : Scanner σ α) (state next : State σ α) (p : Piece σ α) : Prop where
  whole : p.source ++ next.rest = state.rest
  spells : scanner.Spells state.tokens.head? next.rest p.source p.token
  adds : Adds scanner.vocabulary state.tokens p.token next.tokens
  sign : next.expectsSign = takesSign next.tokens.head?

section Ready

variable {scanner : Scanner σ α} (ready : scanner.Ready)
include ready

theorem Ready.isLongest_of_labelAt? {text label : List Char}
    (found : scanner.labelAt? text = some label) :
    IsLongest scanner.vocabulary (String.ofList label) text := by
  have listed (other : String) : other ∈ scanner.vocabulary.labels ↔
      other.toList ∈ scanner.labels := by
    rw [ready.labels, labelChars, List.mem_map_of_injective]
    exact fun _ _ same => String.toList_inj.mp same
  refine ⟨?_, ?_, fun other registered front => ?_⟩
  · rw [listed, String.toList_ofList]
    exact List.mem_of_find?_eq_some found
  · rw [String.toList_ofList]
    exact isPrefix_of_labelAt? found
  · rw [String.length_ofList, ← String.length_toList]
    exact ready.length_le_of_labelAt? found ((listed other).mp registered) front

omit ready in
theorem append_drop_of_labelAt? {text label : List Char}
    (found : scanner.labelAt? text = some label) : label ++ text.drop label.length = text := by
  obtain ⟨rest, rfl⟩ := isPrefix_of_labelAt? found
  rw [List.drop_left]

/-- The label that is found stands in front, and no longer one does. -/
theorem Ready.label_in_front {text label : List Char} (found : scanner.labelAt? text = some label) :
    label ++ text.drop label.length = text ∧
      IsLongest scanner.vocabulary (String.ofList label) (label ++ text.drop label.length) := by
  have whole := append_drop_of_labelAt? found
  refine ⟨whole, ?_⟩
  rw [whole]
  exact ready.isLongest_of_labelAt? found

theorem Ready.passes_of_moves {behind : List Char} {state next : State σ α}
    (moves : scanner.Moves behind state next)
    (sign : state.expectsSign = takesSign state.tokens.head?) :
    ∃ p, scanner.Passes state next p := by
  cases moves with
  | @openParen before c rest left separates joined =>
    exact ⟨⟨[c], some (.separator .openParen)⟩, left.symm, .separator separates,
      adds_of_withProduct joined rfl, rfl⟩
  | @separator s c rest left separates other =>
    refine ⟨⟨[c], some (.separator s)⟩, left.symm, .separator separates,
      adds_of_not_startsOperand _ _ (beq_eq_false_iff_ne.mpr other), ?_⟩
    cases s with
    | openParen => exact absurd rfl other
    | closeParen => rfl
    | comma => rfl
  | @sign label op c rest left expects signed marked =>
    have takes := sign.symm.trans expects
    refine ⟨⟨[c], some (.symbol (.operator op))⟩, left.symm, .sign signed takes marked,
      .apart (adjoins_of_takesSign takes _), ?_⟩
    rcases Vocabulary.marker_cases ready.regular marked with ⟨_, _, fixity, _⟩ | ⟨product, _⟩
    · simp [takesSign, fixity]
    · exact absurd product (signLabel?_ne_product signed)
  | @call label callable before noSign found called joined =>
    obtain ⟨whole, longest⟩ := ready.label_in_front found
    exact ⟨⟨label, some (.symbol (.call callable))⟩, whole,
      .call longest (sign ▸ noSign) called, adds_of_withProduct joined rfl, rfl⟩
  | @before label op before noSign found notCalled resolved fixity joined =>
    obtain ⟨whole, longest⟩ := ready.label_in_front found
    rw [operandEnded_eq] at resolved
    refine ⟨⟨label, some (.symbol (.operator op))⟩, whole,
      .operator longest (sign ▸ noSign) notCalled resolved,
      adds_of_withProduct joined (beq_iff_eq.mpr fixity), ?_⟩
    simp [takesSign, fixity]
  | @behind label op noSign found notCalled resolved fixity =>
    obtain ⟨whole, longest⟩ := ready.label_in_front found
    rw [operandEnded_eq] at resolved
    exact ⟨⟨label, some (.symbol (.operator op))⟩, whole,
      .operator longest (sign ▸ noSign) notCalled resolved,
      adds_of_not_startsOperand _ _ (beq_eq_false_iff_ne.mpr fixity), rfl⟩
  | @operand text rest value before wordless found read joined =>
    have noLabel := wordless.noLabel
    have whole := ready.takesNumbers.append_eq found
    rw [← whole] at noLabel found
    have everywhere (other : List Char) :
        scanner.operandAt? other (text ++ rest) = some (text, rest) := by
      rw [ready.operandAt?_eq] at found ⊢
      exact found
    exact ⟨⟨text, some (.symbol (.operand value))⟩, whole, .operand noLabel everywhere read,
      adds_of_withProduct joined rfl, rfl⟩
  | @name text rest before wordless _ found joined =>
    have noLabel := wordless.noLabel
    have whole := Matcher.append_eq _ found
    rw [← whole] at noLabel found
    have everywhere (other : List Char) :
        scanner.config.variablePattern.matcher.split? other (text ++ rest) = some (text, rest) := by
      rw [ready.nameAt?_eq] at found ⊢
      exact found
    exact ⟨⟨text, some (.symbol (.variable (String.ofList text)))⟩, whole,
      .name noLabel everywhere, adds_of_withProduct joined rfl, rfl⟩
  | @blank c rest left blank =>
    refine ⟨⟨c :: rest.takeWhile Text.isBlank, none⟩, ?_, .blank ?_ ?_, .nothing, sign⟩
    · rw [left, List.cons_append, List.takeWhile_append_dropWhile]
    · exact List.forall_mem_cons.mpr ⟨blank, fun d member => List.mem_takeWhile_imp member⟩
    · intro d first
      have ends := List.head?_dropWhile_not Text.isBlank rest
      rw [Option.mem_def.mp first] at ends
      exact ends

/- All steps. -/

omit ready in
theorem Adds.head? {v : Vocabulary σ α} {tokens next : List (Token σ α)} {t : Option (Token σ α)}
    (adds : Adds v tokens t next) : next.head? = t.or tokens.head? := by
  cases adds <;> rfl

omit ready in
theorem Piece.tokens_cons (p : Piece σ α) (pieces : List (Piece σ α)) :
    tokens (p :: pieces) = p.token.toList ++ tokens pieces := by
  obtain ⟨source, token⟩ := p
  cases token <;> rfl

omit ready in
/-- What is added goes before what is added later. -/
theorem Adds.multiplied {v : Vocabulary σ α} {tokens next written later : List (Token σ α)}
    {t : Option (Token σ α)} (adds : Adds v tokens t next)
    (multiplied : Multiplied v next.head? written later) :
    ∃ all, Multiplied v tokens.head? (t.toList ++ written) all ∧
      all.reverse ++ tokens = later.reverse ++ next := by
  cases adds with
  | nothing => exact ⟨later, multiplied, rfl⟩
  | @apart t apart => exact ⟨t :: later, .apart apart multiplied, by simp⟩
  | @product t product adjoined marked =>
    exact ⟨.symbol (.operator product) :: t :: later, .product adjoined marked multiplied, by simp⟩

/-- The text that is left falls into what the steps pass over, one after another. -/
theorem Ready.exists_pieces {state last : State σ α} (runs : scanner.Runs state last)
    (done : last.rest = []) (sign : state.expectsSign = takesSign state.tokens.head?) :
    ∃ pieces tokens, Piece.sources pieces = state.rest ∧ scanner.Cut state.tokens.head? pieces ∧
      Multiplied scanner.vocabulary state.tokens.head? (Piece.tokens pieces) tokens ∧
      tokens.reverse ++ state.tokens = last.tokens := by
  induction runs using Relation.ReflTransGen.head_induction_on with
  | refl => exact ⟨[], [], done.symm, .nil, .nil, rfl⟩
  | @head state next advances _ ih =>
    obtain ⟨⟨_, moves⟩, shorter⟩ := advances
    obtain ⟨p, whole, spells, adds, signNext⟩ := ready.passes_of_moves moves sign
    obtain ⟨pieces, later, left, cut, multiplied, made⟩ := ih signNext
    obtain ⟨tokens, multiplied, joined⟩ := adds.multiplied multiplied
    rw [adds.head?] at cut
    rw [← left] at spells
    refine ⟨p :: pieces, tokens, ?_, .cons ?_ spells cut, ?_, joined.trans made⟩
    · rw [← whole, ← left]
      rfl
    · intro empty
      rw [empty, List.nil_append] at whole
      exact Nat.lt_irrefl _ (whole ▸ shorter)
    · rw [Piece.tokens_cons]
      exact multiplied

omit ready in
/-- What a piece spells depends on the last token of the pieces before it. -/
theorem Cut.spells {last : Option (Token σ α)} {before after : List (Piece σ α)} {p : Piece σ α}
    (cut : scanner.Cut last (before ++ p :: after)) :
    p.source ≠ [] ∧ scanner.Spells ((Piece.tokens before).getLast?.or last)
      (Piece.sources after) p.source p.token := by
  induction before generalizing last with
  | nil =>
    cases cut with
    | cons some_ spells _ => exact ⟨some_, spells⟩
  | cons q before ih =>
    cases cut with
    | cons _ _ later =>
      have same : (Piece.tokens before).getLast?.or (q.token.or last) =
          (Piece.tokens (q :: before)).getLast?.or last := by
        rw [Piece.tokens_cons, List.getLast?_append, ← Option.or_assoc]
        cases q.token <;> rfl
      rw [← same]
      exact ih later

/- What a piece tells. -/

omit ready in
theorem Spells.isLongest {last : Option (Token σ α)} {source rest : List Char} {t : Token σ α}
    (spells : scanner.Spells last rest source (some t)) (word : isWord t = true) :
    IsLongest scanner.vocabulary (String.ofList source) (source ++ rest) := by
  cases spells with
  | separator _ => cases word
  | sign signed _ marked =>
    rw [isWord, isSign_of_marker signed marked] at word
    cases word
  | call longest _ _ => exact longest
  | operator longest _ _ _ => exact longest
  | operand _ _ _ => cases word
  | name _ _ => cases word

theorem Ready.not_reserved {label : String} {afterOperand : Bool} {op : Operator σ α}
    (registered : label ∈ scanner.vocabulary.labels)
    (notCalled : scanner.vocabulary.callable? label = none)
    (resolved : scanner.resolveOperator label afterOperand = .ok op) :
    op.label ∉ reservedLabels := by
  rw [(ready.offers_of_resolveOperator notCalled resolved).1]
  exact (ready.regular.isUsable registered).1

theorem Ready.not_isImplied_of_spells {last : Option (Token σ α)} {source rest : List Char}
    {t : Token σ α} (spells : scanner.Spells last rest source (some t)) : isImplied t = false := by
  cases spells with
  | separator _ => rfl
  | sign signed _ marked =>
    rw [isImplied, Vocabulary.label_marker marked]
    exact beq_eq_false_iff_ne.mpr (signLabel?_ne_product signed)
  | call _ _ _ => rfl
  | operator longest _ notCalled resolved =>
    refine beq_eq_false_iff_ne.mpr fun same => ?_
    refine ready.not_reserved longest.registered notCalled resolved ?_
    rw [same]
    decide
  | operand _ _ _ => rfl
  | name _ _ => rfl

/-- A plus or a minus in front of a piece is a sign exactly where signs may stand. -/
theorem Ready.spells_sign_iff {last : Option (Token σ α)} {c : Char} {rest cs : List Char}
    {token : Option (Token σ α)} (spells : scanner.Spells last rest (c :: cs) token)
    (signed : (signLabel? c).isSome = true) :
    (∃ sign, token = some (.symbol (.operator sign)) ∧ signLabel? c = some sign.label) ↔
      takesSign last = true := by
  have begins : beginsLikeSign (String.ofList (c :: cs)) = true := by
    rw [beginsLikeSign, String.toList_ofList]
    exact signed
  generalize source : c :: cs = chars at spells begins
  cases spells with
  | blank blanks _ =>
    subst source
    rw [signLabel?_of_isBlank (blanks c List.mem_cons_self)] at signed
    cases signed
  | separator separates =>
    cases source
    obtain ⟨label, found⟩ := Option.isSome_iff_exists.mp signed
    cases (ofChar?_of_signLabel? found).symm.trans separates
  | @sign d label sign found takes marked =>
    cases source
    refine iff_of_true ⟨sign, rfl, ?_⟩ takes
    rw [Vocabulary.label_marker marked, found]
  | call _ noSign _ =>
    refine iff_of_false ?_ fun takes => Bool.noConfusion ((noSign takes).symm.trans begins)
    rintro ⟨_, never, _⟩
    cases never
  | operator longest noSign notCalled resolved =>
    refine iff_of_false ?_ fun takes => Bool.noConfusion ((noSign takes).symm.trans begins)
    rintro ⟨sign, same, found⟩
    cases same
    exact ready.not_reserved longest.registered notCalled resolved (reserved_of_signLabel? found)
  | operand _ found _ =>
    subst source
    rw [(operand_first (ready.takesNumbers.beginsOperand (found []))).2] at signed
    cases signed
  | name _ found =>
    subst source
    have split := found []
    rw [ready.nameAt?_eq] at split
    obtain ⟨_, d, ds, same, letter⟩ := Pattern.split?_name split
    cases same
    rw [signLabel?_of_letter letter] at signed
    cases signed

end Ready

/- The whole text. -/

theorem Multiplied.filter_eq {v : Vocabulary σ α} {last : Option (Token σ α)}
    {written tokens : List (Token σ α)} (multiplied : Multiplied v last written tokens)
    (plain : ∀ t ∈ written, isImplied t = false) : tokens.filter (!isImplied ·) = written := by
  induction multiplied with
  | nil => rfl
  | apart _ _ ih =>
    obtain ⟨here, later⟩ := List.forall_mem_cons.mp plain
    rw [List.filter_cons_of_pos (by simp [here]), ih later]
  | product _ marked _ ih =>
    obtain ⟨here, later⟩ := List.forall_mem_cons.mp plain
    have implied : isImplied (.symbol (.operator _) : Token σ α) = true :=
      beq_iff_eq.mpr (Vocabulary.label_marker marked)
    rw [List.filter_cons_of_neg (by simp [implied]), List.filter_cons_of_pos (by simp [here]),
      ih later]

theorem Ready.not_isImplied_of_cut {scanner : Scanner σ α} (ready : scanner.Ready)
    {last : Option (Token σ α)} {pieces : List (Piece σ α)} (cut : scanner.Cut last pieces) :
    ∀ t ∈ Piece.tokens pieces, isImplied t = false := by
  induction cut with
  | nil => simp [Piece.tokens]
  | @cons last p pieces _ spells _ ih =>
    rw [Piece.tokens_cons]
    intro t member
    rcases List.mem_append.mp member with here | later
    · rw [Option.mem_toList] at here
      rw [here] at spells
      exact ready.not_isImplied_of_spells spells
    · exact ih t later

/-- The pieces make up the text, and each spells blanks or one token behind the tokens before it.
Without the implied products the tokens are those that the pieces spell. A word is the longest label
there is at its place, `+` and `-` are signs exactly where signs may stand, and a product is implied
exactly between an operand that has ended and one that begins. -/
structure Segments (scanner : Scanner σ α) (text : List Char) (pieces : List (Piece σ α))
    (tokens : List (Token σ α)) : Prop where
  whole : Piece.sources pieces = text
  spells : ∀ before p after, pieces = before ++ p :: after → p.source ≠ [] ∧
    scanner.Spells (Piece.tokens before).getLast? (Piece.sources after) p.source p.token
  written : tokens.filter (!isImplied ·) = Piece.tokens pieces
  longest : ∀ before p after t, pieces = before ++ p :: after → p.token = some t →
    isWord t = true →
      IsLongest scanner.vocabulary (String.ofList p.source) (p.source ++ Piece.sources after)
  signs : ∀ before p after c cs, pieces = before ++ p :: after → p.source = c :: cs →
    (signLabel? c).isSome = true →
      ((∃ sign, p.token = some (.symbol (.operator sign)) ∧ signLabel? c = some sign.label) ↔
        takesSign (Piece.tokens before).getLast? = true)
  products : Multiplied scanner.vocabulary none (Piece.tokens pieces) tokens

theorem Ready.exists_segments {scanner : Scanner σ α} (ready : scanner.Ready) {text : String}
    {tokens : List (Token σ α)} (scanned : scanner.scan text = .ok tokens) :
    ∃ pieces, scanner.Segments text.toList pieces tokens := by
  unfold scan at scanned
  simp only at scanned
  split at scanned
  · cases scanned
  · obtain ⟨last, runs, done, rfl⟩ := runs_of_scanAll scanned
    obtain ⟨pieces, tokens, whole, cut, multiplied, made⟩ := ready.exists_pieces runs done rfl
    rw [List.append_nil] at made
    rw [← made, List.reverse_reverse]
    have spells (before : List (Piece σ α)) (p : Piece σ α) (after : List (Piece σ α))
        (same : pieces = before ++ p :: after) :
        p.source ≠ [] ∧ scanner.Spells (Piece.tokens before).getLast? (Piece.sources after)
          p.source p.token := by
      have here := (same ▸ cut : scanner.Cut none (before ++ p :: after)).spells
      rwa [Option.or_none] at here
    refine ⟨pieces, whole, spells, multiplied.filter_eq (ready.not_isImplied_of_cut cut), ?_, ?_,
      multiplied⟩
    · intro before p after t same spelled word
      have here := (spells before p after same).2
      rw [spelled] at here
      exact here.isLongest word
    · intro before p after c cs same source signed
      have here := (spells before p after same).2
      rw [source] at here
      exact ready.spells_sign_iff here signed

/-- With the default patterns, every text that is scanned over a vocabulary that comes about falls
into such pieces. -/
theorem exists_segments_of_scan {v : Vocabulary σ α} (reachable : v.Reachable)
    {read : String → Option α} {print display : α → Except Failure String} {maxDepth : Setting}
    {config : Config α} (standard : Config.standard read print display maxDepth = .ok config)
    {text : String} {tokens : List (Token σ α)}
    (scanned : (make v config).scan text = .ok tokens) :
    ∃ pieces, (make v config).Segments text.toList pieces tokens :=
  Ready.exists_segments ⟨(Config.standard_eq_ok standard).1, rfl, reachable.regular⟩ scanned

/-- An operator, a number and a name, with a product implied between the number and the name. -/
def tiedTokens : List (Token Unit Nat) :=
  [.symbol (.operator (plainOperator "neg" .before 3)), .symbol (.operand 2),
    .symbol (.operator
      { plainOperator "*" .left 3 with label := impliedProduct, symbol := some "*" }),
    .symbol (.variable "a")]

theorem exists_segments_of_scan_tied :
    (make tiedVocabulary plainConfig).scan "neg 2a" = .ok tiedTokens ∧
      ∃ pieces, (make tiedVocabulary plainConfig).Segments "neg 2a".toList pieces tiedTokens := by
  have scanned : (make tiedVocabulary plainConfig).scan "neg 2a" = .ok tiedTokens := by
    rw [tiedTokens]
    cbv
  exact ⟨scanned, exists_segments_of_scan reachable_tiedVocabulary standard_plainConfig scanned⟩

end Scanner
end InfixCalc
