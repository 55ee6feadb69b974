import InfixCalc.Proofs.Conversion.Joined
import InfixCalc.Proofs.Printed.Shelter
import InfixCalc.Proofs.Scan.Progress

/-!
# What scanning refuses

With the default patterns every step takes some text, so scanning comes to its end, and what it
refuses is refused as text that cannot be scanned. The tokens that it gives have an implied product
between any two operands that stand side by side.
-/

namespace InfixCalc

variable {σ α : Type}

/-- The cause of a text that cannot be scanned. A pattern that takes nothing is not among them. -/
def Failure.IsLexical (cause : Failure) : Prop :=
  cause.stage = .lexing ∧ ∀ position, cause ≠ .stalledPattern position

namespace Vocabulary

theorem undefined_of_marker {v : Vocabulary σ α} {label : String} {cause : Failure}
    (reserved : label ∈ reservedLabels) (failed : v.marker label = .error cause) :
    ∃ source, (source = "-" ∨ source = "*") ∧ cause = .undefinedSymbol source := by
  unfold marker at failed
  simp only at failed
  split at failed
  · split at failed <;> cases failed
  · rename_i notPlus
    split at failed
    · split at failed
      · cases failed
      · cases failed
        exact ⟨"-", .inl rfl, rfl⟩
    · rename_i notMinus
      split at failed
      · split at failed
        · cases failed
        · cases failed
          exact ⟨"*", .inr rfl, rfl⟩
      · rename_i notProduct
        simp [reservedLabels, notPlus, notMinus, notProduct] at reserved

theorem isBetween_of_marker {v : Vocabulary σ α} (regular : v.Regular) {product : Operator σ α}
    (marked : v.marker impliedProduct = .ok product) : product.fixity.isBetween = true := by
  rcases marker_cases regular marked with ⟨c, signed, _⟩ | ⟨_, source, found, rfl⟩
  · exact absurd rfl (Scanner.signLabel?_ne_product signed)
  · exact (regular.between "*" source found).2.2.2

end Vocabulary

namespace Scanner

/-- How the scanner refuses a text: it is blank, a sign or an implied product has no operator to
stand for, a word does not fit where it stands, an operand cannot be read, or a character begins
none of these. -/
inductive Refuses (scanner : Scanner σ α) : Failure → Prop where
  | blank : Refuses scanner .blankExpression
  | undefined {source : String} :
      source = "-" ∨ source = "*" → Refuses scanner (.undefinedSymbol source)
  | word {text label : List Char} :
      scanner.labelAt? text = some label → Refuses scanner (.undefinedSymbol (String.ofList label))
  | operand {behind text taken left : List Char} :
      scanner.operandAt? behind text = some (taken, left) →
        Refuses scanner (.unreadableOperand (String.ofList taken))
  | character {position : Nat} {c : Char} :
      Text.isBlank c = false → Refuses scanner (.unexpectedCharacter position c)

theorem Refuses.isLexical {scanner : Scanner σ α} {cause : Failure}
    (refuses : scanner.Refuses cause) : cause.IsLexical := by
  cases refuses with
  | blank => exact ⟨rfl, fun _ => Failure.noConfusion⟩
  | undefined _ => exact ⟨rfl, fun _ => Failure.noConfusion⟩
  | word _ => exact ⟨rfl, fun _ => Failure.noConfusion⟩
  | operand _ => exact ⟨rfl, fun _ => Failure.noConfusion⟩
  | character _ => exact ⟨rfl, fun _ => Failure.noConfusion⟩

theorem refuses_of_marker {scanner : Scanner σ α} {label : String} {cause : Failure}
    (reserved : label ∈ reservedLabels) (failed : scanner.vocabulary.marker label = .error cause) :
    scanner.Refuses cause := by
  obtain ⟨source, which, rfl⟩ := Vocabulary.undefined_of_marker reserved failed
  exact .undefined which

theorem refuses_of_withProduct {scanner : Scanner σ α} {state : State σ α} {cause : Failure}
    (failed : scanner.withProduct state = .error cause) : scanner.Refuses cause := by
  unfold withProduct at failed
  split at failed
  · rcases bind_eq_error_iff.mp failed with missing | ⟨_, _, never⟩
    · exact refuses_of_marker (by decide) missing
    · cases never
  · cases failed

theorem refuses_of_scanSeparator {scanner : Scanner σ α} {state : State σ α} {s : Separator}
    {rest : List Char} {cause : Failure}
    (failed : scanner.scanSeparator state s rest = .error cause) : scanner.Refuses cause := by
  unfold scanSeparator at failed
  simp only at failed
  split at failed
  · rcases bind_eq_error_iff.mp failed with joined | ⟨_, _, never⟩
    · exact refuses_of_withProduct joined
    · cases never
  · cases failed

theorem refuses_of_scanLabel {scanner : Scanner σ α} {state : State σ α} {text label : List Char}
    (found : scanner.labelAt? text = some label) {rest : List Char} {cause : Failure}
    (failed : scanner.scanLabel state (String.ofList label) rest = .error cause) :
    scanner.Refuses cause := by
  unfold scanLabel at failed
  split at failed
  · rcases bind_eq_error_iff.mp failed with joined | ⟨_, _, never⟩
    · exact refuses_of_withProduct joined
    · cases never
  · rcases bind_eq_error_iff.mp failed with unresolved | ⟨op, _, later⟩
    · unfold resolveOperator at unresolved
      simp only at unresolved
      split at unresolved
      · cases unresolved
      · cases unresolved
        exact .word found
    · simp only at later
      split at later
      · rcases bind_eq_error_iff.mp later with joined | ⟨_, _, never⟩
        · exact refuses_of_withProduct joined
        · cases never
      · cases later

theorem reserved_of_signLabel? {c : Char} {label : String} (signed : signLabel? c = some label) :
    label ∈ reservedLabels := by
  unfold signLabel? at signed
  split at signed
  · cases signed
    decide
  · cases signed
    decide
  · cases signed

theorem refuses_of_step {scanner : Scanner σ α} {behind : List Char} {state : State σ α}
    {cause : Failure} (failed : scanner.step behind state = .error cause) :
    scanner.Refuses cause := by
  unfold step at failed
  split at failed
  · cases failed
  · split at failed
    · exact refuses_of_scanSeparator failed
    · split at failed
      · rename_i label signed
        split at signed
        · rcases bind_eq_error_iff.mp failed with missing | ⟨_, _, never⟩
          · exact refuses_of_marker (reserved_of_signLabel? signed) missing
          · cases never
        · cases signed
      · split at failed
        · rename_i label found
          exact refuses_of_scanLabel found failed
        · split at failed
          · rename_i text after found
            rcases bind_eq_error_iff.mp failed with joined | ⟨_, _, later⟩
            · exact refuses_of_withProduct joined
            · split at later
              · cases later
              · cases later
                exact .operand found
          · split at failed
            · rcases bind_eq_error_iff.mp failed with joined | ⟨_, _, never⟩
              · exact refuses_of_withProduct joined
              · cases never
            · split at failed
              · cases failed
              · rename_i notBlank
                cases failed
                exact .character ((Bool.not_eq_true _).mp notBlank)

section Ready

variable {scanner : Scanner σ α} (ready : scanner.Ready)
include ready

theorem Ready.words : [] ∉ scanner.labels := fun member => (ready.inWord member).1 rfl

theorem Ready.refuses_of_scanAll {whole : List Char} {state : State σ α} {cause : Failure}
    (failed : scanner.scanAll whole state = .error cause) : scanner.Refuses cause := by
  fun_induction scanAll scanner whole state with
  | case1 state ended => cases failed
  | case2 state more behind other refused =>
    cases failed
    exact refuses_of_step refused
  | case3 state more behind next moved shorter ih => exact ih failed
  | case4 state more behind next moved longer other refused =>
    cases failed
    exact refuses_of_step refused
  | case5 state more behind next moved longer again stays =>
    have some_ : state.rest ≠ [] := fun none => more (List.isEmpty_iff.mpr none)
    have moves := moves_of_step some_ moved
    exact absurd (moves.lt_of_takesSome ready.words ready.standard.takesSome) longer

theorem Ready.refuses_of_scan {text : String} {cause : Failure}
    (failed : scanner.scan text = .error cause) : scanner.Refuses cause := by
  unfold scan at failed
  simp only at failed
  split at failed
  · cases failed
    exact .blank
  · exact ready.refuses_of_scanAll failed

/- No operand begins behind one that has ended. -/

omit ready in
/-- The tokens, last one first, stand side by side as they may, and no sign is expected behind an
operand. -/
structure Joined (state : State σ α) : Prop where
  chain : state.tokens.IsChain fun later earlier => earlier.Joins later
  sign : state.expectsSign = true → Fresh state.tokens

omit ready in
theorem joins_of_fresh {tokens : List (Token σ α)} (fresh : Fresh tokens) (u : Token σ α) :
    ∀ t ∈ tokens.head?, t.Joins u := by
  intro t member ended
  rw [fresh t member] at ended
  cases ended

omit ready in
theorem fresh_of_operandEnded {state : State σ α} (notEnded : state.operandEnded = false) :
    Fresh state.tokens := by
  intro t member
  unfold State.operandEnded at notEnded
  split at notEnded
  · rename_i last rest listed
    rw [listed] at member
    cases member
    exact notEnded
  · rename_i listed
    rw [listed] at member
    cases member

theorem Ready.chain_withProduct {state : State σ α} {before : List (Token σ α)}
    (joined : Joined state) (product : scanner.withProduct state = .ok before) :
    Fresh before ∧ before.IsChain fun later earlier => earlier.Joins later := by
  rcases withProduct_eq_ok product with ⟨notEnded, rfl⟩ | ⟨_, op, marked, rfl⟩
  · exact ⟨fresh_of_operandEnded notEnded, joined.chain⟩
  · have between := Vocabulary.isBetween_of_marker ready.regular marked
    obtain ⟨notBefore, notAfter⟩ := Fixity.isBetween_iff.mp between
    constructor
    · exact fresh_operator notAfter _
    · refine List.isChain_cons.mpr ⟨?_, joined.chain⟩
      intro t _ _
      exact beq_eq_false_iff_ne.mpr notBefore

theorem Ready.joined_moves {behind : List Char} {state next : State σ α}
    (moves : scanner.Moves behind state next) (joined : Joined state) : Joined next := by
  cases moves with
  | openParen _ _ product =>
    obtain ⟨fresh, chain⟩ := ready.chain_withProduct joined product
    exact ⟨List.isChain_cons.mpr ⟨joins_of_fresh fresh _, chain⟩, fun _ => fresh_cons.mpr rfl⟩
  | @separator s c rest _ _ other =>
    refine ⟨List.isChain_cons.mpr ⟨fun t _ _ => beq_eq_false_iff_ne.mpr other, joined.chain⟩, ?_⟩
    intro expects
    exact fresh_cons.mpr (beq_eq_false_iff_ne.mpr (bne_iff_ne.mp expects))
  | @sign label op c rest _ expects signed marked =>
    refine ⟨List.isChain_cons.mpr ⟨joins_of_fresh (joined.sign expects) _, joined.chain⟩, ?_⟩
    intro _
    refine fresh_operator ?_ _
    rcases Vocabulary.marker_cases ready.regular marked with ⟨_, _, fixity, _⟩ | ⟨product, _⟩
    · rw [fixity]
      decide
    · exact absurd product (signLabel?_ne_product signed)
  | call _ _ _ product =>
    obtain ⟨fresh, chain⟩ := ready.chain_withProduct joined product
    exact ⟨List.isChain_cons.mpr ⟨joins_of_fresh fresh _, chain⟩, fun never => nomatch never⟩
  | @before label op before _ _ _ _ fixity product =>
    obtain ⟨fresh, chain⟩ := ready.chain_withProduct joined product
    refine ⟨List.isChain_cons.mpr ⟨joins_of_fresh fresh _, chain⟩, fun _ => ?_⟩
    exact fresh_operator (fixity.trans_ne (by decide)) _
  | @behind label op _ _ _ _ fixity =>
    refine ⟨List.isChain_cons.mpr ⟨fun t _ _ => beq_eq_false_iff_ne.mpr fixity, joined.chain⟩, ?_⟩
    intro expects
    exact fresh_operator (bne_iff_ne.mp expects) _
  | operand _ _ _ product =>
    obtain ⟨fresh, chain⟩ := ready.chain_withProduct joined product
    exact ⟨List.isChain_cons.mpr ⟨joins_of_fresh fresh _, chain⟩, fun never => nomatch never⟩
  | name _ _ _ product =>
    obtain ⟨fresh, chain⟩ := ready.chain_withProduct joined product
    exact ⟨List.isChain_cons.mpr ⟨joins_of_fresh fresh _, chain⟩, fun never => nomatch never⟩
  | blank _ _ => exact ⟨joined.chain, joined.sign⟩

theorem Ready.joined_runs {state last : State σ α} (runs : scanner.Runs state last)
    (joined : Joined state) : Joined last := by
  induction runs with
  | refl => exact joined
  | tail _ advances ih =>
    obtain ⟨⟨_, moves⟩, _⟩ := advances
    exact ready.joined_moves moves ih

/-- In the tokens of a text no operand begins directly behind one that has ended. -/
theorem Ready.joins_of_scan {text : String} {tokens : List (Token σ α)}
    (scanned : scanner.scan text = .ok tokens) : tokens.IsChain Token.Joins := by
  unfold scan at scanned
  simp only at scanned
  split at scanned
  · cases scanned
  · obtain ⟨last, runs, _, rfl⟩ := runs_of_scanAll scanned
    exact List.isChain_reverse.mpr (ready.joined_runs runs ⟨.nil, fun _ => fresh_nil⟩).chain

end Ready

end Scanner
end InfixCalc
