import InfixCalc.Proofs.Printed.Phrase

/-!
# Scanning what was printed

The written form of a spoken tree is scanned as the tokens of its printed phrase, if no symbol of
the tree looks like a sign and every literal is read as it is printed.
-/

namespace InfixCalc

variable {σ α : Type}

namespace Scanner

theorem complete_of_wellFormed {p : Phrase σ α} (h : p.WellFormed) (tokens : List (Token σ α)) :
    Complete (p.tokens.reverse ++ tokens) := by
  obtain ⟨front, last, same, ends⟩ := h.tokens_last
  rw [same, List.reverse_append]
  exact complete_cons.mpr ends

/-- Where an operand is expected, the text is scanned as the phrase. -/
def Yields (scanner : Scanner σ α) (text : String) (p : Phrase σ α) : Prop :=
  ∀ tokens, Fresh tokens → ∀ rest, Breaks rest →
    scanner.Leads ⟨tokens, true, text.toList ++ rest⟩ ⟨p.tokens.reverse ++ tokens, false, rest⟩

theorem breaks_space (rest : List Char) : Breaks (' ' :: rest) := breaks_cons.mpr (by decide)

theorem breaks_open (rest : List Char) : Breaks ('(' :: rest) := breaks_cons.mpr (by decide)

theorem breaks_close (rest : List Char) : Breaks (')' :: rest) := breaks_cons.mpr (by decide)

theorem breaks_comma (rest : List Char) : Breaks (',' :: rest) := breaks_cons.mpr (by decide)

theorem Yields.group {scanner : Scanner σ α} {text : String} {p : Phrase σ α}
    (h : scanner.Yields text p) : scanner.Yields (Tree.parenthesized text) (.group p) := by
  intro tokens fresh rest _
  have inner := h (.separator .openParen :: tokens) (fresh_cons.mpr rfl) (')' :: rest)
    (breaks_close rest)
  have last := leads_close scanner
    (p.tokens.reverse ++ .separator .openParen :: tokens) false rest
  have whole : (Tree.parenthesized text).toList ++ rest = '(' :: (text.toList ++ ')' :: rest) := by
    simp [Tree.parenthesized, String.toList_append]
  have made : (Phrase.group p).tokens.reverse ++ tokens =
      .separator .closeParen :: (p.tokens.reverse ++ .separator .openParen :: tokens) := by
    simp [Phrase.tokens]
  rw [whole, made]
  exact ((leads_open scanner fresh true _).trans inner).trans last

/-- The text, in parentheses where the phrase is. -/
def groupedText (needed : Bool) (text : String) : String :=
  if needed then Tree.parenthesized text else text

theorem Yields.grouped {scanner : Scanner σ α} {text : String} {p : Phrase σ α}
    (h : scanner.Yields text p) (needed : Bool) :
    scanner.Yields (groupedText needed text) (p.grouped needed) := by
  cases needed with
  | true => exact h.group
  | false => exact h

theorem Yields.sign {scanner : Scanner σ α} {c : Char} {label : String} {op : Operator σ α}
    (signed : signLabel? c = some label) (marked : scanner.vocabulary.marker label = .ok op)
    (fixity : op.fixity = .before) {text : String} {p : Phrase σ α} (h : scanner.Yields text p) :
    scanner.Yields (String.singleton c ++ text) (.before op p) := by
  intro tokens _ rest breaks
  have fresh := fresh_operator (fixity.trans_ne (by decide)) tokens
  have inner := h _ fresh rest breaks
  have whole : (String.singleton c ++ text).toList ++ rest = c :: (text.toList ++ rest) := by
    simp [String.toList_append]
  have made : (Phrase.before op p).tokens.reverse ++ tokens =
      p.tokens.reverse ++ .symbol (.operator op) :: tokens := by
    simp [Phrase.tokens]
  rw [whole, made]
  exact (leads_sign signed marked tokens _).trans inner

section Ready

variable {scanner : Scanner σ α} (ready : scanner.Ready)
include ready

theorem Ready.yields_before {label : String} {op : Operator σ α}
    (notCalled : scanner.vocabulary.callable? label = none)
    (found : scanner.vocabulary.before.get? label = some op)
    (noSign : beginsLikeSign label = false) {text : String} {p : Phrase σ α}
    (h : scanner.Yields text p) :
    scanner.Yields (label ++ " " ++ text) (.before op p) := by
  intro tokens fresh rest breaks
  have fixity := (ready.regular.before label op found).2.2.2
  have freshToo := fresh_operator (fixity.trans_ne (by decide)) tokens
  have first := ready.leads_before notCalled found fresh noSign
    (breaks_space (text.toList ++ rest))
  have space := ready.leads_space (.symbol (.operator op) :: tokens) true (text.toList ++ rest)
  have inner := h _ freshToo rest breaks
  have whole : (label ++ " " ++ text).toList ++ rest =
      label.toList ++ ' ' :: (text.toList ++ rest) := by
    simp [String.toList_append]
  have made : (Phrase.before op p).tokens.reverse ++ tokens =
      p.tokens.reverse ++ .symbol (.operator op) :: tokens := by
    simp [Phrase.tokens]
  rw [whole, made]
  exact (first.trans space).trans inner

theorem Ready.yields_before_group {label : String} {op : Operator σ α}
    (notCalled : scanner.vocabulary.callable? label = none)
    (found : scanner.vocabulary.before.get? label = some op)
    (noSign : beginsLikeSign label = false) {text : String} {p : Phrase σ α}
    (h : scanner.Yields text p) :
    scanner.Yields (label ++ Tree.parenthesized text) (.before op (.group p)) := by
  intro tokens fresh rest breaks
  have fixity := (ready.regular.before label op found).2.2.2
  have freshToo := fresh_operator (fixity.trans_ne (by decide)) tokens
  have opens : Breaks ((Tree.parenthesized text).toList ++ rest) := by
    simpa [Tree.parenthesized, String.toList_append] using breaks_open _
  have first := ready.leads_before notCalled found fresh noSign opens
  have inner := h.group _ freshToo rest breaks
  have whole : (label ++ Tree.parenthesized text).toList ++ rest =
      label.toList ++ ((Tree.parenthesized text).toList ++ rest) := by
    simp [String.toList_append]
  have made : (Phrase.before op (.group p)).tokens.reverse ++ tokens =
      (Phrase.group p).tokens.reverse ++ .symbol (.operator op) :: tokens := by
    simp [Phrase.tokens]
  rw [whole, made]
  exact first.trans inner

theorem Ready.yields_after {label : String} {op : Operator σ α}
    (notCalled : scanner.vocabulary.callable? label = none)
    (missing : scanner.vocabulary.between.get? label = none)
    (found : scanner.vocabulary.after.get? label = some op) {text : String} {p : Phrase σ α}
    (wellFormed : p.WellFormed) (h : scanner.Yields text p) :
    scanner.Yields (text ++ " " ++ label) (.after p op) := by
  intro tokens fresh rest breaks
  have fixity := (ready.regular.after label op found).2.2.2
  have inner := h tokens fresh (' ' :: (label.toList ++ rest)) (breaks_space _)
  have space := ready.leads_space (p.tokens.reverse ++ tokens) false (label.toList ++ rest)
  have resolved : (scanner.vocabulary.between.get? label <|>
      scanner.vocabulary.after.get? label) = some op := by
    rw [missing, found]
    rfl
  have last := ready.leads_behind notCalled resolved (complete_of_wellFormed wellFormed tokens)
    breaks
  have whole : (text ++ " " ++ label).toList ++ rest =
      text.toList ++ ' ' :: (label.toList ++ rest) := by
    simp [String.toList_append]
  have made : (Phrase.after p op).tokens.reverse ++ tokens =
      .symbol (.operator op) :: (p.tokens.reverse ++ tokens) := by
    simp [Phrase.tokens]
  have ends : (op.fixity != .after) = false := by
    rw [fixity]
    rfl
  rw [ends] at last
  rw [whole, made]
  exact (inner.trans space).trans last

theorem Ready.yields_between {label : String} {op : Operator σ α}
    (notCalled : scanner.vocabulary.callable? label = none)
    (found : scanner.vocabulary.between.get? label = some op) {leftText rightText : String}
    {left right : Phrase σ α} (wellFormed : left.WellFormed)
    (leftYields : scanner.Yields leftText left) (rightYields : scanner.Yields rightText right) :
    scanner.Yields (leftText ++ " " ++ label ++ " " ++ rightText) (.between left op right) := by
  intro tokens fresh rest breaks
  have fixity := (ready.regular.between label op found).2.2.2
  have awaits : (op.fixity != .after) = true := by
    cases shape : op.fixity with
    | after =>
      rw [shape] at fixity
      cases fixity
    | before => rfl
    | left => rfl
    | right => rfl
  have freshToo := fresh_operator (bne_iff_ne.mp awaits) (left.tokens.reverse ++ tokens)
  have resolved : (scanner.vocabulary.between.get? label <|>
      scanner.vocabulary.after.get? label) = some op := by
    rw [found]
    rfl
  have first := leftYields tokens fresh (' ' :: (label.toList ++ ' ' :: (rightText.toList ++ rest)))
    (breaks_space _)
  have space := ready.leads_space (left.tokens.reverse ++ tokens) false
    (label.toList ++ ' ' :: (rightText.toList ++ rest))
  have middle := ready.leads_behind notCalled resolved (complete_of_wellFormed wellFormed tokens)
    (breaks_space (rightText.toList ++ rest))
  have spaceToo := ready.leads_space (.symbol (.operator op) :: (left.tokens.reverse ++ tokens))
    true (rightText.toList ++ rest)
  have last := rightYields _ freshToo rest breaks
  have whole : (leftText ++ " " ++ label ++ " " ++ rightText).toList ++ rest =
      leftText.toList ++ ' ' :: (label.toList ++ ' ' :: (rightText.toList ++ rest)) := by
    simp [String.toList_append]
  have made : (Phrase.between left op right).tokens.reverse ++ tokens =
      right.tokens.reverse ++ .symbol (.operator op) :: (left.tokens.reverse ++ tokens) := by
    simp [Phrase.tokens]
  rw [awaits] at middle
  rw [whole, made]
  exact (((first.trans space).trans middle).trans spaceToo).trans last

/- Calls. The arguments behind the first one are each preceded by a comma and a space. -/

omit ready in
theorem toList_intercalate_cons (text : String) (texts : List String) :
    (", ".intercalate (text :: texts)).toList =
      text.toList ++ texts.flatMap fun t => ',' :: ' ' :: t.toList := by
  induction texts generalizing text with
  | nil => simp
  | cons next texts ih =>
    rw [String.intercalate_cons_cons, String.toList_append, String.toList_append, ih]
    simp

theorem Ready.leads_furtherTokens {texts : List String} {ps : List (Phrase σ α)}
    (each : List.Forall₂ scanner.Yields texts ps) (tokens : List (Token σ α)) {rest : List Char}
    (breaks : Breaks rest) :
    scanner.Leads ⟨tokens, false, (texts.flatMap fun t => ',' :: ' ' :: t.toList) ++ rest⟩
      ⟨(Phrase.furtherTokens ps).reverse ++ tokens, false, rest⟩ := by
  induction each generalizing tokens with
  | nil => exact .refl _ _
  | @cons text p texts ps first _ ih =>
    have stops : Breaks ((texts.flatMap fun t => ',' :: ' ' :: t.toList) ++ rest) := by
      cases texts with
      | nil => exact breaks
      | cons next texts => exact breaks_comma _
    have comma := leads_comma scanner tokens false
      (' ' :: (text.toList ++ ((texts.flatMap fun t => ',' :: ' ' :: t.toList) ++ rest)))
    have space := ready.leads_space (.separator .comma :: tokens) true
      (text.toList ++ ((texts.flatMap fun t => ',' :: ' ' :: t.toList) ++ rest))
    have here := first (.separator .comma :: tokens) (fresh_cons.mpr rfl) _ stops
    have later := ih (p.tokens.reverse ++ .separator .comma :: tokens)
    have whole : ((text :: texts).flatMap fun t => ',' :: ' ' :: t.toList) ++ rest =
        ',' :: ' ' :: (text.toList ++
          ((texts.flatMap fun t => ',' :: ' ' :: t.toList) ++ rest)) := by
      simp
    have made : (Phrase.furtherTokens (p :: ps)).reverse ++ tokens =
        (Phrase.furtherTokens ps).reverse ++ (p.tokens.reverse ++ .separator .comma :: tokens) := by
      simp [Phrase.furtherTokens]
    rw [whole, made]
    exact ((comma.trans space).trans here).trans later

theorem Ready.leads_argumentTokens {texts : List String} {ps : List (Phrase σ α)}
    (each : List.Forall₂ scanner.Yields texts ps) {tokens : List (Token σ α)}
    (fresh : Fresh tokens) (rest : List Char) :
    scanner.Leads ⟨tokens, true, (", ".intercalate texts).toList ++ ')' :: rest⟩
      ⟨.separator .closeParen :: ((Phrase.argumentTokens ps).reverse ++ tokens), false, rest⟩ := by
  cases each with
  | nil => exact leads_close _ tokens true rest
  | @cons text p texts ps first others =>
    have stops : Breaks ((texts.flatMap fun t => ',' :: ' ' :: t.toList) ++ ')' :: rest) := by
      cases texts with
      | nil => exact breaks_close rest
      | cons next texts => exact breaks_comma _
    have here := first tokens fresh _ stops
    have later := ready.leads_furtherTokens others (p.tokens.reverse ++ tokens)
      (breaks_close rest)
    have last := leads_close scanner
      ((Phrase.furtherTokens ps).reverse ++ (p.tokens.reverse ++ tokens)) false rest
    have made : (Phrase.argumentTokens (p :: ps)).reverse ++ tokens =
        (Phrase.furtherTokens ps).reverse ++ (p.tokens.reverse ++ tokens) := by
      simp [Phrase.argumentTokens]
    rw [toList_intercalate_cons, List.append_assoc, made]
    exact (here.trans later).trans last

theorem Ready.yields_call {label : String} {callable : Callable σ α}
    (called : scanner.vocabulary.callable? label = some callable)
    (noSign : beginsLikeSign label = false) {texts : List String} {ps : List (Phrase σ α)}
    (each : List.Forall₂ scanner.Yields texts ps) :
    scanner.Yields (label ++ Tree.parenthesized (", ".intercalate texts))
      (.call callable ps) := by
  intro tokens fresh rest _
  have first := ready.leads_call called fresh noSign
    (breaks_open ((", ".intercalate texts).toList ++ ')' :: rest))
  have opened := leads_open scanner
    (fresh_cons.mpr
      (show (Token.symbol (.call callable) : Token σ α).endsOperand = false from rfl) :
      Fresh (.symbol (.call callable) :: tokens)) false
    ((", ".intercalate texts).toList ++ ')' :: rest)
  have arguments := ready.leads_argumentTokens each (fresh_cons.mpr rfl :
    Fresh (.separator .openParen :: .symbol (.call callable) :: tokens)) rest
  have whole : (label ++ Tree.parenthesized (", ".intercalate texts)).toList ++ rest =
      label.toList ++ '(' :: ((", ".intercalate texts).toList ++ ')' :: rest) := by
    simp [Tree.parenthesized, String.toList_append]
  have made : (Phrase.call callable ps).tokens.reverse ++ tokens =
      .separator .closeParen :: ((Phrase.argumentTokens ps).reverse ++
        .separator .openParen :: .symbol (.call callable) :: tokens) := by
    simp [Phrase.tokens]
  rw [whole, made]
  exact (first.trans opened).trans arguments

end Ready

end Scanner
end InfixCalc
