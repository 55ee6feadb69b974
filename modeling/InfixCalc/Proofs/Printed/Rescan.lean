import Mathlib.Data.List.TakeWhile
import InfixCalc.Proofs.Printed.Scan

/-!
# Scanning written trees

The written form of a spoken tree is scanned as the tokens of its printed phrase, if no symbol of
the tree looks like a sign and every literal is read as it is printed.
-/

namespace InfixCalc

variable {σ α : Type}

namespace Scanner

/-- The printed value is read as that one operand. -/
def Readable (scanner : Scanner σ α) (value : α) : Prop :=
  ∃ text, scanner.config.print value = .ok text ∧
    scanner.scan text = .ok [.symbol (.operand value)]

/-- The symbols of the tree can be written and read again. -/
structure Legible (scanner : Scanner σ α) (t : Tree (Symbol σ α)) : Prop where
  literals : ∀ value, .operand value ∈ t.postorder → scanner.Readable value
  plain : ∀ s ∈ t.postorder, looksLikeSign s = false

end Scanner

namespace Tree

theorem legible_child {scanner : Scanner σ α} {s : Symbol σ α} {cs : List (Tree (Symbol σ α))}
    (h : scanner.Legible (.node s cs)) {c : Tree (Symbol σ α)} (member : c ∈ cs) :
    scanner.Legible c :=
  ⟨fun value inside => h.literals value (mem_postorder.mpr (.inl ⟨c, member, inside⟩)),
    fun s inside => h.plain s (mem_postorder.mpr (.inl ⟨c, member, inside⟩))⟩

theorem legible_root {scanner : Scanner σ α} {s : Symbol σ α} {cs : List (Tree (Symbol σ α))}
    (h : scanner.Legible (.node s cs)) : Scanner.looksLikeSign s = false :=
  h.plain s (mem_postorder.mpr (.inr rfl))

/- The written form of each kind of node. -/

theorem writtenAll_eq_ok {print : α → Except Failure String} {cs : List (Tree (Symbol σ α))}
    {texts : List String} (h : writtenAll print cs = .ok texts) :
    List.Forall₂ (fun c text => written print c = .ok text) cs texts := by
  induction cs generalizing texts with
  | nil =>
    cases h
    exact .nil
  | cons c cs ih =>
    obtain ⟨text, first, later⟩ := bind_eq_ok_iff.mp h
    obtain ⟨others, rest, made⟩ := bind_eq_ok_iff.mp later
    cases made
    exact .cons first (ih rest)

theorem written_eq_ok {print : α → Except Failure String} {s : Symbol σ α}
    {cs : List (Tree (Symbol σ α))}
    {text : String} (inner : ∀ value, s ≠ .operand value)
    (h : written print (.node s cs) = .ok text) :
    ∃ texts, List.Forall₂ (fun c text => written print c = .ok text) cs texts ∧
      text = nodeText s (cs.map symbol) texts := by
  cases s with
  | operand value => exact absurd rfl (inner value)
  | _ =>
    obtain ⟨texts, each, made⟩ := bind_eq_ok_iff.mp h
    cases made
    exact ⟨texts, writtenAll_eq_ok each, rfl⟩

theorem written_unary_eq_ok {print : α → Except Failure String} {op : Operator σ α}
    {child : Tree (Symbol σ α)} {text : String}
    (h : written print (.node (.operator op) [child]) = .ok text) :
    ∃ childText, child.written print = .ok childText ∧
      text = unaryText op child.symbol childText := by
  obtain ⟨texts, each, rfl⟩ := written_eq_ok (by simp) h
  cases each with
  | @cons _ childText _ _ first rest =>
    cases rest
    exact ⟨childText, first, rfl⟩

theorem unaryText_sign {op : Operator σ α} (isSign_ : isSign op = true) (child : Symbol σ α)
    (text : String) : unaryText op child text =
      op.display ++ Scanner.groupedText (wrapsOperand op child) text := by
  cases child with
  | operator inner =>
    by_cases before : inner.fixity = .before
    · simp [unaryText, wrapsOperand, Scanner.groupedText, isSign_, before]
    · simp [unaryText, wrapsOperand, Scanner.groupedText, isSign_, before]
  | operand _ => simp [unaryText, wrapsOperand, Scanner.groupedText, isSign_]
  | «variable» _ => simp [unaryText, wrapsOperand, Scanner.groupedText, isSign_]
  | call _ => simp [unaryText, wrapsOperand, Scanner.groupedText, isSign_]

theorem unaryText_before {op : Operator σ α} (noSign : isSign op = false)
    (fixity : op.fixity = .before) (child : Symbol σ α) (text : String) :
    unaryText op child text =
      if wrapsOperand op child then op.display ++ parenthesized text
      else op.display ++ " " ++ text := by
  cases child <;> simp [unaryText, wrapsOperand, noSign, fixity]

theorem unaryText_after {op : Operator σ α} (noSign : isSign op = false)
    (fixity : op.fixity = .after) (child : Symbol σ α) (text : String) :
    unaryText op child text =
      Scanner.groupedText (wrapsOperand op child) text ++ " " ++ op.display := by
  cases child <;> simp [unaryText, wrapsOperand, Scanner.groupedText, noSign, fixity]

end Tree

open Scanner

theorem Scanner.yields_of_written {scanner : Scanner σ α} {cs : List (Tree (Symbol σ α))}
    {texts : List String}
    (each : List.Forall₂ (fun c text => c.written scanner.config.print = .ok text) cs texts)
    (yields : ∀ c ∈ cs, ∀ text, c.written scanner.config.print = .ok text →
      scanner.Yields text (c.printed scanner.vocabulary)) :
    List.Forall₂ scanner.Yields texts (cs.map (Tree.printed scanner.vocabulary)) := by
  induction each with
  | nil => exact .nil
  | cons written _ ih =>
    exact .cons (yields _ List.mem_cons_self _ written)
      (ih fun c member => yields c (List.mem_cons_of_mem _ member))

section Ready

variable {scanner : Scanner σ α} (ready : scanner.Ready)
include ready

theorem Scanner.Ready.yields_operand {value : α} {text : String}
    (scanned : scanner.scan text = .ok [.symbol (.operand value)]) :
    scanner.Yields text (.operand value) := by
  intro tokens fresh rest breaks
  unfold scan at scanned
  simp only at scanned
  split at scanned
  · cases scanned
  · obtain ⟨last, runs, done, made⟩ := runs_of_scanAll scanned
    rw [List.reverse_eq_iff] at made
    exact ready.leads_operand runs done made rfl fresh breaks

/-- A sign is written right before its operand, any other operator apart from it. -/
theorem Scanner.Ready.yields_unary_before {op : Operator σ α} {child : Tree (Symbol σ α)}
    {text : String}
    (offers : scanner.vocabulary.Offers op) (fixity : op.fixity = .before)
    (plain : looksLikeSign (.operator op) = false)
    (inner : scanner.Yields text (child.printed scanner.vocabulary)) :
    scanner.Yields (Tree.unaryText op child.symbol text)
      (Tree.printed scanner.vocabulary (.node (.operator op) [child])) := by
  rw [Tree.printed_before _ fixity]
  obtain ⟨same, isSign | other⟩ := offers.before_cases ready.regular fixity
  · obtain ⟨c, label, signed, marked, shown, isSign⟩ := isSign
    rw [same, Tree.unaryText_sign isSign, shown]
    exact Yields.sign signed marked fixity (inner.grouped _)
  · obtain ⟨notCalled, found, shown, noSign⟩ := other
    rw [looksLikeSign, fixity, beq_self_eq_true, Bool.true_and, ← shown] at plain
    rw [same, Tree.unaryText_before noSign fixity]
    cases Tree.wrapsOperand op child.symbol with
    | true => exact ready.yields_before_group notCalled found plain inner
    | false => exact ready.yields_before notCalled found plain inner

theorem Scanner.Ready.yields_unary_after {op : Operator σ α} {child : Tree (Symbol σ α)}
    {text : String}
    (offers : scanner.vocabulary.Offers op) (fixity : op.fixity = .after)
    (wellFormed : (child.printed scanner.vocabulary).WellFormed)
    (inner : scanner.Yields text (child.printed scanner.vocabulary)) :
    scanner.Yields (Tree.unaryText op child.symbol text)
      (Tree.printed scanner.vocabulary (.node (.operator op) [child])) := by
  obtain ⟨same, notCalled, missing, found, noSign⟩ := offers.after_cases ready.regular fixity
  rw [Tree.printed_after _ fixity, same, Tree.unaryText_after noSign fixity]
  exact ready.yields_after notCalled missing found (wellFormed.grouped _) (inner.grouped _)

theorem Tree.Spoken.yields (separate : scanner.vocabulary.Separate) {t : Tree (Symbol σ α)}
    (h : t.Spoken scanner) (legible : scanner.Legible t) {text : String}
    (written : t.written scanner.config.print = .ok text) :
    scanner.Yields text (t.printed scanner.vocabulary) := by
  induction h generalizing text with
  | operand _ =>
    obtain ⟨printed, prints, scanned⟩ := legible.literals _ List.mem_cons_self
    cases prints.symm.trans written
    exact ready.yields_operand scanned
  | name isName =>
    obtain ⟨texts, _, rfl⟩ := Tree.written_eq_ok (by simp) written
    intro tokens fresh rest breaks
    exact ready.leads_name isName fresh true breaks
  | before fixity offers _ ih =>
    obtain ⟨childText, first, rfl⟩ := Tree.written_unary_eq_ok written
    exact ready.yields_unary_before offers fixity (Tree.legible_root legible)
      (ih (Tree.legible_child legible List.mem_cons_self) first)
  | after fixity offers spoken ih =>
    obtain ⟨childText, first, rfl⟩ := Tree.written_unary_eq_ok written
    exact ready.yields_unary_after offers fixity spoken.wellFormed
      (ih (Tree.legible_child legible List.mem_cons_self) first)
  | @between op left right fixity offers leftSpoken rightSpoken leftIh rightIh =>
    obtain ⟨texts, each, rfl⟩ := Tree.written_eq_ok (by simp) written
    cases each with
    | @cons _ leftText _ _ first rest =>
      cases rest with
      | @cons _ rightText _ _ second rest =>
        cases rest
        have leftYields := leftIh (Tree.legible_child legible List.mem_cons_self) first
        have rightYields := rightIh
          (Tree.legible_child legible (List.mem_cons_of_mem _ List.mem_cons_self)) second
        obtain ⟨notCalled, found⟩ := offers.between_cases ready.regular separate fixity
        rw [Tree.printed_between]
        exact ready.yields_between notCalled found (leftSpoken.wellFormed.grouped _)
          (leftYields.grouped _) (rightYields.grouped _)
  | @call callable children called takes spoken ih =>
    obtain ⟨texts, each, rfl⟩ := Tree.written_eq_ok (by simp) written
    have plain := Tree.legible_root legible
    rw [looksLikeSign, Callable.label_settledAt] at plain
    have yields : List.Forall₂ scanner.Yields texts
        (children.map (Tree.printed scanner.vocabulary)) :=
      yields_of_written each fun c member _ => ih c member (Tree.legible_child legible member)
    rw [Tree.printed_call called]
    have whole := ready.yields_call called plain yields
    rw [← Callable.label_settledAt callable children.length] at whole
    exact whole

/-- A text that is scanned as a phrase where an operand is expected has the tokens of the phrase. -/
theorem Scanner.Ready.scan_eq_ok {text : String} {p : Phrase σ α} (wellFormed : p.WellFormed)
    (yields : scanner.Yields text p) : scanner.scan text = .ok p.tokens := by
  have scanned : scanner.scanAll text.toList ⟨[], true, text.toList⟩ = .ok p.tokens := by
    have leads := yields [] fresh_nil [] breaks_nil text.toList
    rw [List.append_nil, List.append_nil, scanAll_nil, List.reverse_reverse] at leads
    exact leads
  unfold scan
  simp only
  split
  · rename_i blank
    have gone : text.toList.dropWhile Text.isBlank = [] :=
      List.dropWhile_eq_nil_iff.mpr (List.all_eq_true.mp blank)
    have nothing := ready.leads_dropWhile [] true text.toList text.toList
    rw [scanned, gone, scanAll_nil] at nothing
    obtain ⟨front, last, same, _⟩ := wellFormed.tokens_last
    rw [same] at nothing
    simp at nothing
  · exact scanned

/-- The written form of a legible tree has the tokens of its printed phrase. -/
theorem Tree.Spoken.scan_written (separate : scanner.vocabulary.Separate) {t : Tree (Symbol σ α)}
    (h : t.Spoken scanner) (legible : scanner.Legible t) {text : String}
    (written : t.written scanner.config.print = .ok text) :
    scanner.scan text = .ok (t.printed scanner.vocabulary).tokens :=
  ready.scan_eq_ok h.wellFormed (h.yields ready separate legible written)

end Ready

end InfixCalc
