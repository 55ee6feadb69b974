import InfixCalc.Proofs.Vocabulary.Wordbook

/-!
# Supplied symbols

What is scanned is supplied by the vocabulary, whatever the configuration: an operand, a name, a
word or an operator that stands for one. So what holds of all words holds of all that is scanned.
-/

namespace InfixCalc

variable {σ α : Type}

/-- The symbols that may be scanned. -/
inductive Vocabulary.Supplies (v : Vocabulary σ α) : Symbol σ α → Prop where
  | operand (value : α) : Supplies v (.operand value)
  | name (label : String) : Supplies v (.variable label)
  | marker {label : String} {op : Operator σ α} :
      v.marker label = .ok op → Supplies v (.operator op)
  | operator (fixity : Fixity) {label : String} {op : Operator σ α} :
      (v.operatorsAt fixity).get? label = some op → Supplies v (.operator op)
  | call {label : String} {callable : Callable σ α} :
      v.callable? label = some callable → Supplies v (.call callable)

namespace Scanner

variable {scanner : Scanner σ α}

theorem supplies_of_resolveOperator {label : String} {afterOperand : Bool} {op : Operator σ α}
    (resolved : scanner.resolveOperator label afterOperand = .ok op) :
    scanner.vocabulary.Supplies (.operator op) := by
  rcases resolveOperator_eq_ok resolved with found | found | ⟨_, found⟩
  · exact .operator .before found
  · exact .operator .left found
  · exact .operator .after found

/-- All symbols among the tokens are supplied. -/
def AllSupplied (scanner : Scanner σ α) (tokens : List (Token σ α)) : Prop :=
  ∀ s, .symbol s ∈ tokens → scanner.vocabulary.Supplies s

theorem AllSupplied.symbol {s : Symbol σ α} {tokens : List (Token σ α)}
    (supplied : scanner.AllSupplied tokens) (supplies : scanner.vocabulary.Supplies s) :
    scanner.AllSupplied (.symbol s :: tokens) := by
  intro other member
  rcases List.mem_cons.mp member with same | member
  · cases same
    exact supplies
  · exact supplied other member

theorem AllSupplied.separator {s : Separator} {tokens : List (Token σ α)}
    (supplied : scanner.AllSupplied tokens) : scanner.AllSupplied (.separator s :: tokens) := by
  intro other member
  rcases List.mem_cons.mp member with never | member
  · cases never
  · exact supplied other member

theorem AllSupplied.withProduct {state : State σ α} {before : List (Token σ α)}
    (supplied : scanner.AllSupplied state.tokens)
    (joined : scanner.withProduct state = .ok before) : scanner.AllSupplied before := by
  rcases withProduct_eq_ok joined with ⟨_, rfl⟩ | ⟨_, product, marked, rfl⟩
  · exact supplied
  · exact supplied.symbol (.marker marked)

theorem AllSupplied.moves {behind : List Char} {state next : State σ α}
    (supplied : scanner.AllSupplied state.tokens) (moves : scanner.Moves behind state next) :
    scanner.AllSupplied next.tokens := by
  cases moves with
  | openParen _ _ joined => exact (supplied.withProduct joined).separator
  | separator _ _ _ => exact supplied.separator
  | sign _ _ _ marked => exact supplied.symbol (.marker marked)
  | call _ _ called joined => exact (supplied.withProduct joined).symbol (.call called)
  | before _ _ _ resolved _ joined =>
    exact (supplied.withProduct joined).symbol (supplies_of_resolveOperator resolved)
  | behind _ _ _ resolved _ => exact supplied.symbol (supplies_of_resolveOperator resolved)
  | operand _ _ _ joined => exact (supplied.withProduct joined).symbol (.operand _)
  | name _ _ _ joined => exact (supplied.withProduct joined).symbol (.name _)
  | blank _ _ => exact supplied

theorem AllSupplied.runs {state last : State σ α} (supplied : scanner.AllSupplied state.tokens)
    (runs : scanner.Runs state last) : scanner.AllSupplied last.tokens := by
  induction runs with
  | refl => exact supplied
  | tail _ advances ih =>
    obtain ⟨⟨_, moves⟩, _⟩ := advances
    exact ih.moves moves

theorem allSupplied_of_scan {text : String} {tokens : List (Token σ α)}
    (scanned : scanner.scan text = .ok tokens) : scanner.AllSupplied tokens := by
  unfold scan at scanned
  simp only at scanned
  split at scanned
  · cases scanned
  · obtain ⟨last, runs, _, rfl⟩ := runs_of_scanAll scanned
    have supplied : scanner.AllSupplied last.tokens :=
      AllSupplied.runs (fun _ never => absurd never List.not_mem_nil) runs
    exact fun s member => supplied s (List.mem_reverse.mp member)

end Scanner

/-- A text that has a tree is a sound phrase of supplied symbols. -/
theorem Scanner.supplied_of_root {scanner : Scanner σ α} {limit : Option Nat} {text : String}
    {t : Tree (Symbol σ α)} (read : scanner.root limit text = .ok t) :
    ∃ p : Phrase σ α, p.tree = t ∧ p.Sound ∧
      ∀ s, .symbol s ∈ p.tokens → scanner.vocabulary.Supplies s := by
  obtain ⟨tokens, scanned, assembled⟩ := bind_eq_ok_iff.mp read
  obtain ⟨⟨p, rfl, sound, rfl⟩, -, -⟩ :=
    Tree.parse_eq_ok_iff.mp (Tree.ofTokens_eq_ok_iff.mp assembled).1
  exact ⟨p, rfl, sound, allSupplied_of_scan scanned⟩

namespace Vocabulary

/-- What holds of all words of a vocabulary, of operands and of names, whatever the label of an
operator is, holds of all that it supplies. -/
theorem Keeps.supplies {v : Vocabulary σ α} {P : Symbol σ α → Prop}
    (keeps : v.Keeps (fun _ op => P (.operator op)) (fun _ f => P (.call (.function f)))
      fun _ b => P (.call (.branch b)))
    {s : Symbol σ α} (supplies : v.Supplies s) (operand : ∀ value, P (.operand value))
    (name : ∀ label, P (.variable label))
    (relabelled : ∀ (op : Operator σ α) label symbol, P (.operator op) →
      P (.operator { op with label := label, symbol := symbol }))
    (plus : P (.operator
      ⟨unaryPlus, .before, maxPrecedence, fun _ => Action.parameter 0, some "+"⟩)) : P s := by
  cases supplies with
  | operand value => exact operand value
  | name label => exact name label
  | operator fixity found => exact keeps.operatorsAt fixity _ _ found
  | call called =>
    rcases callable?_eq_some_iff.mp called with ⟨f, found, rfl⟩ | ⟨_, b, found, rfl⟩
    · exact keeps.functions _ f found
    · exact keeps.branches _ b found
  | marker marked =>
    rcases source_of_marker marked with ⟨source, written, before | between, rfl⟩ | rfl
    · exact relabelled source _ _ (keeps.before written source before)
    · exact relabelled source _ _ (keeps.between written source between)
    · exact plus

end Vocabulary
end InfixCalc
