import InfixCalc.Proofs.Conversion.Shown

/-!
# Order and precedence

A tree lists its symbols in the order in which they are written, each group and each argument is a
subtree of its own, and every operator keeps the laws of precedence with the operators that are its
operands without parentheses around them.
-/

namespace InfixCalc

variable {σ α : Type}

def Token.symbol? : Token σ α → Option (Symbol σ α)
  | .separator _ => none
  | .symbol s => some s

def symbolsOf (ts : List (Token σ α)) : List (Symbol σ α) := ts.filterMap Token.symbol?

theorem symbolsOf_append (xs ys : List (Token σ α)) :
    symbolsOf (xs ++ ys) = symbolsOf xs ++ symbolsOf ys := by
  simp [symbolsOf]

@[simp] theorem symbolsOf_nil : symbolsOf ([] : List (Token σ α)) = [] := rfl

@[simp] theorem symbolsOf_separator (s : Separator) (ts : List (Token σ α)) :
    symbolsOf (.separator s :: ts) = symbolsOf ts := rfl

@[simp] theorem symbolsOf_symbol (s : Symbol σ α) (ts : List (Token σ α)) :
    symbolsOf (.symbol s :: ts) = s :: symbolsOf ts := rfl

namespace Tree

/-- A symbol where it is written among its operands: an operator behind its operand or between two
of them, everything else in front. -/
def arrange (s : Symbol σ α) (parts : List (List (Symbol σ α))) : List (Symbol σ α) :=
  match s with
  | .operator op =>
    match op.fixity, parts with
    | .after, _ => parts.flatten ++ [s]
    | .left, left :: right | .right, left :: right => left ++ s :: right.flatten
    | _, _ => s :: parts.flatten
  | _ => s :: parts.flatten

mutual

/-- The symbols of the tree in the order in which they are written. -/
def inOrder : Tree (Symbol σ α) → List (Symbol σ α)
  | .node s cs => arrange s (inOrderEach cs)

def inOrderEach : List (Tree (Symbol σ α)) → List (List (Symbol σ α))
  | [] => []
  | c :: cs => inOrder c :: inOrderEach cs

end

theorem inOrderEach_eq_map (cs : List (Tree (Symbol σ α))) : inOrderEach cs = cs.map inOrder := by
  induction cs with
  | nil => rfl
  | cons c cs ih => simp only [inOrderEach, List.map_cons, ih]

inductive Subtree (t : Tree (Symbol σ α)) : Tree (Symbol σ α) → Prop where
  | refl : Subtree t t
  | child {c : Tree (Symbol σ α)} {s : Symbol σ α} {cs : List (Tree (Symbol σ α))} :
      c ∈ cs → Subtree t c → Subtree t (.node s cs)

end Tree

namespace Phrase

mutual

def settled : Phrase σ α → Phrase σ α
  | .operand value => .operand value
  | .name label => .name label
  | .group inner => .group (settled inner)
  | .before op inner => .before op (settled inner)
  | .after inner op => .after (settled inner) op
  | .between left op right => .between (settled left) op (settled right)
  | .call callable arguments =>
    .call (callable.settledAt arguments.length) (settledAll arguments)

def settledAll : List (Phrase σ α) → List (Phrase σ α)
  | [] => []
  | p :: ps => settled p :: settledAll ps

end

theorem settledAll_eq_map (ps : List (Phrase σ α)) : settledAll ps = ps.map settled := by
  induction ps with
  | nil => rfl
  | cons p ps ih => simp only [settledAll, List.map_cons, ih]

theorem symbolsOf_furtherTokens (ps : List (Phrase σ α)) :
    symbolsOf (furtherTokens ps) = ps.flatMap fun p => symbolsOf p.tokens := by
  induction ps with
  | nil => rfl
  | cons p ps ih => simp [furtherTokens, symbolsOf_append, ih]

theorem symbolsOf_argumentTokens (ps : List (Phrase σ α)) :
    symbolsOf (argumentTokens ps) = ps.flatMap fun p => symbolsOf p.tokens := by
  cases ps with
  | nil => rfl
  | cons p ps => simp [argumentTokens, symbolsOf_append, symbolsOf_furtherTokens]

/-- The tree has the symbols of the phrase in the order in which they are written. -/
theorem inOrder_tree {p : Phrase σ α} (whole : p.WellFormed) :
    p.tree.inOrder = symbolsOf p.settled.tokens := by
  induction whole with
  | operand value => rfl
  | name label => rfl
  | group _ ih => simp [tree, settled, tokens, symbolsOf_append, ih]
  | before fixity _ ih =>
    simp [tree, settled, tokens, Tree.inOrder, Tree.inOrderEach, Tree.arrange, fixity, ih]
  | after fixity _ ih =>
    simp [tree, settled, tokens, Tree.inOrder, Tree.inOrderEach, Tree.arrange, fixity,
      symbolsOf_append, ih]
  | @between left right op fixity _ _ leftIh rightIh =>
    cases same : op.fixity with
    | before => simp [same, Fixity.isBetween] at fixity
    | after => simp [same, Fixity.isBetween] at fixity
    | left =>
      simp [tree, settled, tokens, Tree.inOrder, Tree.inOrderEach, Tree.arrange, same,
        symbolsOf_append, leftIh, rightIh]
    | right =>
      simp [tree, settled, tokens, Tree.inOrder, Tree.inOrderEach, Tree.arrange, same,
        symbolsOf_append, leftIh, rightIh]
  | @call callable arguments takes _ ih =>
    have each : (arguments.map tree).map Tree.inOrder =
        (arguments.map settled).map fun p => symbolsOf p.tokens := by
      simp only [List.map_map]
      exact List.map_congr_left ih
    simp only [tree, settled, tokens, Tree.inOrder, Tree.arrange, Tree.inOrderEach_eq_map,
      trees_eq_map, settledAll_eq_map, each, symbolsOf_append, symbolsOf_symbol,
      symbolsOf_separator, symbolsOf_nil, symbolsOf_argumentTokens]
    simp [List.flatMap]

inductive Inside (q : Phrase σ α) : Phrase σ α → Prop where
  | refl : Inside q q
  | group {inner : Phrase σ α} : Inside q inner → Inside q (.group inner)
  | before {op : Operator σ α} {inner : Phrase σ α} : Inside q inner → Inside q (.before op inner)
  | after {inner : Phrase σ α} {op : Operator σ α} : Inside q inner → Inside q (.after inner op)
  | left {left right : Phrase σ α} {op : Operator σ α} :
      Inside q left → Inside q (.between left op right)
  | right {left right : Phrase σ α} {op : Operator σ α} :
      Inside q right → Inside q (.between left op right)
  | argument {callable : Callable σ α} {arguments : List (Phrase σ α)} {p : Phrase σ α} :
      p ∈ arguments → Inside q p → Inside q (.call callable arguments)

theorem Inside.tokens_infix {q p : Phrase σ α} (inside : q.Inside p) :
    q.tokens <:+: p.tokens := by
  induction inside with
  | refl => exact List.infix_rfl
  | group _ ih => exact ih.trans ⟨[.separator .openParen], [.separator .closeParen], rfl⟩
  | @before op inner _ ih => exact ih.trans ⟨[.symbol (.operator op)], [], by simp [tokens]⟩
  | @after inner op _ ih => exact ih.trans ⟨[], [.symbol (.operator op)], by simp [tokens]⟩
  | @left left right op _ ih =>
    exact ih.trans ⟨[], .symbol (.operator op) :: right.tokens, by simp [tokens]⟩
  | @right left right op _ ih =>
    exact ih.trans ⟨left.tokens ++ [.symbol (.operator op)], [], by simp [tokens]⟩
  | @argument callable arguments p member _ ih =>
    refine (ih.trans (tokens_infix_argumentTokens member)).trans ?_
    exact ⟨[.symbol (.call callable), .separator .openParen], [.separator .closeParen], by
      simp [tokens]⟩

theorem Inside.subtree {q p : Phrase σ α} (inside : q.Inside p) : q.tree.Subtree p.tree := by
  induction inside with
  | refl => exact .refl
  | group _ ih => exact ih
  | before _ ih => exact .child (by simp) ih
  | after _ ih => exact .child (by simp) ih
  | left _ ih => exact .child (by simp) ih
  | right _ ih => exact .child (by simp) ih
  | argument member _ ih =>
    refine .child ?_ ih
    rw [trees_eq_map]
    exact List.mem_map_of_mem member

theorem Inside.sound {q p : Phrase σ α} (inside : q.Inside p) (sound : p.Sound) : q.Sound := by
  induction inside with
  | refl => exact sound
  | group _ ih =>
    cases sound.1 with | group whole =>
    cases sound.2 with | group ordered =>
    exact ih ⟨whole, ordered⟩
  | before _ ih =>
    cases sound.1 with | before _ whole =>
    cases sound.2 with | before _ _ ordered =>
    exact ih ⟨whole, ordered⟩
  | after _ ih =>
    cases sound.1 with | after _ whole =>
    cases sound.2 with | after _ ordered =>
    exact ih ⟨whole, ordered⟩
  | left _ ih =>
    cases sound.1 with | between _ whole _ =>
    cases sound.2 with | between _ _ ordered _ =>
    exact ih ⟨whole, ordered⟩
  | right _ ih =>
    cases sound.1 with | between _ _ whole =>
    cases sound.2 with | between _ _ _ ordered =>
    exact ih ⟨whole, ordered⟩
  | argument member _ ih =>
    cases sound.1 with | call _ whole =>
    cases sound.2 with | call ordered =>
    exact ih ⟨whole _ member, ordered _ member⟩

/-- The operand in front of an operator. An operator before a group cannot take more. -/
def LeftLaw (parent : Operator σ α) : Phrase σ α → Prop
  | .between _ op _ => parent.precedence < op.precedence ∨
      op.precedence = parent.precedence ∧ op.fixity = .left
  | .before op inner => inner.isGroup = false → parent.precedence < op.precedence
  | _ => True

def RightLaw (parent : Operator σ α) : Phrase σ α → Prop
  | .between _ op _ | .after _ op => parent.precedence < op.precedence ∨
      op.precedence = parent.precedence ∧ parent.fixity = .right
  | _ => True

def BeforeLaw (parent : Operator σ α) : Phrase σ α → Prop
  | .between _ op _ | .after _ op => parent.precedence ≤ op.precedence
  | _ => True

/-- The operator of the phrase keeps the laws of precedence with those that stand directly below
it. -/
def KeepsPrecedence : Phrase σ α → Prop
  | .before op inner => BeforeLaw op inner
  | .after inner op => LeftLaw op inner
  | .between left op right => LeftLaw op left ∧ RightLaw op right
  | _ => True

theorem appliesFirst_eq_true_iff {waiting incoming : Operator σ α} :
    Postfix.appliesFirst waiting incoming = true ↔
      incoming.precedence < waiting.precedence ∨
        waiting.precedence = incoming.precedence ∧
          (waiting.fixity = .left ∨ waiting.fixity = .after) := by
  unfold Postfix.appliesFirst
  by_cases same : waiting.precedence = incoming.precedence
  · simp [same]
  · simp [same]

theorem leftLaw_of_applied {parent : Operator σ α} {p : Phrase σ α} (whole : p.WellFormed)
    (applied : ∀ x ∈ p.rightEdge, Postfix.appliesFirst x parent = true) : LeftLaw parent p := by
  cases whole with
  | @before op inner fixity _ =>
    intro noGroup
    have first := appliesFirst_eq_true_iff.mp (applied op (by simp [rightEdge, noGroup]))
    simpa [fixity] using first
  | @between left right op fixity _ _ =>
    have first := appliesFirst_eq_true_iff.mp (applied op List.mem_cons_self)
    have notAfter := (Fixity.isBetween_iff.mp fixity).2
    simpa [LeftLaw, notAfter] using first
  | _ => trivial

theorem not_applied {parent op : Operator σ α} (fixity : parent.fixity ≠ .before)
    (notAfter : parent.fixity ≠ .after) (waits : Postfix.appliesFirst parent op = false) :
    parent.precedence < op.precedence ∨
      op.precedence = parent.precedence ∧ parent.fixity = .right := by
  have never := mt appliesFirst_eq_true_iff.mpr (Bool.eq_false_iff.mp waits)
  cases same : parent.fixity with
  | before => exact absurd same fixity
  | after => exact absurd same notAfter
  | left =>
    simp only [same, true_or, and_true] at never
    exact .inl (by omega)
  | right =>
    simp only [and_true]
    omega

theorem rightLaw_of_waiting {parent : Operator σ α} {p : Phrase σ α}
    (fixity : parent.fixity.isBetween = true)
    (waits : ∀ x ∈ p.leftEdge, Postfix.appliesFirst parent x = false) : RightLaw parent p := by
  obtain ⟨notBefore, notAfter⟩ := Fixity.isBetween_iff.mp fixity
  cases p with
  | after inner op => exact not_applied notBefore notAfter (waits op List.mem_cons_self)
  | between left op right => exact not_applied notBefore notAfter (waits op List.mem_cons_self)
  | _ => trivial

theorem beforeLaw_of_waiting {parent : Operator σ α} {p : Phrase σ α}
    (waits : ∀ x ∈ p.leftEdge, Postfix.appliesFirst parent x = false) : BeforeLaw parent p := by
  have low (op : Operator σ α) (member : op ∈ p.leftEdge) :
      parent.precedence ≤ op.precedence := by
    have never := mt appliesFirst_eq_true_iff.mpr (Bool.eq_false_iff.mp (waits op member))
    omega
  cases p with
  | after inner op => exact low op List.mem_cons_self
  | between left op right => exact low op List.mem_cons_self
  | _ => trivial

theorem Sound.keepsPrecedence {p : Phrase σ α} (sound : p.Sound) : p.KeepsPrecedence := by
  obtain ⟨whole, ordered⟩ := sound
  cases ordered with
  | before waits _ _ => exact beforeLaw_of_waiting waits
  | after applied _ =>
    cases whole with | after _ whole =>
    exact leftLaw_of_applied whole applied
  | between applied waits _ _ =>
    cases whole with | between fixity whole _ =>
    exact ⟨leftLaw_of_applied whole applied, rightLaw_of_waiting fixity waits⟩
  | _ => trivial

end Phrase

/-- The tree that tokens are parsed to is that of a phrase written by the tokens. It lists the
symbols of the phrase in order, the parts of the phrase are subtrees, and all of them keep the laws
of precedence. -/
theorem Tree.order_and_precedence {display : α → Except Failure String}
    {limit highest : Option Nat} {ts : List (Token σ α)} {symbols : List (Symbol σ α)}
    {t : Tree (Symbol σ α)} (converted : Postfix.ofTokens display limit ts = .ok symbols)
    (assembled : Tree.ofPostfix (Symbol.text display) highest symbols = .ok t) :
    ∃ p : Phrase σ α, p.tokens = ts ∧ p.tree = t ∧ t.inOrder = symbolsOf p.settled.tokens ∧
      ∀ q : Phrase σ α, q.Inside p →
        q.tokens <:+: ts ∧ q.tree.Subtree t ∧ q.KeepsPrecedence := by
  obtain ⟨unlimited, -⟩ :=
    Postfix.reorder_eq_ok_iff_within.mp (Postfix.ofTokens_eq_ok_iff.mp converted).1
  obtain ⟨listed, full, -⟩ :=
    Tree.assemble_eq_ok_iff.mp (Tree.ofPostfix_eq_ok_iff.mp assembled).1
  have accepted : Tree.parse none ts = .ok t := bind_eq_ok_iff.mpr
    ⟨symbols, unlimited, Tree.assemble_eq_ok_iff.mpr ⟨listed, full, within_none _⟩⟩
  obtain ⟨⟨p, rfl, sound, rfl⟩, -, -⟩ := Tree.parse_eq_ok_iff.mp accepted
  refine ⟨p, rfl, rfl, Phrase.inOrder_tree sound.1, ?_⟩
  intro q inside
  exact ⟨inside.tokens_infix, inside.subtree, (inside.sound sound).keepsPrecedence⟩

def plainOperator (label : String) (fixity : Fixity) (precedence : Nat) : Operator Unit Nat :=
  ⟨label, fixity, precedence, fun _ => .fail .missingParameter, none⟩

def starTokens : List (Token Unit Nat) :=
  [.symbol (.operand 2), .symbol (.operator (plainOperator "*" .left 3)), .separator .openParen,
    .symbol (.variable "x"), .symbol (.operator (plainOperator "+" .left 2)),
    .symbol (.operand 3), .separator .closeParen,
    .symbol (.operator (plainOperator "!" .after 6))]

def plainDisplay (value : Nat) : Except Failure String := .ok (toString value)

theorem Tree.order_and_precedence_star :
    ∃ symbols t, Postfix.ofTokens plainDisplay (some 1) starTokens = .ok symbols ∧
      Tree.ofPostfix (Symbol.text plainDisplay) (some 4) symbols = .ok t ∧
      ∃ p : Phrase Unit Nat, p.tokens = starTokens ∧ p.tree = t ∧
        t.inOrder = symbolsOf p.settled.tokens ∧
        ∀ q : Phrase Unit Nat, q.Inside p →
          q.tokens <:+: starTokens ∧ q.tree.Subtree t ∧ q.KeepsPrecedence :=
  ⟨_, _, rfl, rfl,
    @Tree.order_and_precedence Unit Nat plainDisplay (some 1) (some 4) _ _ _ rfl rfl⟩

end InfixCalc
