import InfixCalc.Postfix
import InfixCalc.Proofs.Postorder

/-!
# Phrases

A phrase is an expression together with the parentheses that it is written with. It has tokens and
a tree, and the tokens may well be read as another phrase with another tree. The ordered phrases
are those in which each operator has the operands that its precedence gives it.
-/

namespace InfixCalc

variable {σ α : Type}

namespace Callable

/-- Whether the call may have that number of arguments. A branch with a variable number of
parameters needs a selector and two others. -/
def Takes (callable : Callable σ α) (count : Nat) : Prop :=
  match callable.arity, callable with
  | .exactly expected, _ => expected = count
  | .variable, .branch _ => 3 ≤ count
  | .variable, .function _ => True

def settledAt (callable : Callable σ α) (count : Nat) : Callable σ α :=
  match callable.arity with
  | .variable => callable.withArity count
  | .exactly _ => callable

theorem arity_withArity (callable : Callable σ α) (count : Nat) :
    (callable.withArity count).arity = .exactly count := by
  cases callable <;> rfl

theorem settledAt_exactly {callable : Callable σ α} {expected : Nat}
    (fixed : callable.arity = .exactly expected) (count : Nat) :
    callable.settledAt count = callable := by
  simp [settledAt, fixed]

theorem settledAt_variable {callable : Callable σ α} (open_ : callable.arity = .variable)
    (count : Nat) : callable.settledAt count = callable.withArity count := by
  simp [settledAt, open_]

/-- To settle a call changes nothing but its number of parameters. -/
theorem settledAt_cases (callable : Callable σ α) (count : Nat) :
    callable.settledAt count = callable ∨ callable.settledAt count = callable.withArity count := by
  cases arity : callable.arity with
  | exactly expected => exact .inl (settledAt_exactly arity count)
  | «variable» => exact .inr (settledAt_variable arity count)

theorem arity_settledAt {callable : Callable σ α} {count : Nat} (takes : callable.Takes count) :
    (callable.settledAt count).arity = .exactly count := by
  cases arity : callable.arity with
  | «variable» => rw [settledAt_variable arity, arity_withArity]
  | exactly expected =>
    rw [settledAt_exactly arity, arity]
    simp only [Takes, arity] at takes
    rw [takes]

end Callable

theorem Postfix.settle_eq_ok_iff {callable settled : Callable σ α} {count : Nat} :
    settle callable count = .ok settled ↔
      callable.Takes count ∧ settled = callable.settledAt count := by
  cases arity : callable.arity with
  | exactly expected =>
    simp only [settle, Callable.Takes, arity, Callable.settledAt_exactly arity]
    split <;> simp_all [eq_comm]
  | «variable» =>
    rw [Callable.settledAt_variable arity]
    cases callable with
    | function f => simp [settle, Callable.Takes, arity, eq_comm]
    | branch b =>
      simp only [settle, Callable.Takes, arity]
      split
      · simp
        omega
      · simp [eq_comm]
        omega

/-- A written expression; `group` is a pair of parentheses that is not part of a call. -/
inductive Phrase (σ α : Type) where
  | operand (value : α)
  | name (label : String)
  | group (inner : Phrase σ α)
  | before (op : Operator σ α) (inner : Phrase σ α)
  | after (inner : Phrase σ α) (op : Operator σ α)
  | between (left : Phrase σ α) (op : Operator σ α) (right : Phrase σ α)
  | call (callable : Callable σ α) (arguments : List (Phrase σ α))

namespace Phrase

/-- Proofs about phrases may assume what they show of all arguments of a call. -/
@[induction_eliminator] theorem induction {motive : Phrase σ α → Prop}
    (operand : ∀ value, motive (.operand value))
    (name : ∀ label, motive (.name label))
    (group : ∀ inner, motive inner → motive (.group inner))
    (before : ∀ op inner, motive inner → motive (.before op inner))
    (after : ∀ inner op, motive inner → motive (.after inner op))
    (between : ∀ left op right, motive left → motive right → motive (.between left op right))
    (call : ∀ callable arguments, (∀ p ∈ arguments, motive p) → motive (.call callable arguments))
    (p : Phrase σ α) : motive p := by
  refine @Phrase.rec σ α motive (fun ps => ∀ p ∈ ps, motive p)
    operand name group before after between call ?_ ?_ p
  · intro p member
    cases member
  · intro p ps first rest q member
    rcases List.mem_cons.mp member with rfl | member
    · exact first
    · exact rest q member

mutual

def tokens : Phrase σ α → List (Token σ α)
  | .operand value => [.symbol (.operand value)]
  | .name label => [.symbol (.variable label)]
  | .group inner => .separator .openParen :: tokens inner ++ [.separator .closeParen]
  | .before op inner => .symbol (.operator op) :: tokens inner
  | .after inner op => tokens inner ++ [.symbol (.operator op)]
  | .between left op right => tokens left ++ .symbol (.operator op) :: tokens right
  | .call callable arguments =>
    .symbol (.call callable) :: .separator .openParen :: argumentTokens arguments ++
      [.separator .closeParen]

def argumentTokens : List (Phrase σ α) → List (Token σ α)
  | [] => []
  | p :: ps => tokens p ++ furtherTokens ps

def furtherTokens : List (Phrase σ α) → List (Token σ α)
  | [] => []
  | p :: ps => .separator .comma :: tokens p ++ furtherTokens ps

end

mutual

/-- The expression without its parentheses; calls have the number of arguments that is written. -/
def tree : Phrase σ α → Tree (Symbol σ α)
  | .operand value => .node (.operand value) []
  | .name label => .node (.variable label) []
  | .group inner => tree inner
  | .before op inner => .node (.operator op) [tree inner]
  | .after inner op => .node (.operator op) [tree inner]
  | .between left op right => .node (.operator op) [tree left, tree right]
  | .call callable arguments =>
    .node (.call (callable.settledAt arguments.length)) (trees arguments)

def trees : List (Phrase σ α) → List (Tree (Symbol σ α))
  | [] => []
  | p :: ps => tree p :: trees ps

end

theorem trees_eq_map (ps : List (Phrase σ α)) : trees ps = ps.map tree := by
  induction ps with
  | nil => rfl
  | cons p ps ih => simp only [trees, List.map_cons, ih]

theorem tokens_infix_furtherTokens {p : Phrase σ α} {ps : List (Phrase σ α)} (member : p ∈ ps) :
    p.tokens <:+: furtherTokens ps := by
  induction ps with
  | nil => cases member
  | cons q ps ih =>
    rcases List.mem_cons.mp member with rfl | member
    · exact ⟨[.separator .comma], furtherTokens ps, by simp [furtherTokens]⟩
    · exact (ih member).trans ⟨.separator .comma :: q.tokens, [], by simp [furtherTokens]⟩

theorem tokens_infix_argumentTokens {p : Phrase σ α} {ps : List (Phrase σ α)} (member : p ∈ ps) :
    p.tokens <:+: argumentTokens ps := by
  cases ps with
  | nil => cases member
  | cons q ps =>
    rcases List.mem_cons.mp member with rfl | member
    · exact ⟨[], furtherTokens ps, by simp [argumentTokens]⟩
    · exact (tokens_infix_furtherTokens member).trans ⟨q.tokens, [], by simp [argumentTokens]⟩

/- Symbols of the tokens and of the tree. -/

theorem mem_argumentTokens {t : Token σ α} {p : Phrase σ α} {ps : List (Phrase σ α)}
    (member : p ∈ ps) (inside : t ∈ p.tokens) : t ∈ argumentTokens ps :=
  (tokens_infix_argumentTokens member).subset inside

theorem exists_of_mem_furtherTokens {s : Symbol σ α} {ps : List (Phrase σ α)}
    (member : .symbol s ∈ furtherTokens ps) : ∃ p ∈ ps, .symbol s ∈ p.tokens := by
  induction ps with
  | nil => cases member
  | cons p ps ih =>
    simp only [furtherTokens, List.cons_append, List.mem_cons, List.mem_append, reduceCtorEq,
      false_or] at member
    rcases member with here | later
    · exact ⟨p, List.mem_cons_self, here⟩
    · obtain ⟨q, among, inside⟩ := ih later
      exact ⟨q, List.mem_cons_of_mem _ among, inside⟩

theorem exists_of_mem_argumentTokens {s : Symbol σ α} {ps : List (Phrase σ α)}
    (member : .symbol s ∈ argumentTokens ps) : ∃ p ∈ ps, .symbol s ∈ p.tokens := by
  cases ps with
  | nil => cases member
  | cons p ps =>
    rcases List.mem_append.mp member with here | later
    · exact ⟨p, List.mem_cons_self, here⟩
    · obtain ⟨q, among, inside⟩ := exists_of_mem_furtherTokens later
      exact ⟨q, List.mem_cons_of_mem _ among, inside⟩

/-- What holds of all written symbols, and of a call whatever number of arguments it has, holds of
all symbols of the tree. -/
theorem forall_mem_postorder {P : Symbol σ α → Prop}
    (settled : ∀ callable count, P (.call callable) → P (.call (callable.settledAt count)))
    {p : Phrase σ α} (written : ∀ s, .symbol s ∈ p.tokens → P s) :
    ∀ s ∈ p.tree.postorder, P s := by
  induction p with
  | operand value => exact List.forall_mem_singleton.mpr (written _ List.mem_cons_self)
  | name label => exact List.forall_mem_singleton.mpr (written _ List.mem_cons_self)
  | group inner ih => exact ih fun s inside => written s (by simp [tokens, inside])
  | before op inner ih =>
    intro s member
    rcases Tree.mem_postorder.mp member with ⟨c, child, inside⟩ | rfl
    · cases List.mem_singleton.mp child
      exact ih (fun s inside => written s (List.mem_cons_of_mem _ inside)) s inside
    · exact written _ List.mem_cons_self
  | after inner op ih =>
    intro s member
    rcases Tree.mem_postorder.mp member with ⟨c, child, inside⟩ | rfl
    · cases List.mem_singleton.mp child
      exact ih (fun s inside => written s (List.mem_append_left _ inside)) s inside
    · exact written _ (List.mem_append_right _ List.mem_cons_self)
  | between left op right leftIh rightIh =>
    intro s member
    rcases Tree.mem_postorder.mp member with ⟨c, child, inside⟩ | rfl
    · rcases List.mem_cons.mp child with rfl | child
      · exact leftIh (fun s inside => written s (List.mem_append_left _ inside)) s inside
      · cases List.mem_singleton.mp child
        have behind (s : Symbol σ α) (there : .symbol s ∈ right.tokens) : P s :=
          written s (List.mem_append_right _ (List.mem_cons_of_mem _ there))
        exact rightIh behind s inside
    · exact written _ (List.mem_append_right _ List.mem_cons_self)
  | call callable arguments ih =>
    intro s member
    rcases Tree.mem_postorder.mp member with ⟨c, child, inside⟩ | rfl
    · rw [trees_eq_map] at child
      obtain ⟨p, among, rfl⟩ := List.mem_map.mp child
      have between (s : Symbol σ α) (there : .symbol s ∈ p.tokens) : P s :=
        written s (by simp [tokens, mem_argumentTokens among there])
      exact ih p among between s inside
    · exact settled callable _ (written _ List.mem_cons_self)

/-- Whatever is written and is no call is a symbol of the tree. -/
theorem mem_postorder_of_mem_tokens {p : Phrase σ α} {s : Symbol σ α}
    (noCall : ∀ callable, s ≠ .call callable) (member : .symbol s ∈ p.tokens) :
    s ∈ p.tree.postorder := by
  induction p with
  | operand value =>
    cases List.mem_singleton.mp member
    exact List.mem_singleton_self _
  | name label =>
    cases List.mem_singleton.mp member
    exact List.mem_singleton_self _
  | group inner ih =>
    refine ih ?_
    simpa [tokens] using member
  | before other inner ih =>
    rw [tree, Tree.mem_postorder]
    rcases List.mem_cons.mp member with same | inside
    · cases same
      exact .inr rfl
    · exact .inl ⟨_, List.mem_cons_self, ih inside⟩
  | after inner other ih =>
    rw [tree, Tree.mem_postorder]
    rcases List.mem_append.mp member with inside | same
    · exact .inl ⟨_, List.mem_cons_self, ih inside⟩
    · cases List.mem_singleton.mp same
      exact .inr rfl
  | between left other right leftIh rightIh =>
    rw [tree, Tree.mem_postorder]
    rcases List.mem_append.mp member with inside | later
    · exact .inl ⟨_, List.mem_cons_self, leftIh inside⟩
    · rcases List.mem_cons.mp later with same | inside
      · cases same
        exact .inr rfl
      · exact .inl ⟨_, List.mem_cons_of_mem _ List.mem_cons_self, rightIh inside⟩
  | call callable arguments ih =>
    rw [tree, Tree.mem_postorder, trees_eq_map]
    have inside : .symbol s ∈ argumentTokens arguments := by
      simpa [tokens, noCall callable] using member
    obtain ⟨p, among, inside⟩ := exists_of_mem_argumentTokens inside
    exact .inl ⟨p.tree, List.mem_map_of_mem among, ih p among inside⟩

/-- Every operator stands where its fixity puts it, and every call has as many arguments as it
takes. -/
inductive WellFormed : Phrase σ α → Prop where
  | operand (value : α) : WellFormed (.operand value)
  | name (label : String) : WellFormed (.name label)
  | group {inner : Phrase σ α} : WellFormed inner → WellFormed (.group inner)
  | before {op : Operator σ α} {inner : Phrase σ α} :
      op.fixity = .before → WellFormed inner → WellFormed (.before op inner)
  | after {inner : Phrase σ α} {op : Operator σ α} :
      op.fixity = .after → WellFormed inner → WellFormed (.after inner op)
  | between {left right : Phrase σ α} {op : Operator σ α} :
      op.fixity.isBetween = true → WellFormed left → WellFormed right →
        WellFormed (.between left op right)
  | call {callable : Callable σ α} {arguments : List (Phrase σ α)} :
      callable.Takes arguments.length → (∀ p ∈ arguments, WellFormed p) →
        WellFormed (.call callable arguments)

theorem WellFormed.full {p : Phrase σ α} (h : p.WellFormed) : p.tree.Full := by
  induction h with
  | operand value => exact .node rfl (by simp)
  | name label => exact .node rfl (by simp)
  | group _ ih => exact ih
  | before fixity _ ih =>
    refine .node ?_ (by simpa using ih)
    simp [Symbol.arity, fixity, Fixity.arity, Fixity.isBetween]
  | after fixity _ ih =>
    refine .node ?_ (by simpa using ih)
    simp [Symbol.arity, fixity, Fixity.arity, Fixity.isBetween]
  | between fixity _ _ left right =>
    refine .node ?_ (by simpa using ⟨left, right⟩)
    simp [Symbol.arity, fixity, Fixity.arity]
  | call takes _ ih =>
    refine .node ?_ ?_
    · simp [Symbol.arity, Callable.arity_settledAt takes, trees_eq_map]
    · rw [trees_eq_map]
      intro t member
      obtain ⟨p, inside, rfl⟩ := List.mem_map.mp member
      exact ih p inside

theorem WellFormed.tokens_last {p : Phrase σ α} (h : p.WellFormed) :
    ∃ front last, p.tokens = front ++ [last] ∧ last.endsOperand = true := by
  induction h with
  | operand value => exact ⟨[], _, rfl, rfl⟩
  | name label => exact ⟨[], _, rfl, rfl⟩
  | group _ _ => exact ⟨_, _, rfl, rfl⟩
  | before _ _ ih =>
    obtain ⟨front, last, same, ends⟩ := ih
    exact ⟨_ :: front, last, by rw [tokens, same]; rfl, ends⟩
  | after fixity _ _ =>
    exact ⟨_, _, rfl, by rw [Token.endsOperand, Symbol.endsOperand, fixity]; rfl⟩
  | @between left right op _ _ _ _ ih =>
    obtain ⟨front, last, same, ends⟩ := ih
    refine ⟨left.tokens ++ .symbol (.operator op) :: front, last, ?_, ends⟩
    rw [tokens, same, List.append_assoc]
    rfl
  | call _ _ _ => exact ⟨_, _, rfl, rfl⟩

def isGroup : Phrase σ α → Bool
  | .group _ => true
  | _ => false

def opensGroup : Phrase σ α → Bool
  | .group _ => true
  | .after inner _ => opensGroup inner
  | .between left _ _ => opensGroup left
  | _ => false

/-- The operators that find what stands to the left of the phrase still waiting. -/
def leftEdge : Phrase σ α → List (Operator σ α)
  | .after inner op => op :: leftEdge inner
  | .between left op _ => op :: leftEdge left
  | _ => []

/-- The operators that still wait when the phrase ends. One before a group does not, since the
end of the group applies it. -/
def rightEdge : Phrase σ α → List (Operator σ α)
  | .before op inner => if inner.isGroup then [] else op :: rightEdge inner
  | .between _ op right => op :: rightEdge right
  | _ => []

/-- Each operator finds applied what should be applied before it, and is not applied before what
belongs to its operand. An operator before a group has the group as its operand. -/
inductive Ordered : Phrase σ α → Prop where
  | operand (value : α) : Ordered (.operand value)
  | name (label : String) : Ordered (.name label)
  | group {inner : Phrase σ α} : Ordered inner → Ordered (.group inner)
  | before {op : Operator σ α} {inner : Phrase σ α} :
      (∀ x ∈ inner.leftEdge, Postfix.appliesFirst op x = false) →
      (inner.opensGroup = true → inner.isGroup = true) → Ordered inner →
        Ordered (.before op inner)
  | after {inner : Phrase σ α} {op : Operator σ α} :
      (∀ x ∈ inner.rightEdge, Postfix.appliesFirst x op = true) → Ordered inner →
        Ordered (.after inner op)
  | between {left right : Phrase σ α} {op : Operator σ α} :
      (∀ x ∈ left.rightEdge, Postfix.appliesFirst x op = true) →
      (∀ x ∈ right.leftEdge, Postfix.appliesFirst op x = false) → Ordered left → Ordered right →
        Ordered (.between left op right)
  | call {callable : Callable σ α} {arguments : List (Phrase σ α)} :
      (∀ p ∈ arguments, Ordered p) → Ordered (.call callable arguments)

end Phrase
end InfixCalc
