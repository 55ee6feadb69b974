import InfixCalc.Proofs.Vocabulary.Supplied

/-!
# Trees of words

A tree that is read with the vocabulary of a wordbook is made of literals, names and words of the
book. Each operator, function and branch in it does what one word means, with a number of operands
that the word may have.
-/

namespace InfixCalc

variable {σ α : Type}

/- Trees and phrases. -/

/-- Every symbol of the tree has the property with the number of its operands. -/
inductive Tree.All (P : Nat → Symbol σ α → Prop) : Tree (Symbol σ α) → Prop where
  | node {s : Symbol σ α} {cs : List (Tree (Symbol σ α))} :
      P cs.length s → (∀ c ∈ cs, All P c) → All P (.node s cs)

theorem Tree.All.mono {P Q : Nat → Symbol σ α → Prop} {t : Tree (Symbol σ α)} (all : t.All P)
    (each : ∀ count s, P count s → Q count s) : t.All Q := by
  induction all with
  | node here _ ih => exact .node (each _ _ here) ih

theorem Tree.All.and_postorder {P : Nat → Symbol σ α → Prop} {Q : Symbol σ α → Prop}
    {t : Tree (Symbol σ α)}
    (all : t.All P) (each : ∀ s ∈ t.postorder, Q s) : t.All fun count s => P count s ∧ Q s := by
  induction all with
  | node here _ ih =>
    exact .node ⟨here, each _ (mem_postorder.mpr (.inr rfl))⟩ fun c among =>
      ih c among fun s inside => each s (mem_postorder.mpr (.inl ⟨c, among, inside⟩))

/-- The symbol has the property with every number of operands that it may have. -/
def Symbol.Always (P : Nat → Symbol σ α → Prop) : Symbol σ α → Prop
  | .operand value => P 0 (.operand value)
  | .variable label => P 0 (.variable label)
  | .operator op => P op.fixity.arity (.operator op)
  | .call callable => ∀ count, callable.Takes count → P count (.call (callable.settledAt count))

theorem Phrase.WellFormed.all {P : Nat → Symbol σ α → Prop} {p : Phrase σ α}
    (wellFormed : p.WellFormed) (given : ∀ s, .symbol s ∈ p.tokens → s.Always P) :
    p.tree.All P := by
  induction wellFormed with
  | operand value => exact .node (given (.operand value) List.mem_cons_self) (List.forall_mem_nil _)
  | name label => exact .node (given (.variable label) List.mem_cons_self) (List.forall_mem_nil _)
  | group _ ih =>
    refine ih fun s member => given s ?_
    simp [Phrase.tokens, member]
  | @before op inner fixity _ ih =>
    have here : P op.fixity.arity (.operator op) := given (.operator op) List.mem_cons_self
    have below := ih fun s member => given s (List.mem_cons_of_mem _ member)
    rw [fixity] at here
    exact .node here (List.forall_mem_singleton.mpr below)
  | @after inner op fixity _ ih =>
    have here : P op.fixity.arity (.operator op) :=
      given (.operator op) (List.mem_append_right _ List.mem_cons_self)
    have below := ih fun s member => given s (List.mem_append_left _ member)
    rw [fixity] at here
    exact .node here (List.forall_mem_singleton.mpr below)
  | @between left right op fixity _ _ ihLeft ihRight =>
    have here : P op.fixity.arity (.operator op) :=
      given (.operator op) (List.mem_append_right _ List.mem_cons_self)
    have first := ihLeft fun s member => given s (List.mem_append_left _ member)
    have second := ihRight fun s member =>
      given s (List.mem_append_right _ (List.mem_cons_of_mem _ member))
    have two : op.fixity.arity = 2 := by rw [Fixity.arity, if_pos fixity]
    rw [two] at here
    exact .node here (List.forall_mem_cons.mpr ⟨first, List.forall_mem_singleton.mpr second⟩)
  | @call callable arguments takes _ ih =>
    have here := given (.call callable) List.mem_cons_self arguments.length takes
    rw [Phrase.tree, Phrase.trees_eq_map]
    refine .node ?_ (List.forall_mem_map.mpr fun p inside => ih p inside fun s member => given s ?_)
    · rw [List.length_map]
      exact here
    · have among := (Phrase.tokens_infix_argumentTokens inside).subset member
      simp [Phrase.tokens, among]

/- Words. -/

/-- Whether a call with the arity may have that number of arguments. -/
def Arity.Admits (count : Nat) : Arity → Prop
  | .variable => True
  | .exactly expected => expected = count

/-- Whether the meaning reads the values of so many operands. -/
def Meaning.Reads (count : Nat) : Meaning σ α → Prop
  | .same | .unary _ => count = 1
  | .binary _ => count = 2
  | .ternary _ => count = 3
  | .aggregate _ => True
  | .drawn _ => count = 0

/-- The symbol is an operator or a function that does what a word under the label means. -/
inductive Symbol.Acts [Shown α] (label : String) (meaning : Meaning σ α) : Symbol σ α → Prop where
  | operator {op : Operator σ α} :
      op.body = meaning.callback label → Acts label meaning (.operator op)
  | function {f : Function σ α} :
      f.body = meaning.callback label → Acts label meaning (.call (.function f))

namespace Wordbook

/-- What the operators and the functions mean. -/
def meanings (book : Wordbook σ α) : List (String × Meaning σ α) :=
  book.operators.map (fun word => (word.1, word.2.2.2)) ++
    book.functions.map fun word => (word.1, word.2.2)

/-- Every word reads the operands that it may have, a branch has a selector, and there is a sign
`+`. -/
structure IsExact (book : Wordbook σ α) : Prop where
  operators : ∀ word ∈ book.operators, word.2.2.2.Reads word.2.1.arity
  functions : ∀ word ∈ book.functions, ∀ count, word.2.1.Admits count → word.2.2.Reads count
  branches : ∀ word ∈ book.branches, word.2.1 ≠ .exactly 0
  plus : ("+", .before, maxPrecedence, .same) ∈ book.operators

variable [Shown α]

/-- The book lends the symbol what a word means: to an operator what an operator means, and to a
function what the function with its label means. -/
inductive Lends (book : Wordbook σ α) : String → Meaning σ α → Symbol σ α → Prop where
  | operator {op : Operator σ α} {word : String × Fixity × Nat × Meaning σ α} :
      word ∈ book.operators → op.body = word.2.2.2.callback word.1 →
        Lends book word.1 word.2.2.2 (.operator op)
  | function {f : Function σ α} {word : String × Arity × Meaning σ α} :
      word ∈ book.functions → f.label = word.1 → f.body = word.2.2.callback word.1 →
        Lends book word.1 word.2.2 (.call (.function f))

/-- The symbol is a literal or a name, or it does what a word of the book means when it has that
number of operands. -/
inductive Means (book : Wordbook σ α) : Nat → Symbol σ α → Prop where
  | operand (value : α) : Means book 0 (.operand value)
  | name (label : String) : Means book 0 (.variable label)
  | word {label : String} {meaning : Meaning σ α} {count : Nat} {s : Symbol σ α} :
      book.Lends label meaning s → meaning.Reads count → Means book count s
  | branch {b : Branch σ α} {word : String × Arity × (α → Except Failure Selection)}
      {count : Nat} :
      word ∈ book.branches → 0 < count → b.label = word.1 →
        b.choice = (fun value => .ofExcept (word.2.2 value)) →
          Means book count (.call (.branch b))

variable {book : Wordbook σ α}

theorem Lends.mem {label : String} {meaning : Meaning σ α} {s : Symbol σ α}
    (lends : book.Lends label meaning s) : (label, meaning) ∈ book.meanings := by
  cases lends with
  | operator member => exact List.mem_append_left _ (List.mem_map_of_mem member)
  | function member => exact List.mem_append_right _ (List.mem_map_of_mem member)

theorem Lends.acts {label : String} {meaning : Meaning σ α} {s : Symbol σ α}
    (lends : book.Lends label meaning s) : s.Acts label meaning := by
  cases lends with
  | operator _ body => exact .operator body
  | function _ _ body => exact .function body

variable (exact : book.IsExact)
include exact

theorem means_operator {op : Operator σ α} {word : String × Fixity × Nat × Meaning σ α}
    (member : word ∈ book.operators) (fixity : op.fixity = word.2.1)
    (body : op.body = word.2.2.2.callback word.1) : book.Means op.fixity.arity (.operator op) :=
  .word (.operator member body) (fixity ▸ exact.operators word member)

theorem always_function {f : Function σ α} {word : String × Arity × Meaning σ α}
    (member : word ∈ book.functions) (label : f.label = word.1) (arity : f.arity = word.2.1)
    (body : f.body = word.2.2.callback word.1) :
    (Symbol.call (.function f)).Always book.Means := by
  intro count takes
  have admits : word.2.1.Admits count := by
    rw [← arity]
    obtain ⟨_, fArity, _⟩ := f
    cases fArity with
    | «variable» => exact trivial
    | exactly expected => exact takes
  have lends : book.Lends word.1 word.2.2 (.call ((Callable.function f).settledAt count)) := by
    obtain ⟨_, fArity, _⟩ := f
    cases fArity with
    | «variable» => exact .function member label body
    | exactly expected => exact .function member label body
  exact .word lends (exact.functions word member count admits)

theorem always_branch {b : Branch σ α}
    {word : String × Arity × (α → Except Failure Selection)} (member : word ∈ book.branches)
    (label : b.label = word.1) (arity : b.arity = word.2.1)
    (choice : b.choice = fun value => .ofExcept (word.2.2 value)) :
    (Symbol.call (.branch b)).Always book.Means := by
  intro count takes
  have fixed := exact.branches word member
  rw [← arity] at fixed
  obtain ⟨_, bArity, _⟩ := b
  cases bArity with
  | «variable» =>
    have three : 3 ≤ count := takes
    exact .branch member (by omega) label choice
  | exactly expected =>
    obtain rfl : expected = count := takes
    refine .branch member (Nat.pos_of_ne_zero ?_) label choice
    rintro rfl
    exact fixed rfl

/-- A symbol of the book, but an operator is looked for by what it does: a marker has another label
than its word. -/
def DoesAsWord (book : Wordbook σ α) : Symbol σ α → Prop
  | .operator op => ∃ word ∈ book.operators, op.fixity = word.2.1 ∧
      op.body = word.2.2.2.callback word.1
  | s => s.Always book.Means

/-- The book backs a vocabulary in which every word does what a word of the book does. Labels of
operators and constants do not matter. -/
abbrev Backs (book : Wordbook σ α) (v : Vocabulary σ α) : Prop :=
  v.Keeps
    (fun _ op => ∃ word ∈ book.operators, op.fixity = word.2.1 ∧
      op.body = word.2.2.2.callback word.1)
    (fun _ f => (Symbol.call (.function f)).Always book.Means)
    fun _ b => (Symbol.call (.branch b)).Always book.Means

theorem backs_vocabulary : book.Backs book.vocabulary := by
  refine words_induction Vocabulary.keeps_empty ?_ ?_ ?_ ?_
  · exact fun v keeps word member => keeps.putOperator ⟨word, member, rfl, rfl⟩
  · exact fun v keeps word member => ⟨keeps.before, keeps.after, keeps.between,
      keeps.functions.insert (always_function exact member rfl rfl rfl), keeps.branches⟩
  · exact fun v keeps word member => ⟨keeps.before, keeps.after, keeps.between,
      keeps.functions, keeps.branches.insert (always_branch exact member rfl rfl rfl)⟩
  · exact fun v keeps _ _ =>
      ⟨keeps.before, keeps.after, keeps.between, keeps.functions, keeps.branches⟩

/-- A tree that is read with a vocabulary that the book backs is made of words of the book. -/
theorem Backs.means_root {v : Vocabulary σ α} (backs : book.Backs v) {config : Config α}
    {limit : Option Nat} {text : String} {t : Tree (Symbol σ α)}
    (read : (Scanner.make v config).root limit text = .ok t) : t.All book.Means := by
  obtain ⟨p, rfl, sound, supplied⟩ := Scanner.supplied_of_root read
  refine sound.1.all fun s member => ?_
  have holds : book.DoesAsWord s := by
    refine Vocabulary.Keeps.supplies (P := book.DoesAsWord) backs (supplied s member) ?_ ?_ ?_ ?_
    · exact fun value => .operand value
    · exact fun label => .name label
    · exact fun _ _ _ holds => holds
    · exact ⟨_, exact.plus, rfl, rfl⟩
  cases s with
  | operand value => exact .operand value
  | «variable» label => exact .name label
  | operator op =>
    obtain ⟨word, there, fixity, body⟩ := holds
    exact means_operator exact there fixity body
  | call callable => exact holds

/-- A tree that is read with the vocabulary of the book is made of its words. -/
theorem means_root {config : Config α} {limit : Option Nat} {text : String} {t : Tree (Symbol σ α)}
    (read : (Scanner.make book.vocabulary config).root limit text = .ok t) :
    t.All book.Means :=
  (backs_vocabulary exact).means_root exact read

end Wordbook
end InfixCalc
