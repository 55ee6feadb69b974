import InfixCalc.Proofs.Decimal.Constants

/-!
# Words before their operands

An operator that a builder reads under the label of a word does what the word means. One that means
a unary operation gives what the operation gives, and reports what it refuses.
-/

namespace InfixCalc

open InfixCalc.Number

section Evaluation

variable {σ α : Type}

theorem Symbol.Acts.run_evaluate_unary [Shown α] {s : Symbol σ α} {label : String}
    {f : α → Outcome α} (acts : s.Acts label (.unary f)) {t : Tree (Symbol σ α)}
    {values : String → Option α} {state reached : σ} {x : α}
    (came : (t.evaluate values).run state = (.ok x, reached)) :
    ((Tree.node s [t]).evaluate values).run state =
      ((f x).mapError (Refusal.report label (Shown.text x)), reached) := by
  have reads : (Meaning.unary f : Meaning σ α).Reads [t].length := rfl
  have operands : ([t].mapM (Tree.evaluate values)).run state = (.ok [x], reached) :=
    Effect.run_mapM_cons_eq_ok_iff.mpr ⟨x, reached, [], came, rfl, rfl⟩
  have gave : Tree.apply values s ([x].map pure) =
      ((Meaning.unary f).give label [x]).start [] := acts.apply_pure values rfl
  rw [Tree.evaluate_strict (acts.isStrict reads), Effect.run_bind, operands]
  dsimp only
  rw [gave, Meaning.give]
  cases f x with
  | ok value => rfl
  | error refusal => rfl

/-- An operator is in the vocabulary, or its label is reserved. -/
theorem Vocabulary.Supplies.operator_or_reserved {v : Vocabulary σ α} {op : Operator σ α}
    (supplies : v.Supplies (.operator op)) :
    (∃ fixity label, (v.operatorsAt fixity).get? label = some op) ∨ op.label ∈ reservedLabels := by
  cases supplies with
  | operator fixity found => exact .inl ⟨fixity, _, found⟩
  | marker marked =>
    refine .inr ?_
    simp only [Vocabulary.marker] at marked
    split_ifs at marked with plus minus product
    · subst plus
      split at marked <;> cases marked <;> simp [reservedLabels]
    · subst minus
      split at marked <;> cases marked
      simp [reservedLabels]
    · subst product
      split at marked <;> cases marked
      simp [reservedLabels]

/-- An operator that is read under a label of its own means a word with the label. -/
theorem Wordbook.exists_word_of_operator [Shown α] {book : Wordbook σ α} {config : Config α}
    {limit : Option Nat} {text : String} {op : Operator σ α} {cs : List (Tree (Symbol σ α))}
    (read : (Scanner.make book.vocabulary config).root limit text =
      .ok (.node (.operator op) cs)) (own : op.label ∉ reservedLabels) :
    ∃ word ∈ book.operators, op.label = word.1 ∧
      op.body = word.2.2.2.callback word.1 := by
  let Spelled (op : Operator σ α) : Prop :=
    ∃ word ∈ book.operators, op.label = word.1 ∧ op.body = word.2.2.2.callback word.1
  have keeps : book.vocabulary.Keeps (fun _ op => Spelled op) (fun _ _ => True)
      fun _ _ => True := by
    refine words_induction Vocabulary.keeps_empty ?_ ?_ ?_ ?_
    · exact fun v keeps word member => keeps.putOperator ⟨word, member, rfl, rfl⟩
    · exact fun v keeps word member => ⟨keeps.before, keeps.after, keeps.between,
        keeps.functions.insert trivial, keeps.branches⟩
    · exact fun v keeps word member => ⟨keeps.before, keeps.after, keeps.between,
        keeps.functions, keeps.branches.insert trivial⟩
    · exact fun v keeps _ _ =>
        ⟨keeps.before, keeps.after, keeps.between, keeps.functions, keeps.branches⟩
  have spelled {op : Operator σ α} (supplies : book.vocabulary.Supplies (.operator op))
      (own : op.label ∉ reservedLabels) : Spelled op := by
    obtain ⟨fixity, label, found⟩ := supplies.operator_or_reserved.resolve_right own
    exact keeps.operatorsAt fixity _ _ found
  obtain ⟨p, same, sound, supplied⟩ := Scanner.supplied_of_root read
  have all : p.tree.All fun _ s => ∀ op, s = .operator op → op.label ∉ reservedLabels →
      Spelled op := by
    refine sound.1.all fun s member => ?_
    have supplies := supplied s member
    cases s with
    | operand value => exact nofun
    | «variable» label => exact nofun
    | operator op =>
      rintro _ ⟨⟩ own
      exact spelled supplies own
    | call callable => exact fun _ _ => nofun
  rw [same] at all
  cases all with
  | node here _ => exact here op rfl own

/-- An operator that is written before a name is built as the operator of a variable. -/
theorem Builder.Consistent.exists_build_before {b : Builder σ α} (consistent : b.Consistent)
    (standard : b.config.IsStandard) {label name : String} {op : Operator σ α}
    (notCalled : b.vocabulary.callable? label = none)
    (found : b.vocabulary.before.get? label = some op)
    (noSign : Scanner.beginsLikeSign label = false)
    (named : (Scanner.make b.vocabulary b.config).Yields name (.name name))
    (deep : Within b.config.maxDepth 2) :
    ∃ e, (b.build (label ++ " " ++ name)).1 = .ok e ∧
      e.root = .node (.operator op) [.node (.variable name) []] := by
  have ready : (Scanner.make b.vocabulary b.config).Ready := ⟨standard, rfl, consistent.regular⟩
  have before := (consistent.regular.before label op found).2.2.2
  have sound : (Phrase.before op (.name name)).Sound := by
    refine ⟨.before before (.name _), .before ?_ ?_ (.name _)⟩ <;>
      simp [Phrase.leftEdge, Phrase.opensGroup]
  have low : (Phrase.before op (.name name)).tree.height = 2 := rfl
  have noOperand (value : α) : .operand value ∉ (Phrase.before op (.name name)).tree.postorder := by
    simp [Phrase.tree, Tree.postorder, Tree.postorderAll]
  exact consistent.exists_build standard sound (ready.yields_before notCalled found noSign named)
    (deep.mono (Nat.zero_le 2)) (deep.mono low.le)
    (fun value member => absurd member (noOperand value))
    (Tree.exists_written fun value member => absurd member (noOperand value))

end Evaluation

namespace Decimal

variable {σ : Type} {ctx : Context}

theorem meaning_of_label : ∀ word ∈ wordFunctions ctx,
    ∀ other ∈ (operators ctx : List (String × Fixity × Nat × Meaning σ Decimal)),
      other.1 = word.1 → other.2.2.2 = .unary word.2 := by
  simp [wordFunctions, operators, comparisons]

theorem not_reserved_of_word : ∀ word ∈ wordFunctions ctx, word.1 ∉ reservedLabels := by
  simp [wordFunctions, reservedLabels, unaryPlus, unaryMinus, impliedProduct]

/-- In an expression of a builder, an operator with the label of a word function does what the word
means in the context of the builder. -/
theorem acts_of_label [RandomSource σ] {precision rounding cacheSize maxDepth : Setting}
    (settings : readContext precision rounding = .ok ctx) {first b : Builder σ Decimal}
    (made : builder precision rounding cacheSize maxDepth = .ok first) (used : first.Used b)
    {text : String} {e : Expression σ Decimal} (built : (b.build text).1 = .ok e)
    {op : Operator σ Decimal} {cs : List (Tree (Symbol σ Decimal))}
    (root : e.root = .node (.operator op) cs) {word : String × (Decimal → Outcome Decimal)}
    (member : word ∈ wordFunctions ctx) (label : op.label = word.1) :
    (Symbol.operator op).Acts word.1 (.unary word.2) := by
  obtain ⟨ctx', pi, e', settles, consistent, words, _⟩ := builder_eq_ok made
  obtain rfl : ctx = ctx' := Except.ok.inj (settings.symm.trans settles.context)
  obtain ⟨kept, _, vocabulary⟩ := used.kept consistent
  have read := ((kept.build text).sound e built).root
  rw [vocabulary, words, root] at read
  obtain ⟨other, among, same, body⟩ :=
    Wordbook.exists_word_of_operator read (label ▸ not_reserved_of_word word member)
  have spelled := same.symm.trans label
  rw [meaning_of_label word member other among spelled, spelled] at body
  exact .operator body

/-- The operator that a builder has for a word function. -/
def wordOperator (word : String × (Decimal → Outcome Decimal)) : Operator Seed Decimal where
  label := word.1
  fixity := .before
  precedence := precedences.word
  body := (Meaning.unary word.2).callback word.1
  symbol := none

/-- In a builder with the settings, a word that is read before an operand is read before a
variable. -/
theorem exists_build_word {precision rounding : Setting}
    (read : readContext precision rounding = .ok ctx) (rests : ctx.rounding.Rests)
    (room : ctx.extended.precision ≤ greatestPrecision)
    (word : String × (Decimal → Outcome Decimal))
    (found : ∀ pi e, (wordbook ctx pi e).vocabulary.before.get? word.1 = some (wordOperator word))
    (notCalled : ∀ pi e,
      (wordbook ctx pi e : Wordbook Seed Decimal).vocabulary.callable? word.1 = none)
    (noSign : Scanner.beginsLikeSign word.1 = false) :
    ∃ (first : Builder Seed Decimal) (e : Expression Seed Decimal),
      builder precision rounding .absent (.whole 128) = .ok first ∧
      (first.build (word.1 ++ " " ++ "x")).1 = .ok e ∧
      e.root = .node (.operator (wordOperator word)) [.node (.variable "x") []] := by
  have configured : config (.whole 128) = .ok seedBuilder.config := rfl
  obtain ⟨first, made, config⟩ : ∃ first : Builder Seed Decimal,
      builder precision rounding .absent (.whole 128) = .ok first ∧
        first.config = seedBuilder.config := exists_builder read rests configured rfl room
  obtain ⟨ctx', pi, e, settles, consistent, words, standard⟩ := builder_eq_ok made
  obtain rfl : ctx = ctx' := Except.ok.inj (read.symm.trans settles.context)
  have deep : Within first.config.maxDepth 2 := by
    rw [config]
    exact (within_some _ _).mpr (by decide)
  obtain ⟨e, built, root⟩ := consistent.exists_build_before standard
    (words ▸ notCalled pi e) (words ▸ found pi e) noSign
    (yields_named consistent standard words List.mem_cons_self) deep
  exact ⟨first, e, made, built, root⟩

end Decimal
end InfixCalc
