import Mathlib
import InfixCalc.Proofs.Builder
import InfixCalc.Proofs.Precedence

/-!
# Building again from the written form

An expression that is built from its own written form is the same, with its implied products
written out, if and only if the written form keeps the operands of every operator. Any precedences
are allowed, and not all of them are safe: the parentheses are chosen from an operator and its
operand alone, but an operator before its operand waits for whatever follows further right.
-/

namespace InfixCalc

variable {σ α : Type}

/-- An expression is built again from its written form if and only if each operator finds there
the operands that its precedence gives it and no label is taken for a sign. -/
theorem Builder.rebuild_written_iff {b : Builder σ α} (grown : b.Grown)
    {read : String → Option α} {print display : α → Except Failure String} {maxDepth : Setting}
    (standard : Config.standard read print display maxDepth = .ok b.config)
    (separate : b.vocabulary.Separate) {source : String} {e : Expression σ α}
    (built : (b.build source).1 = .ok e)
    (literals : ∀ value, .operand value ∈ e.root.postorder →
      (Scanner.make b.vocabulary b.config).Readable value) :
    ∃ text, e.written = .ok text ∧
      ((∃ again, ((b.build source).2.build text).1 = .ok again ∧
          again.root = e.root.explicit) ↔
        (e.root.printed b.vocabulary).Ordered ∧
          ∀ s ∈ e.root.postorder, Scanner.looksLikeSign s = false) := by
  have consistent := grown.consistent
  obtain ⟨root, _, print⟩ := (consistent.build source).sound e built
  have ready : (Scanner.make b.vocabulary b.config).Ready :=
    ⟨(Config.standard_eq_ok standard).1, rfl, consistent.regular⟩
  have prints := Scanner.exists_print literals
  obtain ⟨text, written⟩ := Tree.exists_written prints
  have printsAgain := Tree.exists_written fun value member =>
    prints value (Tree.operand_mem_explicit.mp member)
  refine ⟨text, ?_, ?_⟩
  · rw [Expression.written, print]
    exact written
  · rw [consistent.build_again_iff source text printsAgain]
    exact ready.root_written_iff separate root literals written

/- An operator before operands and one between them, of the same precedence. -/

def tiedVocabulary : Vocabulary Unit Nat :=
  (Vocabulary.empty.putOperator (plainOperator "neg" .before 3)).putOperator
    (plainOperator "*" .left 3)

def plainConfig : Config Nat where
  read := String.toNat?
  print n := .ok (toString n)
  display n := .ok (toString n)
  operandPatterns :=
    [⟨"\\d+(?:\\.\\d+)?[eE][-+]?\\d+", Pattern.scientific.matcher⟩,
      ⟨"\\d*\\.?\\d+", Pattern.number.matcher⟩]
  variablePattern := ⟨defaultVariablePattern, Pattern.name.matcher⟩
  maxDepth := none

def tiedBuilder : Builder Unit Nat := ⟨plainConfig, tiedVocabulary, none, 2, none, 0⟩

theorem standard_plainConfig :
    Config.standard String.toNat? (fun n => .ok (toString n)) (fun n => .ok (toString n)) .absent =
      .ok plainConfig := rfl

theorem reachable_tiedVocabulary : tiedVocabulary.Reachable := by
  let one : Vocabulary Unit Nat := Vocabulary.empty.putOperator (plainOperator "neg" .before 3)
  have first : Vocabulary.empty.addOperator "neg" "PREFIX" (.whole 3)
      (plainOperator "neg" .before 3).body = .ok (plainOperator "neg" .before 3, one) := rfl
  have second : one.addOperator "*" "INFIX" (.whole 3) (plainOperator "*" .left 3).body =
      .ok (plainOperator "*" .left 3, tiedVocabulary) := rfl
  exact .change (.change .empty (.addOperator first)) (.addOperator second)

theorem grown_tiedBuilder : tiedBuilder.Grown := by
  have made : Builder.make plainConfig tiedVocabulary .absent = .ok tiedBuilder := rfl
  exact .make reachable_tiedVocabulary made

theorem separate_tiedVocabulary : tiedVocabulary.Separate := fun _ _ => rfl

def tiedScanner : Scanner Unit Nat := .make tiedVocabulary plainConfig

theorem ready_tiedScanner : tiedScanner.Ready :=
  ⟨(Config.standard_eq_ok standard_plainConfig).1, rfl, grown_tiedBuilder.consistent.regular⟩

theorem readable_two : tiedScanner.Readable 2 := ⟨"2", rfl, by cbv⟩

theorem yields_two : tiedScanner.Yields "2" (.operand 2) := by
  obtain ⟨text, printed, scanned⟩ := readable_two
  cases printed
  exact ready_tiedScanner.yields_operand scanned

theorem yields_a : tiedScanner.Yields "a" (.name "a") :=
  fun _ fresh _ breaks => ready_tiedScanner.leads_name ⟨by cbv, rfl⟩ fresh true breaks

def negatedProduct : Phrase Unit Nat :=
  .before (plainOperator "neg" .before 3)
    (.group (.between (.name "a") (plainOperator "*" .left 3) (.operand 2)))

def productOfNegated : Phrase Unit Nat :=
  .between (.group (.before (plainOperator "neg" .before 3) (.name "a")))
    (plainOperator "*" .left 3) (.operand 2)

theorem sound_negatedProduct : negatedProduct.Sound := by
  refine ⟨.before rfl (.group (.between rfl (.name _) (.operand _))), ?_⟩
  refine .before ?_ ?_ (.group (.between ?_ ?_ (.name _) (.operand _))) <;>
    simp [Phrase.leftEdge, Phrase.rightEdge, Phrase.isGroup]

theorem sound_productOfNegated : productOfNegated.Sound := by
  refine ⟨.between rfl (.group (.before rfl (.name _))) (.operand _), ?_⟩
  refine .between ?_ ?_ (.group (.before ?_ ?_ (.name _))) (.operand _) <;>
    simp [Phrase.leftEdge, Phrase.rightEdge, Phrase.opensGroup]

theorem found_neg :
    tiedVocabulary.before.get? "neg" = some (plainOperator "neg" .before 3) := rfl

theorem found_star :
    tiedVocabulary.between.get? "*" = some (plainOperator "*" .left 3) := rfl

theorem yields_negatedProduct : tiedScanner.Yields "neg(a * 2)" negatedProduct := by
  have inner := ready_tiedScanner.yields_between rfl found_star (.name _) yields_a yields_two
  have outer := ready_tiedScanner.yields_before_group rfl found_neg (by decide) inner
  have joined : "neg" ++ Tree.parenthesized ("a" ++ " " ++ "*" ++ " " ++ "2") = "neg(a * 2)" := by
    decide +kernel
  exact joined ▸ outer

theorem yields_productOfNegated : tiedScanner.Yields "(neg a) * 2" productOfNegated := by
  have inner := ready_tiedScanner.yields_before rfl found_neg (by decide) yields_a
  have outer := ready_tiedScanner.yields_between rfl found_star (.group (.before rfl (.name _)))
    inner.group yields_two
  have joined : Tree.parenthesized ("neg" ++ " " ++ "a") ++ " " ++ "*" ++ " " ++ "2" =
      "(neg a) * 2" := by
    decide +kernel
  exact joined ▸ outer

theorem readable_literals {e : Expression Unit Nat}
    (symbols : ∀ value, .operand value ∈ e.root.postorder → value = 2) :
    ∀ value, .operand value ∈ e.root.postorder →
      (Scanner.make tiedBuilder.vocabulary tiedBuilder.config).Readable value := by
  intro value member
  rw [symbols value member]
  exact readable_two

/-- One text is built again from its written form, and the other is not: `(neg a) * 2` is written
`neg a * 2`, where `neg` waits for the product. -/
theorem Builder.rebuild_written_tied :
    (∃ e text, (tiedBuilder.build "neg(a * 2)").1 = .ok e ∧ e.written = .ok text ∧
      ∃ again, ((tiedBuilder.build "neg(a * 2)").2.build text).1 = .ok again ∧
        again.root = e.root.explicit) ∧
    ∃ e text, (tiedBuilder.build "(neg a) * 2").1 = .ok e ∧ e.written = .ok text ∧
      ¬ ∃ again, ((tiedBuilder.build "(neg a) * 2").2.build text).1 = .ok again ∧
        again.root = e.root.explicit := by
  have consistent := grown_tiedBuilder.consistent
  constructor
  · obtain ⟨e, built, root⟩ := consistent.exists_build ready_tiedScanner.standard
      sound_negatedProduct yields_negatedProduct (within_none _) (within_none _)
      (fun _ _ => ⟨_, rfl⟩) ⟨_, rfl⟩
    have literals := readable_literals (e := e) fun value member => by
      simpa [root, negatedProduct, Phrase.tree, Tree.postorder, Tree.postorderAll] using member
    obtain ⟨text, written, rebuilt⟩ := Builder.rebuild_written_iff grown_tiedBuilder
      standard_plainConfig separate_tiedVocabulary built literals
    refine ⟨e, text, built, written, rebuilt.mpr ?_⟩
    rw [root]
    refine ⟨sound_negatedProduct.2, ?_⟩
    decide
  · obtain ⟨e, built, root⟩ := consistent.exists_build ready_tiedScanner.standard
      sound_productOfNegated yields_productOfNegated (within_none _) (within_none _)
      (fun _ _ => ⟨_, rfl⟩) ⟨_, rfl⟩
    have literals := readable_literals (e := e) fun value member => by
      simpa [root, productOfNegated, Phrase.tree, Tree.postorder, Tree.postorderAll] using member
    obtain ⟨text, written, rebuilt⟩ := Builder.rebuild_written_iff grown_tiedBuilder
      standard_plainConfig separate_tiedVocabulary built literals
    refine ⟨e, text, built, written, fun again => ?_⟩
    have ordered := (rebuilt.mp again).1
    rw [root] at ordered
    cases ordered with
    | between applied _ _ _ =>
      have waits := applied (plainOperator "neg" .before 3) List.mem_cons_self
      exact absurd waits (by decide)

end InfixCalc
