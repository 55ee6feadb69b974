import InfixCalc.Proofs.Answers
import InfixCalc.Proofs.Decimal.Orderly
import InfixCalc.Proofs.Decimal.Settings
import InfixCalc.Proofs.Decimal.Vocabulary
import InfixCalc.Proofs.Evaluation.Reached

/-!
# Evaluations over decimal numbers

Whatever a builder over decimal numbers builds, and whatever decimals its variables are, an
evaluation gives a decimal or fails as an evaluation, with one exception: a switch that is asked
with an integer outside of its cases, and with more digits than can be written, fails from the
outside.
-/

namespace InfixCalc.Decimal

open InfixCalc.Number

variable {σ : Type}

/-- The evaluation reaches a switch with so many cases, and its selector is an integer that none of
them has. -/
def Strays (e : Expression σ Decimal) (bindings : List (String × Decimal)) (state : σ) (n : Int)
    (cases : Nat) : Prop :=
  ∃ b c cs x reached asked,
    e.Reaches bindings state (.node (.call (.branch b)) (c :: cs)) reached ∧ b.label = "switch" ∧
    cs.length = cases ∧
    (c.evaluate (InfixCalc.valueOf bindings e.constants)).run reached = (.ok x, asked) ∧
    x.toInt? = some n ∧ (n < 1 ∨ cases < n)

/-- What an evaluation fails with that strays: an integer with too many digits cannot be shown. -/
def strayed (n : Int) (cases : Nat) : Failure :=
  if Nat.pow 10 maxIntegerDigits ≤ n.natAbs then .unreadableValue
  else .choiceOutOfRange "switch" n cases

theorem chosen_outside {n : Int} {cases : Nat} (outside : n < 1 ∨ cases < n) :
    Tree.chosen "switch" (cases + 1) (.index n) = .error (strayed n cases) := by
  have never : ¬ (1 ≤ n ∧ n < (cases + 1 : Nat)) := by omega
  rw [Tree.chosen, if_neg never, strayed]
  split <;> rfl

theorem isOrderly_conditionChoice (x : Decimal) :
    IsOrderly Selection.IsSmall (conditionChoice x) := by
  have small (n : Nat) (low : n < 2 ^ 2) : n < Nat.pow 10 maxIntegerDigits :=
    Binary64.lt_pow_ten low (by decide)
  unfold conditionChoice
  split_ifs
  · exact small 2 (by decide)
  · exact small 1 (by decide)

variable [RandomSource σ] {ctx : Context} {pi e : Decimal}

/-- A choice fails as evaluations do, or a switch strays with too many digits. -/
theorem stage_choice {word : String × Arity × (Decimal → Except Failure Selection)}
    (member : word ∈ (wordbook ctx pi e : Wordbook σ Decimal).branches) {x : Decimal} {cases : Nat}
    {cause : Failure}
    (failed : word.2.2 x >>= Tree.chosen word.1 (cases + 1) = .error cause) :
    cause.stage = .evaluation ∨ word.1 = "switch" ∧ ∃ n, x.toInt? = some n ∧
      (n < 1 ∨ cases < n) ∧ Nat.pow 10 maxIntegerDigits ≤ n.natAbs := by
  rcases List.mem_cons.mp member with rfl | member
  · have small := isOrderly_conditionChoice x
    rcases bind_eq_error_iff.mp failed with failed | ⟨selection, came, failed⟩
    · cases failed
    · change conditionChoice x = .ok selection at came
      rw [came] at small
      have orderly := Tree.isOrderly_chosen "if" (cases + 1) small
      rw [failed] at orderly
      exact .inl orderly
  · obtain rfl := List.mem_singleton.mp member
    cases whole : x.toInt? with
    | none =>
      simp only [switchChoice, whole] at failed
      cases failed
      exact .inl rfl
    | some n =>
      simp only [switchChoice, whole] at failed
      by_cases outside : n < 1 ∨ cases < n
      · obtain rfl := Except.error.inj ((chosen_outside outside).symm.trans failed)
        unfold strayed
        split
        · rename_i large
          exact .inr ⟨rfl, n, rfl, outside, large⟩
        · exact .inl rfl
      · have inside : 1 ≤ n ∧ n < (cases + 1 : Nat) := by omega
        change Tree.chosen "switch" (cases + 1) (.index n) = .error cause at failed
        rw [Tree.chosen, if_pos inside] at failed
        cases failed

theorem orderly_meanings :
    ∀ word ∈ (wordbook ctx pi e : Wordbook σ Decimal).meanings,
      ∃ count, word.2.IsOrderly count :=
  Wordbook.orderly_meanings (orderly_operators ctx) (orderly_functions ctx)

/-- A switch in a tree of decimal words that is asked with an integer outside of its cases. -/
theorem breaks_outside {b : Branch σ Decimal} {c : Tree (Symbol σ Decimal)}
    {cs : List (Tree (Symbol σ Decimal))}
    (means : (Tree.node (.call (.branch b)) (c :: cs)).All (wordbook ctx pi e).Means)
    (label : b.label = "switch") {values : String → Option Decimal} {state asked : σ} {x : Decimal}
    (came : (c.evaluate values).run state = (.ok x, asked)) {n : Int}
    (whole : x.toInt? = some n) (outside : n < 1 ∨ cs.length < n) :
    (Tree.node (.call (.branch b)) (c :: cs)).Breaks values (strayed n cs.length) state := by
  refine .selected came ?_
  cases means with
  | node means _ =>
    cases means with
    | word lends => cases lends
    | branch member _ called choice =>
      rw [Branch.run_select choice]
      rcases List.mem_cons.mp member with rfl | member
      · exact absurd (called.symm.trans label) (by decide)
      · obtain rfl := List.mem_singleton.mp member
        simp only [switchChoice, whole, label]
        exact chosen_outside outside

/-- A book of decimal words stands behind every builder. -/
theorem builder_eq_ok {precision rounding cacheSize maxDepth : Setting}
    {first : Builder σ Decimal}
    (made : builder precision rounding cacheSize maxDepth = .ok first) :
    ∃ ctx pi e, Settles precision rounding ctx pi e ∧ first.Consistent ∧
      first.vocabulary = (wordbook ctx pi e).vocabulary ∧ first.config.IsStandard := by
  obtain ⟨config, configured, made⟩ := bind_eq_ok_iff.mp made
  obtain ⟨standard, _⟩ := Config.standard_eq_ok configured
  obtain ⟨_, _, made⟩ := bind_eq_ok_iff.mp made
  obtain ⟨book, read, made⟩ := bind_eq_ok_iff.mp made
  obtain ⟨ctx, pi, e, settles, rfl⟩ := readWordbook_eq_ok_iff.mp read
  have consistent := Builder.consistent_make (wellSpelled_wordbook ctx pi e).regular made
  obtain ⟨cache, _, same⟩ := bind_eq_ok_iff.mp made
  cases same
  exact ⟨ctx, pi, e, settles, consistent, rfl, standard⟩

/-- An evaluation of what a builder has built gives a decimal or fails as evaluations do, unless it
strays with an integer of too many digits. Every evaluation that strays fails with the integer and
the number of cases if it can be written, and from the outside otherwise. -/
theorem builder_answers_or_strays {precision rounding cacheSize maxDepth : Setting}
    {first b : Builder σ Decimal} {text : String} {e : Expression σ Decimal}
    (made : builder precision rounding cacheSize maxDepth = .ok first) (used : first.Used b)
    (built : (b.build text).1 = .ok e) (bindings : List (String × Decimal)) (state : σ) :
    ((∃ value, ((e.evaluate bindings).run state).1 = .ok value) ∨
      (∃ cause, ((e.evaluate bindings).run state).1 = .error cause ∧ cause.stage = .evaluation) ∨
      ∃ n cases, Strays e bindings state n cases ∧ Nat.pow 10 maxIntegerDigits ≤ n.natAbs) ∧
    ∀ n cases, Strays e bindings state n cases →
      ((e.evaluate bindings).run state).1 = .error (strayed n cases) := by
  obtain ⟨ctx, pi, e', _, consistent, words, _⟩ := builder_eq_ok made
  obtain ⟨kept, _, vocabulary⟩ := used.kept consistent
  have root := ((kept.build text).sound e built).root
  rw [vocabulary, words] at root
  have means := Wordbook.means_root (isExact_wordbook ctx pi e') root
  refine ⟨?_, ?_⟩
  · cases came : ((e.evaluate bindings).run state).1 with
    | ok value => exact .inl ⟨value, rfl⟩
    | error cause =>
      refine .inr ?_
      obtain ⟨inner, reached, reaches, refuses⟩ := Wordbook.exists_refuses means came
      cases refuses with
      | name same => exact .inl ⟨cause, rfl, same ▸ rfl⟩
      | word member reads _ _ failed =>
        obtain ⟨count, orderly⟩ := orderly_meanings _ member
        exact .inl ⟨cause, rfl, orderly.stage_give reads failed⟩
      | branch member label came failed =>
        rw [label] at failed
        rcases stage_choice member failed with stage | ⟨switch, n, whole, outside, large⟩
        · exact .inl ⟨cause, rfl, stage⟩
        · exact .inr ⟨n, _, ⟨_, _, _, _, _, _, reaches, label.trans switch, rfl, came, whole,
            outside⟩, large⟩
  · rintro n cases ⟨b, c, cs, x, reached, asked, reaches, label, rfl, came, whole, outside⟩
    exact reaches.fails (breaks_outside (reaches.all means) label came whole outside).fails

/- A switch that is asked with small and with large integers. -/

theorem eq_ok_of_toOption {α : Type} {outcome : Outcome α} {value : α}
    (came : outcome.toOption = some value) : outcome = .ok value := by
  cases outcome with
  | ok other =>
    cases came
    rfl
  | error refusal => cases came

def circleNumber : Decimal := .finite false 31415926535897932385 (-19)

def eulerNumber : Decimal := .finite false 27182818284590452354 (-19)

def seedBook : Wordbook Seed Decimal :=
  wordbook (.standard 20 .halfUp) circleNumber eulerNumber

theorem settles_default : Settles defaultPrecision defaultRounding (.standard 20 .halfUp)
    circleNumber eulerNumber where
  context := rfl
  room := by decide
  circle := eq_ok_of_toOption (by decide +kernel)
  euler := eq_ok_of_toOption (by decide +kernel)

theorem readWordbook_default : readWordbook defaultPrecision defaultRounding = .ok seedBook :=
  readWordbook_eq_ok_iff.mpr ⟨_, _, _, settles_default, rfl⟩

def seedBuilder : Builder Seed Decimal where
  config := ⟨read, fun x => .ok x.plain, fun x => .ok (Shown.text x),
    [⟨"\\d+(?:\\.\\d+)?[eE][-+]?\\d+", Pattern.scientific.matcher⟩,
      ⟨"\\d*\\.?\\d+", Pattern.number.matcher⟩],
    ⟨defaultVariablePattern, Pattern.name.matcher⟩, some 128⟩
  vocabulary := seedBook.vocabulary
  cache := none
  cacheVersion := seedBook.vocabulary.version
  labels := none
  nextStamp := 0

theorem made_seedBuilder :
    builder defaultPrecision defaultRounding .absent (.whole 128) = .ok seedBuilder := by
  have configured : config (.whole 128) = .ok seedBuilder.config := rfl
  have assembled : Builder.make seedBuilder.config seedBook.vocabulary .absent =
      .ok seedBuilder := rfl
  unfold builder
  refine bind_eq_ok_iff.mpr ⟨_, configured, ?_⟩
  refine bind_eq_ok_iff.mpr ⟨none, rfl, ?_⟩
  exact bind_eq_ok_iff.mpr ⟨_, readWordbook_default, assembled⟩

def switching : Callable Seed Decimal :=
  .branch ⟨"switch", .variable, fun x => .ofExcept (switchChoice x)⟩

theorem yields_named {b : Builder σ Decimal} (consistent : b.Consistent)
    (standard : b.config.IsStandard) (words : b.vocabulary = (wordbook ctx pi e).vocabulary)
    {name : String} (among : name ∈ ["x", "y", "z"]) :
    (Scanner.make b.vocabulary b.config).Yields name (.name name) := by
  have ready : (Scanner.make b.vocabulary b.config).Ready := ⟨standard, rfl, consistent.regular⟩
  have apart : ∀ label ∈ operatorSpellings.map (·.1) ++ callSpellings, ∀ name ∈ ["x", "y", "z"],
      label.toList.isPrefixOf name.toList = false := by decide
  have whole : ∀ name ∈ ["x", "y", "z"],
      Pattern.name.split? name.toList = some (name.toList, []) := by decide
  refine ready.yields_name (fun label member => ?_) (whole name among)
  change label ∈ b.vocabulary.labels at member
  rw [words] at member
  have spelled := Wordbook.WellSpelled.mem_labels member
  rw [spellings_wordbook, calls_wordbook] at spelled
  exact apart label spelled name among

theorem yields_name {name : String} (among : name ∈ ["x", "y", "z"]) :
    (Scanner.make seedBuilder.vocabulary seedBuilder.config).Yields name (.name name) := by
  obtain ⟨_, _, _, _, consistent, words, standard⟩ := builder_eq_ok made_seedBuilder
  exact yields_named consistent standard words among

/-- Bindings of a selector and of two cases. -/
def asked (selector : Decimal) : List (String × Decimal) :=
  [("x", selector), ("y", one), ("z", ofNat 2)]

def huge : Decimal := .finite false 1 4300

/-- A switch with two cases that is asked for the third fails with the integer, and one that is
asked with an integer of too many digits fails from the outside. -/
theorem builder_answers_or_strays_switching :
    builder defaultPrecision defaultRounding .absent (.whole 128) = .ok seedBuilder ∧
    ∃ e, (seedBuilder.build "switch(x, y, z)").1 = .ok e ∧
      ((e.evaluate (asked (ofNat 3))).run .initial).1 = .error (.choiceOutOfRange "switch" 3 2) ∧
      ((e.evaluate (asked huge)).run .initial).1 = .error .unreadableValue := by
  obtain ⟨_, _, _, _, consistent, _, standard⟩ := builder_eq_ok made_seedBuilder
  have joined : "switch" ++ Tree.parenthesized (", ".intercalate ["x", "y", "z"]) =
      "switch(x, y, z)" := by decide +kernel
  have called : seedBuilder.vocabulary.callable? "switch" = some switching := rfl
  have three : switching.Takes ["x", "y", "z"].length := Nat.le_refl 3
  obtain ⟨e, built, root⟩ := consistent.exists_build_calling standard called rfl three
    (fun name member => yields_name member) ((within_some _ _).mpr (by decide))
    ((within_some _ _).mpr (by decide)) ⟨_, rfl⟩
  rw [joined] at built
  have answers := builder_answers_or_strays made_seedBuilder .new built
  have strays (x : Decimal) {n : Int} (whole : x.toInt? = some n) (outside : n < 1 ∨ 2 < n) :
      Strays e (asked x) .initial n 2 := by
    refine ⟨⟨"switch", .exactly 3, fun x => .ofExcept (switchChoice x)⟩,
      .node (.variable "x") [], [.node (.variable "y") [], .node (.variable "z") []],
      x, .initial, .initial, ?_, rfl, rfl, rfl, whole, outside⟩
    rw [Expression.Reaches, root]
    exact .here
  have third : strayed 3 2 = .choiceOutOfRange "switch" 3 2 := if_neg (by decide +kernel)
  have large : strayed (10 ^ 4300) 2 = .unreadableValue := if_pos (by decide +kernel)
  have whole : huge.toInt? = some (10 ^ 4300) := by decide +kernel
  exact ⟨made_seedBuilder, e, built,
    third ▸ (answers _ _).2 3 2 (strays (ofNat 3) rfl (.inr (by decide))),
    large ▸ (answers _ _).2 _ 2 (strays huge whole (.inr (by decide +kernel)))⟩

end InfixCalc.Decimal
