import InfixCalc.Proofs.Arrays.Builder
import InfixCalc.Proofs.Arrays.Words
import InfixCalc.Proofs.Evaluation.Carried
import InfixCalc.Proofs.Grid.Builder
import InfixCalc.Proofs.Grid.Laws

/-!
# Evaluations over arrays

Whatever a builder over arrays builds, and whatever arrays of numbers its variables are, an
evaluation gives an array of numbers or fails as an evaluation, unless it applies a word to operands
that the word defies.
-/

namespace InfixCalc.ArrayLibrary

open InfixCalc.Number

section

variable {A σ : Type} [Shown A] [RandomSource σ] {lib : ArrayLibrary A} {numeric : A → Prop}
  (broadcasts : lib.Broadcasts numeric)
include broadcasts

/-- The words of an expression give numbers for numbers. -/
theorem preserves_of_means {values : String → Option A} {count : Nat} {s : Symbol σ A}
    (means : (lib.wordbook : Wordbook σ A).Means count s)
    (literal : ∀ a, s = .operand a → numeric a)
    (named : ∀ label a, s = .variable label → values label = some a → numeric a) :
    s.Preserves values numeric count where
  plain := means.isPlain
  preserved := by
    intro strict operands state last value full given came
    cases means with
    | operand a =>
      cases came
      exact literal _ rfl
    | name label =>
      rw [Tree.apply] at came
      cases found : values label with
      | none =>
        rw [found] at came
        cases came
      | some a =>
        rw [found] at came
        cases came
        exact named label _ rfl found
    | word lends reads =>
      subst full
      rw [lends.acts.apply_pure values reads] at came
      exact (tame_meanings broadcasts _ lends.mem).given reads given came
    | branch member => cases member

/-- All values that come up in the evaluation of what a builder builds are numbers, if the bindings
are. -/
theorem preserves_root {first b : Builder σ A} {cacheSize maxDepth : Setting} {text : String}
    {e : Expression σ A} (made : lib.builder cacheSize maxDepth = .ok first)
    (used : first.Used b) (built : (b.build text).1 = .ok e) {bindings : List (String × A)}
    (given : ∀ entry ∈ bindings, numeric entry.2) :
    e.root.All ((lib.wordbook : Wordbook σ A).Means) ∧
      e.root.All (Symbol.Preserves (valueOf bindings e.constants) numeric) := by
  obtain ⟨consistent, words, standard, reads, _⟩ := builder_eq_ok made
  obtain ⟨kept, config, vocabulary⟩ := used.kept consistent
  obtain ⟨root, constants, _⟩ := (kept.build text).sound e built
  rw [← config] at standard reads
  have literal (a : A) (member : .operand a ∈ e.root.postorder) : numeric a := by
    obtain ⟨x, rfl⟩ := kept.literal_eq_ofFloat standard reads root member
    exact (broadcasts.ofFloat x).1
  have fixed : ∀ entry ∈ e.constants.toList, numeric entry.2 := by
    rw [constants, vocabulary, words, constants_wordbook]
    exact List.forall_mem_cons.mpr ⟨(broadcasts.ofFloat _).1,
      List.forall_mem_singleton.mpr (broadcasts.ofFloat _).1⟩
  rw [vocabulary, words] at root
  have means := Wordbook.means_root lib.isExact_wordbook root
  refine ⟨means, (means.and_postorder fun s member => member).mono fun count s here => ?_⟩
  refine preserves_of_means broadcasts here.1 (fun a same => literal a (same ▸ here.2))
    fun label a _ found => ?_
  cases bound : bindings.lookup label with
  | some other =>
    rw [valueOf, bound] at found
    obtain rfl : other = a := Option.some.inj found
    exact given _ (Builder.mem_of_lookup bound)
  | none =>
    rw [valueOf, bound] at found
    exact fixed _ (Builder.mem_of_lookup found)

/-- Over a library that joins shapes, an evaluation of what a builder has built gives an array of
numbers or fails as evaluations do, unless it applies a word to operands that the word defies. It
fails with what the word that it applies fails with: from the outside where the word defies its
operands, and otherwise with the word and its operands where they have no common shape. -/
theorem builder_answers_or_defies {cacheSize maxDepth : Setting} {first b : Builder σ A}
    {text : String} {e : Expression σ A} (made : lib.builder cacheSize maxDepth = .ok first)
    (used : first.Used b) (built : (b.build text).1 = .ok e) (bindings : List (String × A))
    (given : ∀ entry ∈ bindings, numeric entry.2) (state : σ) :
    ((∃ value, ((e.evaluate bindings).run state).1 = .ok value ∧ numeric value) ∨
      (∃ cause, ((e.evaluate bindings).run state).1 = .error cause ∧ cause.stage = .evaluation) ∨
      ∃ word ∈ (lib.wordbook : Wordbook σ A).meanings, ∃ operands cause,
        e.Applies bindings state word operands ∧ lib.Defies word.2 operands cause) ∧
    ∀ word ∈ (lib.wordbook : Wordbook σ A).meanings, ∀ operands,
      e.Applies bindings state word operands →
        (∀ cause, lib.Defies word.2 operands cause →
          ((e.evaluate bindings).run state).1 = .error cause) ∧
        (Shape.joinAll? (operands.map lib.shape) = none →
          (∀ cause, ¬ lib.Defies word.2 operands cause) →
          ∃ shown told, ((e.evaluate bindings).run state).1 =
            .error (.refusedByLibrary word.1 shown told)) := by
  obtain ⟨means, preserves⟩ := preserves_root broadcasts made used built given
  constructor
  · cases came : (e.evaluate bindings).run state with
    | mk outcome last =>
      cases outcome with
      | ok value => exact .inl ⟨value, rfl, preserves.preserved came⟩
      | error cause =>
        refine .inr ?_
        obtain ⟨inner, reached, reaches, refuses⟩ :=
          Wordbook.exists_refuses means (congrArg Prod.fst came)
        cases refuses with
        | name same => exact .inl ⟨cause, rfl, same ▸ rfl⟩
        | word member reads acts ran failed =>
          have numbers := reaches.preserved preserves ran
          rcases (tame_meanings broadcasts _ member).ofWord reads numbers failed with
            ofWord | defies
          · exact .inl ⟨cause, rfl, Failure.stage_of_isOfWord ofWord⟩
          · exact .inr ⟨_, member, _, cause, ⟨_, _, _, _, reaches, acts, reads, ran⟩, defies⟩
        | branch member => cases member
  · intro word member operands applies
    obtain ⟨s, cs, reached, last, reaches, acts, reads, ran⟩ := id applies
    have numbers := Tree.Reaches.preserved reaches preserves ran
    refine ⟨fun cause defies => applies.fails (defies.give broadcasts numbers word.1),
      fun apart suits => ?_⟩
    obtain ⟨shown, told, failed⟩ :=
      (tame_meanings broadcasts word member).reported reads numbers apart suits word.1
    exact ⟨shown, told, applies.fails failed⟩

end

/- Grids without a common shape. -/

def selecting : Callable Seed Grid :=
  .function ⟨"where", .exactly 3, (Meaning.ternary Grid.library.choose).callback "where"⟩

def pair : Grid := ⟨[2], .flags [true, false]⟩

def triple : Grid := ⟨[3], .wholes [1, 2, 3]⟩

/-- Without a common shape a selection fails from the outside, and the largest of the same grids
fails as evaluations do. -/
theorem builder_answers_or_defies_apart :
    (∃ e, (Grid.seedBuilder.build "where(x, y, z)").1 = .ok e ∧
      ((e.evaluate [("x", pair), ("y", triple), ("z", triple)]).run .initial).1 =
        .error .unreadableValue) ∧
    ∃ e, (Grid.seedBuilder.build "max(x, y)").1 = .ok e ∧
      ∃ shown told, ((e.evaluate [("x", pair), ("y", triple)]).run .initial).1 =
        .error (.refusedByLibrary "max" shown told) := by
  have joined : "where" ++ Tree.parenthesized (", ".intercalate ["x", "y", "z"]) =
      "where(x, y, z)" := by decide +kernel
  have joinedToo : "max" ++ Tree.parenthesized (", ".intercalate ["x", "y"]) = "max(x, y)" := by
    decide +kernel
  obtain ⟨e, built, root⟩ := Grid.exists_build_calling "where" selecting ["x", "y", "z"] rfl rfl
    rfl (by decide) (by decide) (by decide) ⟨_, rfl⟩
  obtain ⟨f, builtToo, rootToo⟩ := Grid.exists_build_calling "max" Grid.largest ["x", "y"] rfl rfl
    trivial (by decide) (by decide) (by decide) ⟨_, rfl⟩
  rw [joined] at built
  rw [joinedToo] at builtToo
  have full : Grid.IsFull pair ∧ Grid.IsFull triple := ⟨rfl, rfl⟩
  have selects := (builder_answers_or_defies Grid.broadcasts_library Grid.made_seedBuilder .new
    built [("x", pair), ("y", triple), ("z", triple)] (by simp [full]) .initial).2
    ("where", .ternary Grid.library.choose) (by simp [Wordbook.meanings, wordbook, functions])
    [pair, triple, triple]
  have compares := (builder_answers_or_defies Grid.broadcasts_library Grid.made_seedBuilder .new
    builtToo [("x", pair), ("y", triple)] (by simp [full]) .initial).2
    ("max", .aggregate (Grid.library.aggregate .max))
    (by simp [Wordbook.meanings, wordbook, functions]) [pair, triple]
  let named (name : String) : Tree (Symbol Seed Grid) := .node (.variable name) []
  refine ⟨⟨e, built, (selects ?_).1 _ (.selection rfl)⟩,
    f, builtToo, (compares ?_).2 rfl fun cause defies => ?_⟩
  · refine ⟨.call selecting, [named "x", named "y", named "z"], .initial, .initial, ?_,
      .function rfl, rfl, rfl⟩
    rw [Expression.Reaches, root]
    exact .here
  · refine ⟨.call (Grid.largest.settledAt 2), [named "x", named "y"], .initial, .initial, ?_,
      .function rfl, trivial, rfl⟩
    rw [Expression.Reaches, rootToo]
    exact .here
  · obtain ⟨fault, topples⟩ := defies.topples
    obtain ⟨shape, joined, _⟩ := topples.axes
    cases (show none = some shape from joined)

end InfixCalc.ArrayLibrary
