import InfixCalc.Grid.Library
import InfixCalc.Proofs.Arrays.Builder

/-!
# A builder over grids

A builder over grids whose random numbers come from a seed, and calls of names that it builds.
-/

namespace InfixCalc.Grid

open InfixCalc.Number InfixCalc.ArrayLibrary

def seedBuilder : Builder Seed Grid where
  config := ⟨fun text => (Binary64.read text).map ofFloat, library.format,
    fun g => .ok (Shown.text g),
    [⟨"\\d+(?:\\.\\d+)?[eE][-+]?\\d+", Pattern.scientific.matcher⟩,
      ⟨"\\d*\\.?\\d+", Pattern.number.matcher⟩],
    ⟨defaultVariablePattern, Pattern.name.matcher⟩, some 128⟩
  vocabulary := library.wordbook.vocabulary
  cache := none
  cacheVersion := (library.wordbook : Wordbook Seed Grid).vocabulary.version
  labels := none
  nextStamp := 0

theorem made_seedBuilder :
    (library.builder .absent (.whole 128) : Except Failure (Builder Seed Grid)) =
      .ok seedBuilder := rfl

theorem consistent_seedBuilder : seedBuilder.Consistent := (builder_eq_ok made_seedBuilder).1

theorem standard_seedBuilder : seedBuilder.config.IsStandard :=
  (builder_eq_ok made_seedBuilder).2.2.1

theorem ready_seedBuilder : (Scanner.make seedBuilder.vocabulary seedBuilder.config).Ready :=
  ⟨standard_seedBuilder, rfl, consistent_seedBuilder.regular⟩

theorem yields_name {name : String} (among : name ∈ ["x", "y", "z"]) :
    (Scanner.make seedBuilder.vocabulary seedBuilder.config).Yields name (.name name) := by
  have apart : ∀ label ∈ operatorSpellings.map (·.1) ++ callSpellings, ∀ name ∈ ["x", "y", "z"],
      label.toList.isPrefixOf name.toList = false := by decide
  have whole : ∀ name ∈ ["x", "y", "z"],
      Pattern.name.split? name.toList = some (name.toList, []) := by decide
  exact ready_seedBuilder.yields_name
    (fun label member => apart label (Wordbook.WellSpelled.mem_labels member) name among)
    (whole name among)

def largest : Callable Seed Grid :=
  .function ⟨"max", .variable, (Meaning.aggregate (library.aggregate .max)).callback "max"⟩

/-- A call of names is built. -/
theorem exists_build_calling (label : String) (callable : Callable Seed Grid) (names : List String)
    (called : seedBuilder.vocabulary.callable? label = some callable)
    (noSign : Scanner.beginsLikeSign label = false) (takes : callable.Takes names.length)
    (among : ∀ name ∈ names, name ∈ ["x", "y", "z"])
    (shallow : nesting (Phrase.calling callable names).tokens ≤ 128)
    (low : (Phrase.calling callable names).tree.height ≤ 128)
    (prints : ∃ written,
      (Phrase.calling callable names).tree.written library.format = .ok written) :
    ∃ e, (seedBuilder.build (label ++ Tree.parenthesized (", ".intercalate names))).1 = .ok e ∧
      e.root = (Phrase.calling callable names).tree :=
  consistent_seedBuilder.exists_build_calling standard_seedBuilder called noSign takes
    (fun name member => yields_name (among name member)) ((within_some _ _).mpr shallow)
    ((within_some _ _).mpr low) prints

end InfixCalc.Grid
