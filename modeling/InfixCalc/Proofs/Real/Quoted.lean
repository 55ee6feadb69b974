import InfixCalc.Proofs.Binary64.Text
import InfixCalc.Proofs.Quoted
import InfixCalc.Proofs.Real.Orderly
import InfixCalc.Proofs.Real.Vocabulary
import InfixCalc.Proofs.Refusal

/-!
# What messages quote of real numbers

A double is shown in one line, so a message about doubles stays in one line.
-/

namespace InfixCalc

/- Texts of doubles. -/

theorem IsFixed.inWord {cs : List Char} (fixed : IsFixed cs) : ∀ c ∈ cs, breaksWord c = false := by
  intro c member
  rcases fixed.digit_or_point c member with digit | rfl
  · exact BeginsOperand.inWord (.inl (digit_contains digit))
  · rfl

theorem IsNumeral.inWord {cs : List Char} (numeral : IsNumeral cs) :
    ∀ c ∈ cs, breaksWord c = false := by
  cases numeral with
  | fixed fixed => exact fixed.inWord
  | @exponent cs es sign fixed signed run =>
    have sign : breaksWord sign = false := by
      rcases signed with rfl | rfl
      · rfl
      · rfl
    exact List.forall_mem_append.mpr ⟨fixed.inWord, List.forall_mem_cons.mpr
      ⟨rfl, List.forall_mem_cons.mpr ⟨sign, IsFixed.inWord (.whole run)⟩⟩⟩

namespace Binary64

theorem Layout.inWord_render (layout : Layout) (d : Digits) :
    ∀ c ∈ layout.render d, breaksWord c = false := by
  obtain ⟨least, most, keepsPoint⟩ := layout
  obtain ⟨numeral, same | ⟨run, fraction⟩⟩ := isNumeral_render least most d
  · cases keepsPoint with
    | false => exact numeral.inWord
    | true => exact same ▸ numeral.inWord
  · cases keepsPoint with
    | false => exact numeral.inWord
    | true =>
      rw [fraction]
      exact IsFixed.inWord (.point run (isRun_singleton rfl))

theorem Layout.oneLine_text (layout : Layout) (x : Float) : OneLine (layout.text x) := by
  unfold Layout.text
  split
  · exact oneLine_of_all rfl
  · split
    · exact oneLine_of_all rfl
    · exact oneLine_of_all rfl
  · rename_i negative significand exponent _
    have magnitude : ∀ c ∈ (if significand = 0
        then if layout.keepsPoint then ['0', '.', '0'] else ['0']
        else layout.render (shortest significand exponent)), breaksWord c = false := by
      have zero : IsRun ['0'] := isRun_singleton rfl
      split_ifs
      · exact IsFixed.inWord (.point zero zero)
      · exact IsFixed.inWord (.whole zero)
      · exact layout.inWord_render _
    refine oneLine_of_inWord ?_
    rw [String.toList_ofList]
    split
    · exact List.forall_mem_cons.mpr ⟨rfl, magnitude⟩
    · exact magnitude

end Binary64

namespace Real

open InfixCalc.Binary64 InfixCalc.Number

theorem oneLine_format (x : Float) : OneLine (format x) := by
  unfold format
  split
  · exact oneLine_of_all rfl
  · exact plain.oneLine_text x

/- Words. -/

theorem writable_wordbook {σ : Type} [RandomSource σ] :
    (wordbook : Wordbook σ Float).vocabulary.Writable :=
  Wordbook.writable_vocabulary (by simp [wordbook, functions, Arity.toInt])
    (by simp [wordbook, Arity.toInt])

variable (x y : Float)

@[simp] theorem inLine_divide : Outcome.InLine (divide x y) :=
  .ite (.failure (List.forall_mem_nil _)) (Outcome.IsPlain.ok _).inLine

@[simp] theorem inLine_modulo : Outcome.InLine (modulo x y) :=
  .ite (.failure (List.forall_mem_nil _)) (Outcome.IsPlain.ok _).inLine

@[simp] theorem inLine_factorial : Outcome.InLine (factorial x) := by
  have noFactorial : Failure.InLine (.noFactorial (format x)) :=
    List.forall_mem_singleton.mpr (oneLine_format x)
  unfold factorial factorialShown
  split
  · exact .ite (.failure noFactorial) (.ite (Outcome.IsPlain.unusable _).inLine
      (.ite (Outcome.IsPlain.unusable _).inLine (Outcome.IsPlain.ok _).inLine))
  · exact .failure noFactorial

theorem inLine_conditionChoice (x : Float) :
    (∀ cause, conditionChoice x = .error cause → cause.InLine) ∧
      ∀ selection, conditionChoice x = .ok selection → selection.InLine := by
  constructor
  · rintro _ ⟨⟩
  · rintro _ ⟨⟩
    exact trivial

theorem inLine_switchChoice (x : Float) :
    (∀ cause, switchChoice x = .error cause → cause.InLine) ∧
      ∀ selection, switchChoice x = .ok selection → selection.InLine := by
  unfold switchChoice
  split
  · constructor
    · rintro _ ⟨⟩
    · rintro _ ⟨⟩
      exact trivial
  · constructor
    · rintro _ ⟨⟩
      exact List.forall_mem_singleton.mpr (general.oneLine_text x)
    · rintro _ ⟨⟩

variable {σ : Type}

theorem inLine_operators : ∀ word ∈ (operators : List (String × Fixity × Nat × Meaning σ Float)),
    word.2.2.2.InLine := by
  have words : ∀ word ∈ wordFunctions, ∀ x, Outcome.InLine (word.2 x) :=
    fun word member x => (isPlain_wordFunctions word member x).inLine
  simp only [operators, List.forall_mem_append, List.forall_mem_map]
  refine ⟨⟨⟨?signs, ?comparisons⟩, ?arithmetic⟩, words⟩
  case signs => simp [Meaning.InLine]
  case comparisons => exact fun word _ x y => (Outcome.IsPlain.ok _).inLine
  case arithmetic => simp [Meaning.InLine]

variable [RandomSource σ]

theorem inLine_functions :
    ∀ word ∈ (functions : List (String × Arity × Meaning σ Float)), word.2.2.InLine := by
  simp [functions, Meaning.InLine]

/-- What a word over real numbers refuses is said in one line. -/
theorem inLine_wordbook : (wordbook : Wordbook σ Float).InLine where
  shown x := ⟨general.oneLine_text x, general.oneLine_text x⟩
  meanings := List.forall_mem_append.mpr ⟨List.forall_mem_map.mpr inLine_operators,
    List.forall_mem_map.mpr inLine_functions⟩
  branches := List.forall_mem_cons.mpr
    ⟨inLine_conditionChoice, List.forall_mem_singleton.mpr inLine_switchChoice⟩

end Real
end InfixCalc
