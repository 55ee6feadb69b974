import InfixCalc.Failure

/-!
# Messages of failures

A message is a fixed text with numbers and with what the failure is about. It stays in one line if
the texts that it quotes do.
-/

namespace InfixCalc

/-- The text has no line break. -/
def OneLine (text : String) : Prop := '\n' ∉ text.toList

theorem oneLine_append {first second : String} :
    OneLine (first ++ second) ↔ OneLine first ∧ OneLine second := by
  simp [OneLine]

theorem oneLine_ofList {text : List Char} : OneLine (String.ofList text) ↔ '\n' ∉ text := by
  rw [OneLine, String.toList_ofList]

theorem oneLine_of_all {text : List Char} (all : text.all (· != '\n') = true) :
    OneLine (String.ofList text) := by
  rw [oneLine_ofList]
  intro member
  exact bne_iff_ne.mp (List.all_eq_true.mp all _ member) rfl

theorem oneLine_repr (n : Nat) : OneLine n.repr := by
  intro member
  rw [Nat.toList_repr] at member
  cases Nat.isDigit_of_mem_toDigits (b := 10) (by decide) (by decide) member

theorem oneLine_toString_nat (n : Nat) : OneLine (toString n) := oneLine_repr n

theorem oneLine_toString_int (n : Int) : OneLine (toString n) := by
  cases n with
  | ofNat n => exact oneLine_repr n
  | negSucc n => exact oneLine_append.mpr ⟨oneLine_of_all rfl, oneLine_repr n.succ⟩

theorem oneLine_toString_text {text : String} : OneLine (toString text) ↔ OneLine text := Iff.rfl

theorem oneLine_intercalate {separator : String} (oneLine : OneLine separator)
    {texts : List String} (each : ∀ text ∈ texts, OneLine text) :
    OneLine (separator.intercalate texts) := by
  induction texts with
  | nil => exact oneLine_of_all rfl
  | cons text texts ih =>
    obtain ⟨first, later⟩ := List.forall_mem_cons.mp each
    cases texts with
    | nil =>
      rw [String.intercalate_singleton]
      exact first
    | cons next texts =>
      rw [String.intercalate_cons_cons]
      exact oneLine_append.mpr ⟨oneLine_append.mpr ⟨first, oneLine⟩, ih later⟩

theorem Signal.oneLine_name (condition : Signal) : OneLine condition.name := by
  cases condition
  all_goals
    dsimp only [Signal.name]
    exact oneLine_of_all rfl

theorem Reason.oneLine_message (reason : Reason) : OneLine reason.message := by
  cases reason
  all_goals dsimp only [Reason.message]
  case signal condition =>
    refine oneLine_append.mpr ⟨oneLine_append.mpr ⟨?_, condition.oneLine_name⟩, ?_⟩
    all_goals exact oneLine_of_all rfl
  all_goals exact oneLine_of_all rfl

/-- The texts that the message of a failure takes over. -/
def Failure.quoted : Failure → List String
  | .unexpectedCharacter _ found => [toString found]
  | .undefinedSymbol text | .unreadableOperand text | .missingOperandBefore text
  | .missingParenthesisAfter text | .misplacedPrefix text | .wrongArity text _ _
  | .unknownVariable text | .unknownConstant text | .choiceOutOfRange text _ _
  | .selectorNotInteger text | .zeroDivisor text | .noFactorial text | .reservedLabel text
  | .labelOfBranch text | .labelOfFunction text | .notReserved text | .reservedName text
  | .raised text => [text]
  | .choiceNotIndex label shown | .notEvaluable label shown _ => [label, shown]
  | .refusedByLibrary label shown text => [label, shown, text]
  | .invalidLabel text | .patternMatchesEmpty text => [Text.quoted text]
  | .invalidFixity label given => [label, Text.quoted given]
  | .invalidPrecedence label given | .invalidFunctionArity label given
  | .invalidBranchArity label given => [label, given.shown]
  | .invalidPattern pattern fault => [Text.quoted pattern, fault]
  | .invalidMaxDepth given | .invalidCacheSize given => [given.shown]
  | _ => []

/-- The message takes over no line break. -/
def Failure.InLine (cause : Failure) : Prop := ∀ text ∈ cause.quoted, OneLine text

theorem Failure.InLine.oneLine_message {cause : Failure} (each : cause.InLine) :
    OneLine cause.message := by
  cases cause
  all_goals
    dsimp only [InLine, quoted, message] at each ⊢
    simp only [List.forall_mem_cons, List.not_mem_nil, false_imp_iff, implies_true, and_true]
      at each
  all_goals
    try simp only [oneLine_append, oneLine_toString_nat, oneLine_toString_int,
      Reason.oneLine_message, oneLine_toString_text, each, and_true]
  -- only the fixed texts are left
  all_goals
    repeat' apply And.intro
    all_goals exact oneLine_of_all rfl

end InfixCalc
