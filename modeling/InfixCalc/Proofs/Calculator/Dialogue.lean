import InfixCalc.Calculator.Dialogue
import InfixCalc.Proofs.Answers
import InfixCalc.Proofs.Calculator.Kept
import InfixCalc.Proofs.Real.Quoted

/-!
# What is said in a conversation

Whatever lines are typed, the program answers each of them and ends when it is told to or when there
are no more lines. What is wrong with a line is said in one line, and no failure ends the program.
-/

namespace InfixCalc

open InfixCalc.Number

variable {σ α : Type}

/-- A failure that is reported in one line, and no pattern that keeps the scanner in place for
ever. -/
structure Failure.IsRefusal (cause : Failure) : Prop where
  reported : Calculator.isReported cause = true
  oneLine : OneLine cause.message
  ends : ∀ position, cause ≠ .stalledPattern position

theorem Failure.InLine.isRefusal {cause : Failure} (inLine : cause.InLine)
    (inside : cause.stage ≠ .outside) (ends : ∀ position, cause ≠ .stalledPattern position) :
    cause.IsRefusal :=
  ⟨bne_iff_ne.mpr inside, inLine.oneLine_message, ends⟩

theorem Failure.InLine.isRefusal_of_stage {cause : Failure} (inLine : cause.InLine)
    (inside : cause.stage ≠ .outside) (other : cause.stage ≠ .lexing) : cause.IsRefusal :=
  inLine.isRefusal inside fun _ same => other (by rw [same]; rfl)

/-- A builder with the default patterns that can print and show all values builds any text or
refuses it. -/
theorem Builder.Consistent.isRefusal_of_build {b : Builder σ α} (consistent : b.Consistent)
    (standard : b.config.IsStandard) (writable : b.vocabulary.Writable)
    (prints : ∀ value, ∃ text, b.config.print value = .ok text)
    (shows : ∀ value, ∃ text, b.config.display value = .ok text)
    {text : String} {cause : Failure} (failed : (b.build text).1 = .error cause) :
    cause.IsRefusal := by
  have ready : (Scanner.make b.vocabulary b.config).Ready := ⟨standard, rfl, consistent.regular⟩
  rcases ready.root_cases b.config.maxDepth text with ⟨t, read, _⟩ | ⟨other, refused, why⟩
  · obtain ⟨e, built, _⟩ := (consistent.build text).complete t read
      (Tree.exists_written fun value _ => prints value)
    cases built.symm.trans failed
  · cases (consistent.build_error refused).symm.trans failed
    have inLine : cause.InLine := by
      refine ready.inLine_of_root (fun value cause failed => ?_) refused
      obtain ⟨shown, displayed⟩ := shows value
      cases displayed.symm.trans failed
    rcases why.resolve_right (Scanner.not_unshown writable shows) with lexical | parsing
    · exact inLine.isRefusal (by rw [lexical.1]; decide) lexical.2
    · exact inLine.isRefusal_of_stage (by rw [parsing]; decide) (by rw [parsing]; decide)

namespace Calculator

theorem oneLine_of_isNamePart {name : List Char} (part : ∀ c ∈ name, isNamePart c = true) :
    OneLine (String.ofList name) := by
  refine oneLine_of_all (List.all_eq_true.mpr fun c member => bne_iff_ne.mpr ?_)
  rintro rfl
  cases part _ member

/-- An assignment names a variable in one line. -/
theorem oneLine_name {line : String} {assignment : Assignment}
    (given : Assignment.ofLine? line = some assignment) : OneLine assignment.name := by
  unfold Assignment.ofLine? at given
  split at given
  · cases given
  · rename_i c rest _
    split at given
    · rename_i starts
      have part : ∀ d ∈ c :: rest.takeWhile isNamePart, isNamePart d = true := by
        refine List.forall_mem_cons.mpr ⟨?_, fun d member => List.mem_takeWhile_imp member⟩
        rw [isNamePart, show c.isAlpha = true from starts, Bool.true_or]
      simp only at given
      split at given
      · cases given
      · obtain ⟨source, _, rfl⟩ := Option.map_eq_some_iff.mp given
        exact oneLine_of_isNamePart part
      · cases given
    · cases given

/-- What goes wrong is reported, and in one line if the name to be stored is one. -/
structure Reports (c : Calculator) : Prop where
  evaluate : ∀ text cause, (c.evaluate text).1 = .error cause → cause.IsRefusal
  assign : ∀ line cause, (c.assign line).1 = .error cause → cause.IsRefusal
  setVariable : ∀ name value cause, (c.setVariable name value).1 = .error cause →
    isReported cause = true ∧ (OneLine name → cause.IsRefusal)

/-- What is printed for a line that is no command: what has been stored, or a value. -/
inductive Prints (c : Calculator) (text : String) : String → Calculator → Prop where
  | stored {name : String} {value : Float} {next : Calculator} :
      c.assign text = (.ok (some (name, value)), next) →
        Prints c text (lines [name ++ " = " ++ Real.formatResult value, ""]) next
  | value {value : Float} {next : Calculator} :
      c.assign text = (.ok none, c) → c.evaluate text = (.ok value, next) →
        Prints c text (lines ["= " ++ Real.formatResult value, ""]) next

/-- How a line that is no command fails: as an assignment, or as an expression if it is none. -/
inductive Fails (c : Calculator) (text : String) (cause : Failure) : Calculator → Prop where
  | assignment {next : Calculator} : c.assign text = (.error cause, next) → Fails c text cause next
  | expression {next : Calculator} :
      c.assign text = (.ok none, c) → c.evaluate text = (.error cause, next) →
        Fails c text cause next

/-- What is said in answer to a command, and the calculator that waits for the next line. -/
inductive Says (c : Calculator) : Command → String → Calculator → Prop where
  | nothing : Says c .nothing "" c
  | help : Says c .help c.helpText c
  | stored : Says c .stored c.variableText c
  | history : Says c .history c.historyText c
  | clear : Says c .clear (lines ["Cleared history and variables", ""]) c.clearAll
  | printed {text reply : String} {next : Calculator} :
      Prints c text reply next → Says c (.input text) reply next
  | refused {text : String} {cause : Failure} {next : Calculator} :
      Fails c text cause next → cause.IsRefusal →
        Says c (.input text) (lines ["Error: " ++ cause.message, ""]) next

/-- What is said in answer to lines, one after another, when nothing goes wrong with the program. -/
inductive Talks : Calculator → List String → String → Prop where
  | ended {c : Calculator} : Talks c [] (prompt ++ farewell)
  | quit {c : Calculator} {line : String} {rest : List String} :
      Command.ofLine line = .quit → Talks c (line :: rest) (prompt ++ lines ["Goodbye!"])
  | said {c next : Calculator} {line reply later : String} {rest : List String} :
      Says c (Command.ofLine line) reply next → Talks next rest later →
        Talks c (line :: rest) (prompt ++ reply ++ later)

theorem assign_none {c next : Calculator} {text : String}
    (none_ : c.assign text = (.ok none, next)) : next = c := by
  have assigns := assigns_assign c text
  rw [none_] at assigns
  cases assigns
  rfl

theorem answerInput_cases (c : Calculator) (text : String) :
    (∃ reply next, c.answerInput text = (.ok reply, next) ∧ Prints c text reply next) ∨
      ∃ cause next, c.answerInput text = (.error cause, next) ∧ Fails c text cause next := by
  unfold answerInput
  split
  · rename_i cause next assigned
    exact .inr ⟨cause, next, rfl, .assignment assigned⟩
  · rename_i name value next assigned
    exact .inl ⟨_, next, rfl, .stored assigned⟩
  · rename_i next assigned
    obtain rfl := assign_none assigned
    split
    · rename_i cause last evaluated
      exact .inr ⟨cause, last, rfl, .expression assigned evaluated⟩
    · rename_i value last evaluated
      exact .inl ⟨_, last, rfl, .value assigned evaluated⟩

namespace Kept

variable {first : Builder Seed Float} {c next : Calculator} (kept : Kept first c)
include kept

section Real

variable {cacheSize maxDepth : Setting} (made : Real.builder cacheSize maxDepth = .ok first)
include made

theorem isRefusal_of_evaluate {text : String} {cause : Failure}
    (failed : (c.evaluate text).1 = .error cause) : cause.IsRefusal := by
  obtain ⟨consistent, words, standard, _, print, display⟩ := Real.builder_eq_ok made
  obtain ⟨consistentNow, config, vocabulary⟩ := kept.used.kept consistent
  have prints : ∀ x, ∃ shown, first.config.print x = .ok shown :=
    fun x => ⟨Real.format x, by rw [print]⟩
  have shows : ∀ x, ∃ shown, first.config.display x = .ok shown :=
    fun x => ⟨Shown.text x, by rw [display]⟩
  have writable : c.builder.vocabulary.Writable :=
    vocabulary ▸ words ▸ Real.writable_wordbook
  have refused (other : Failure) (failed : (c.builder.build text).1 = .error other) :
      other.IsRefusal :=
    consistentNow.isRefusal_of_build (config ▸ standard) writable (config ▸ prints)
      (config ▸ shows) failed
  have shown := exists_shown kept.used consistent prints text
  have answers (e : Expression Seed Float) (built : (c.builder.build text).1 = .ok e) : e.Answers :=
    consistent.answers (words ▸ Real.orderly_wordbook.vocabulary) kept.used built
  have inLine (e : Expression Seed Float) (built : (c.builder.build text).1 = .ok e) bindings state
      other (failed : ((e.evaluate bindings).run state).1 = .error other) : other.InLine :=
    consistentNow.inLine_of_evaluate (config ▸ standard) (vocabulary.trans words)
      Real.inLine_wordbook Real.wellSpelled_wordbook Real.isExact_wordbook built failed
  unfold evaluate at failed
  generalize c.builder.build text = build at failed refused shown answers inLine
  obtain ⟨built, builder⟩ := build
  cases built with
  | error other =>
    cases failed
    exact refused _ rfl
  | ok e =>
    obtain ⟨line, written⟩ := shown e rfl
    simp only [written] at failed
    have came := answers e rfl (bindings { c with builder := builder }) c.seed
    have said := inLine e rfl (bindings { c with builder := builder }) c.seed
    generalize (e.evaluate (bindings { c with builder := builder })).run c.seed = run
      at failed came said
    obtain ⟨outcome, seed⟩ := run
    cases outcome with
    | ok value => cases failed
    | error other =>
      cases failed
      rcases came with ⟨value, never⟩ | ⟨_, same, stage⟩
      · cases never
      · cases same
        exact (said _ rfl).isRefusal_of_stage (by rw [stage]; decide) (by rw [stage]; decide)

theorem reservedName_of_setVariable {name : String} {value : Float} {cause : Failure}
    (failed : (c.setVariable name value).1 = .error cause) : cause = .reservedName name := by
  have consistent := (Real.builder_eq_ok made).1
  obtain ⟨stores, _⟩ := setVariable_spec kept.used (kept.used.kept consistent).1 name value
  rw [failed] at stores
  cases stores
  rfl

theorem isRefusal_of_setVariable {name : String} (oneLine : OneLine name) {value : Float}
    {cause : Failure} (failed : (c.setVariable name value).1 = .error cause) :
    cause.IsRefusal := by
  cases kept.reservedName_of_setVariable made failed
  have inLine : Failure.InLine (.reservedName name) := List.forall_mem_singleton.mpr oneLine
  exact inLine.isRefusal_of_stage Stage.noConfusion Stage.noConfusion

theorem serve_real (request : Request) : Kept first (c.serve request) := by
  obtain ⟨consistent, _, _, _, print, _⟩ := Real.builder_eq_ok made
  exact kept.serve consistent (fun x => ⟨Real.format x, by rw [print]⟩) request

theorem of_evaluate {text : String} {outcome : Except Failure Float}
    (ran : c.evaluate text = (outcome, next)) : Kept first next := by
  have later : Kept first (c.evaluate text).2 := kept.serve_real made (.evaluate text)
  rwa [ran] at later

theorem of_assign {text : String} {outcome : Except Failure (Option (String × Float))}
    (ran : c.assign text = (outcome, next)) : Kept first next := by
  have later : Kept first (c.assign text).2 := kept.serve_real made (.assign text)
  rwa [ran] at later

theorem isRefusal_of_assign {line : String} {cause : Failure}
    (failed : (c.assign line).1 = .error cause) : cause.IsRefusal := by
  have assigns := assigns_assign c line
  generalize c.assign line = assigned at assigns failed
  obtain ⟨outcome, next⟩ := assigned
  cases failed
  cases assigns with
  | failed _ came => exact kept.isRefusal_of_evaluate made (congrArg Prod.fst came)
  | refused given came storing =>
    exact (kept.of_evaluate made came).isRefusal_of_setVariable made (oneLine_name given)
      (congrArg Prod.fst storing)

theorem reports : c.Reports where
  evaluate _ _ := kept.isRefusal_of_evaluate made
  assign _ _ := kept.isRefusal_of_assign made
  setVariable name _ cause failed := by
    refine ⟨?_, fun oneLine => kept.isRefusal_of_setVariable made oneLine failed⟩
    rw [kept.reservedName_of_setVariable made failed]
    rfl

theorem of_prints {text reply : String} (prints : Prints c text reply next) : Kept first next := by
  cases prints with
  | stored assigned => exact kept.of_assign made assigned
  | value _ evaluated => exact kept.of_evaluate made evaluated

theorem of_fails {text : String} {cause : Failure} (fails : Fails c text cause next) :
    Kept first next ∧ cause.IsRefusal := by
  cases fails with
  | assignment failed =>
    exact ⟨kept.of_assign made failed, kept.isRefusal_of_assign made (congrArg Prod.fst failed)⟩
  | expression _ failed =>
    exact ⟨kept.of_evaluate made failed,
      kept.isRefusal_of_evaluate made (congrArg Prod.fst failed)⟩

/-- A line is answered as it should be, and the calculator goes on unless it is told to quit. -/
theorem answer_cases (line : String) :
    Command.ofLine line = .quit ∧ c.answer line = (lines ["Goodbye!"], .done) ∨
      ∃ reply next, c.answer line = (reply, .waits next) ∧ Says c (Command.ofLine line) reply next ∧
        Kept first next := by
  unfold answer
  cases Command.ofLine line with
  | quit => exact .inl ⟨rfl, rfl⟩
  | nothing => exact .inr ⟨_, c, rfl, .nothing, kept⟩
  | help => exact .inr ⟨_, c, rfl, .help, kept⟩
  | stored => exact .inr ⟨_, c, rfl, .stored, kept⟩
  | history => exact .inr ⟨_, c, rfl, .history, kept⟩
  | clear => exact .inr ⟨_, c.clearAll, rfl, .clear, kept.serve_real made .clearAll⟩
  | input text =>
    refine .inr ?_
    rcases answerInput_cases c text with ⟨reply, next, answered, prints⟩ |
      ⟨cause, next, answered, fails⟩
    · exact ⟨reply, next, by simp only [answered], .printed prints, kept.of_prints made prints⟩
    · obtain ⟨later, isRefusal⟩ := kept.of_fails made fails
      exact ⟨errorText cause, next, by simp only [answered, isRefusal.reported, if_true],
        .refused fails isRefusal, later⟩

theorem conversation_talks (texts : List String) :
    ∃ said, c.conversation texts = (said, none) ∧ Talks c texts said := by
  induction texts generalizing c with
  | nil => exact ⟨_, rfl, .ended⟩
  | cons line rest ih =>
    rw [conversation]
    rcases kept.answer_cases made line with ⟨quits, answered⟩ | ⟨reply, next, answered, told, later⟩
    · rw [answered]
      exact ⟨_, rfl, .quit quits⟩
    · obtain ⟨said, came, talks⟩ := ih later
      rw [answered]
      simp only [came]
      exact ⟨_, rfl, .said told talks⟩

end Real
end Kept

/-- The calculator is there, and whatever lines are typed, each is answered in its turn, what is
refused in one line, and no failure ends the program. After all requests what goes wrong is
reported. -/
theorem conversation_ends_well :
    ∃ first, freshBuilder = .ok first ∧
      (∀ texts, ∃ said, (ofBuilder first).conversation texts = (said, none) ∧
        Talks (ofBuilder first) texts said) ∧
      ∀ requests, ((ofBuilder first).serveAll requests).Reports := by
  obtain ⟨consistent, _, _, _, print, _⟩ := Real.builder_eq_ok made_cachingBuilder
  have start : Kept cachingBuilder (ofBuilder cachingBuilder) :=
    ⟨.new, rfl, fun _ _ never => nomatch never⟩
  refine ⟨cachingBuilder, made_cachingBuilder,
    start.conversation_talks made_cachingBuilder, fun requests => ?_⟩
  have kept := start.serveAll consistent (fun x => ⟨Real.format x, by rw [print]⟩) requests
  exact kept.reports made_cachingBuilder

end Calculator
end InfixCalc
