import InfixCalc.Calculator.Basic

/-!
# Talking to the calculator

The program reads lines and answers each with text until it is told to quit or the input ends. What
is wrong with a line is said, and the next line is answered. On the command line the program
evaluates its arguments instead and stops at the first failure.
-/

namespace InfixCalc.Calculator

inductive Command where
  | nothing
  | quit
  | help
  | stored
  | history
  | clear
  | input (text : String)
  deriving DecidableEq, Repr

def Command.ofLine (line : String) : Command :=
  let chars := Text.trim line.toList
  if chars.isEmpty then .nothing
  else
    match Binary64.lowerCase chars with
    | "quit" => .quit
    | "help" => .help
    | "vars" => .stored
    | "history" => .history
    | "clear" => .clear
    | _ => .input (String.ofList chars)

def lines (texts : List String) : String := String.join (texts.map (· ++ "\n"))

def sortedLabels (labels : List String) : List String :=
  labels.eraseDups.mergeSort fun a b => decide (a ≤ b)

def labelLine (labels : List String) : String := "  " ++ "  ".intercalate (sortedLabels labels)

def helpText (c : Calculator) : String :=
  let v := c.builder.vocabulary
  let constants := v.constants.toList.mergeSort fun a b => decide (a.1 ≤ b.1)
  lines <|
    ["", "Available operators:", labelLine (v.operators.map (·.label)),
      "", "Available functions:", labelLine v.functions.labels,
      "", "Available branches:", labelLine v.branches.labels,
      "", "Available constants:"] ++
    constants.map (fun (label, value) => "  " ++ label ++ " = " ++ Binary64.text value) ++ [""]

def rule : String := String.ofList (List.replicate 60 '=')

def banner : String := lines
  [ rule,
    "ADVANCED SCIENTIFIC CALCULATOR",
    rule,
    "",
    "Features:",
    "  • Basic: +, -, *, /, ^, %, !",
    "  • Comparisons: <, >, <=, >=, ==, !=",
    "  • Functions: sin, cos, tan, ln, log(base, x), sqrt, max, etc.",
    "  • Branches: if(cond, a, b), switch(i, a1, a2, ...)",
    "  • Constants: pi, e",
    "  • Variables: x = value to store, 'ans' for last result",
    "  • Examples: 2^10, sin(pi/2), 5x, log(2, 1024), 5!",
    "",
    "Commands:",
    "  help     - Show this help",
    "  vars     - Show stored variables",
    "  history  - Show calculation history",
    "  clear    - Clear history and variables",
    "  quit     - Exit calculator",
    rule,
    "" ]

def prompt : String := "calc> "

def variableText (c : Calculator) : String :=
  if c.stored.toList.isEmpty then lines ["No variables stored", ""]
  else lines (["", "Stored variables:"] ++
    c.stored.toList.map (fun (name, value) => "  " ++ name ++ " = " ++ Real.formatResult value) ++
    [""])

def historyText (c : Calculator) : String :=
  if c.history.isEmpty then lines ["No history yet", ""]
  else lines (["", "Recent calculations:"] ++ c.showHistory recentCount ++ [""])

def errorText (cause : Failure) : String := lines ["Error: " ++ cause.message, ""]

/-- How things stand once a line is answered: the calculator waits for another one, the user has
quit, or a failure that is not reported has ended the program. -/
inductive Next where
  | waits (c : Calculator)
  | done
  | broken (cause : Failure)

/-- Whether a failure is reported, so that the next line can be answered. What does not come from
the work on an expression is not. -/
def isReported (cause : Failure) : Bool := cause.stage != .outside

def answerInput (c : Calculator) (text : String) : Except Failure String × Calculator :=
  match c.assign text with
  | (.error cause, c) => (.error cause, c)
  | (.ok (some (name, value)), c) =>
    (.ok (lines [name ++ " = " ++ Real.formatResult value, ""]), c)
  | (.ok none, c) =>
    match c.evaluate text with
    | (.error cause, c) => (.error cause, c)
    | (.ok value, c) => (.ok (lines ["= " ++ Real.formatResult value, ""]), c)

def answer (c : Calculator) (line : String) : String × Next :=
  match Command.ofLine line with
  | .nothing => ("", .waits c)
  | .quit => (lines ["Goodbye!"], .done)
  | .help => (c.helpText, .waits c)
  | .stored => (c.variableText, .waits c)
  | .history => (c.historyText, .waits c)
  | .clear => (lines ["Cleared history and variables", ""], .waits c.clearAll)
  | .input text =>
    match c.answerInput text with
    | (.ok reply, c) => (reply, .waits c)
    | (.error cause, c) =>
      if isReported cause then (errorText cause, .waits c) else ("", .broken cause)

def farewell : String := lines ["", "Goodbye!"]

/-- Everything that is said in answer to lines of input, prompts included, and the failure that
ends it early, if there is one. -/
def conversation (c : Calculator) : List String → String × Option Failure
  | [] => (prompt ++ farewell, none)
  | line :: rest =>
    match c.answer line with
    | (reply, .waits c) =>
      let (later, failed) := conversation c rest
      (prompt ++ reply ++ later, failed)
    | (reply, .done) => (prompt ++ reply, none)
    | (reply, .broken cause) => (prompt ++ reply, some cause)

def transcript (c : Calculator) (texts : List String) : String := (c.conversation texts).1

def inputLines (text : String) : List String :=
  match (text.splitOn "\n").reverse with
  | "" :: rest => rest.reverse
  | rest => rest.reverse

/-- What evaluating arguments one after another prints, and the failure that stops it. -/
def evaluateAll (c : Calculator) : List String → String × Option Failure
  | [] => ("", none)
  | text :: rest =>
    match c.evaluate text with
    | (.error cause, _) => ("", some cause)
    | (.ok value, c) =>
      let (output, failed) := evaluateAll c rest
      (lines [Real.formatResult value] ++ output, failed)

end InfixCalc.Calculator
