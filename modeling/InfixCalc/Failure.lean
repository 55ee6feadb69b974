import InfixCalc.Number.Integer
import InfixCalc.Setting

/-!
# Failures

Everything that can go wrong is a cause here, with what the cause is about. The wording stands in
one function, `Failure.message`, and `Failure.stage` says which step of the work a cause belongs
to.
-/

namespace InfixCalc

/-- The exceptional conditions of decimal arithmetic. -/
inductive Signal where
  | invalidOperation
  | conversionSyntax
  | divisionImpossible
  | divisionUndefined
  | divisionByZero
  | overflow
  deriving DecidableEq, Repr

def Signal.name : Signal → String
  | .invalidOperation => "InvalidOperation"
  | .conversionSyntax => "ConversionSyntax"
  | .divisionImpossible => "DivisionImpossible"
  | .divisionUndefined => "DivisionUndefined"
  | .divisionByZero => "DivisionByZero"
  | .overflow => "Overflow"

/-- Why an operation has no value for its operands. -/
inductive Reason where
  | domain
  | range
  | infinityAsInteger
  | undefinedAsInteger
  | infiniteDecimal
  | integerTooLarge
  | factorialTooLarge
  | modulusTooLarge
  | powerTooLarge
  | endlessSeries
  | signal (condition : Signal)
  deriving DecidableEq, Repr

def Reason.message : Reason → String
  | .domain => "math domain error"
  | .range => "math range error"
  | .infinityAsInteger => "cannot convert float infinity to integer"
  | .undefinedAsInteger => "cannot convert float NaN to integer"
  | .infiniteDecimal => "cannot convert Infinity to integer"
  | .integerTooLarge => "int too large to convert to float"
  | .factorialTooLarge => "factorial() argument should not exceed 9223372036854775807"
  | .modulusTooLarge => "absolute value too large"
  | .powerTooLarge => "complex exponentiation"
  | .endlessSeries => "series does not come to rest"
  | .signal condition => "[<class 'decimal." ++ condition.name ++ "'>]"

/-- The steps from a text to a value. `outside` is for what a caller's own function raises. -/
inductive Stage where
  | lexing
  | parsing
  | assembly
  | evaluation
  | configuration
  | outside
  deriving DecidableEq, Repr

inductive Failure where
  | blankExpression
  | unexpectedCharacter (position : Nat) (found : Char)
  | undefinedSymbol (symbol : String)
  | unreadableOperand (text : String)
  | stalledPattern (position : Nat)
  | unmatchedParenthesis
  | misplacedComma
  | commaOutsideCall
  | missingOperandBefore (shown : String)
  | missingOperandAtEnd
  | missingParenthesisAfter (label : String)
  | misplacedPrefix (shown : String)
  | wrongArity (label : String) (expected actual : Nat)
  | tooDeep (limit : Nat)
  | malformedTree
  | unknownVariable (label : String)
  | unknownConstant (label : String)
  | choiceNotIndex (label shown : String)
  | choiceOutOfRange (label : String) (index : Int) (last : Nat)
  | selectorNotInteger (shown : String)
  | zeroDivisor (label : String)
  | divisionByZero
  | moduloByZero
  | noFactorial (shown : String)
  | notEvaluable (label shown : String) (reason : Reason)
  | refusedByLibrary (label shown text : String)
  | reservedLabel (label : String)
  | invalidLabel (label : String)
  | invalidFixity (label given : String)
  | invalidPrecedence (label : String) (given : Setting)
  | invalidFunctionArity (label : String) (given : Setting)
  | invalidBranchArity (label : String) (given : Setting)
  | labelOfBranch (label : String)
  | labelOfFunction (label : String)
  | notReserved (label : String)
  | conversionNotCallable
  | patternsNotSequence
  | noOperandPattern
  | invalidPattern (pattern fault : String)
  | patternMatchesEmpty (pattern : String)
  | invalidMaxDepth (given : Setting)
  | invalidCacheSize (given : Setting)
  | reservedName (name : String)
  | unsuitedOperand
  | unreadableValue
  | unhandled (reason : Reason)
  | missingParameter
  | unknownFixity
  | raised (text : String)

namespace Failure

/-- The failure of which an integer is part. To tell of it the integer is written out; where it
cannot be, that fails instead. -/
def writing (n : Int) (cause : Failure) : Failure :=
  if Number.isWritable n then cause else .unreadableValue

/-- The failure that shows a setting. -/
def showing (given : Setting) (cause : Failure) : Failure :=
  match given with
  | .whole n => writing n cause
  | _ => cause

def stage : Failure → Stage
  | .blankExpression | .unexpectedCharacter .. | .undefinedSymbol _ | .unreadableOperand _
  | .stalledPattern _ => .lexing
  | .unmatchedParenthesis | .misplacedComma | .commaOutsideCall | .missingOperandBefore _
  | .missingOperandAtEnd | .missingParenthesisAfter _ | .misplacedPrefix _ | .wrongArity ..
  | .tooDeep _ => .parsing
  | .malformedTree => .assembly
  | .unknownVariable _ | .unknownConstant _ | .choiceNotIndex .. | .choiceOutOfRange ..
  | .selectorNotInteger _ | .zeroDivisor _ | .divisionByZero | .moduloByZero | .noFactorial _
  | .notEvaluable .. | .refusedByLibrary .. => .evaluation
  | .reservedLabel _ | .invalidLabel _ | .invalidFixity .. | .invalidPrecedence ..
  | .invalidFunctionArity .. | .invalidBranchArity .. | .labelOfBranch _ | .labelOfFunction _
  | .notReserved _ | .conversionNotCallable | .patternsNotSequence | .noOperandPattern
  | .invalidPattern .. | .patternMatchesEmpty _ | .invalidMaxDepth _ | .invalidCacheSize _
  | .reservedName _ => .configuration
  | .unsuitedOperand | .unreadableValue | .unhandled _ | .missingParameter
  | .unknownFixity | .raised _ => .outside

def message : Failure → String
  | .blankExpression => "Invalid expression: expression is blank"
  | .unexpectedCharacter position found =>
    s!"Unexpected character at position {position}: {found}"
  | .undefinedSymbol symbol => s!"Undefined symbol: {symbol}"
  | .unreadableOperand text => s!"Invalid operand: {text}"
  | .stalledPattern position => s!"Pattern matches nothing at position {position}"
  | .unmatchedParenthesis => "Unmatched number of parenthesis"
  | .misplacedComma => "Invalid expression: misplaced comma"
  | .commaOutsideCall => "Invalid expression: comma outside of a function call"
  | .missingOperandBefore shown => s!"Invalid expression: missing operand before {shown}"
  | .missingOperandAtEnd => "Invalid expression: missing operand at end of expression"
  | .missingParenthesisAfter label => s!"Missing open parenthesis for function: {label}"
  | .misplacedPrefix shown => s!"Invalid expression: unexpected prefix operator {shown}"
  | .wrongArity label expected actual =>
    s!"Incorrect number of parameters for {label}: expected {expected}, got {actual}"
  | .tooDeep limit => s!"Expression nests deeper than {limit} levels"
  | .malformedTree => "Invalid expression"
  | .unknownVariable label => s!"Variable not found: {label}"
  | .unknownConstant label => s!"Constant not found: {label}"
  | .choiceNotIndex label shown => s!"Branch {label} chose a non-integer index: {shown}"
  | .choiceOutOfRange label index last =>
    s!"Branch {label} chose index {index}, expected 1 to {last}"
  | .selectorNotInteger shown => s!"Switch selector must be an integer: {shown}"
  | .zeroDivisor label => s!"Division by zero in {label}"
  | .divisionByZero => "Division by zero"
  | .moduloByZero => "Modulo by zero"
  | .noFactorial shown => s!"Cannot calculate factorial of {shown}"
  | .notEvaluable label shown reason => s!"Cannot evaluate {label}({shown}): {reason.message}"
  | .refusedByLibrary label shown text => s!"Cannot evaluate {label}({shown}): {text}"
  | .reservedLabel label => s!"Cannot use reserved label: {label}"
  | .invalidLabel label => s!"Invalid label: {Text.quoted label}"
  | .invalidFixity label given => s!"Invalid fixity for operator {label}: {Text.quoted given}"
  | .invalidPrecedence label given =>
    s!"Invalid precedence for operator {label}: {given.shown}"
  | .invalidFunctionArity label given =>
    s!"Invalid number of parameters for function {label}: {given.shown}"
  | .invalidBranchArity label given =>
    s!"Invalid number of parameters for branch {label}: {given.shown}"
  | .labelOfBranch label => s!"Label already used by a branch: {label}"
  | .labelOfFunction label => s!"Label already used by a function: {label}"
  | .notReserved label => s!"Not a reserved label: {label}"
  | .conversionNotCallable => "Operand conversion callbacks must be callable"
  | .patternsNotSequence => "Operand patterns must be a sequence of patterns, not a string"
  | .noOperandPattern => "At least one operand pattern is required"
  | .invalidPattern pattern fault => s!"Invalid pattern {Text.quoted pattern}: {fault}"
  | .patternMatchesEmpty pattern => s!"Pattern {Text.quoted pattern} matches the empty string"
  | .invalidMaxDepth given => s!"Invalid maximum depth: {given.shown}"
  | .invalidCacheSize given => s!"Invalid cache size: {given.shown}"
  | .reservedName name => s!"Cannot use reserved name: {name}"
  | .unsuitedOperand => "unsuited operand"
  | .unreadableValue => "unreadable value"
  | .unhandled reason => reason.message
  | .missingParameter => "missing parameter"
  | .unknownFixity => "unknown fixity"
  | .raised text => text

end Failure

/-- The text of an integer, unless it has more digits than are written out. -/
def Number.written (n : Int) : Except Failure String :=
  if isWritable n then .ok (toString n) else .error .unreadableValue

end InfixCalc
