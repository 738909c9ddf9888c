import JoinPlan.Text.Measure
import JoinPlan.Text.Space
/-!
# Syntax errors

A syntax error is a trace of faults: the innermost one comes first, and after it one for each
construct that was being read around it. A fault is placed by what was left of the text.

Results:
* `SyntaxError.offset?_eq`: an error always has a position, that of its innermost fault.
-/
namespace JoinPlan

/-- What was wrong, or what was being read when something was wrong. -/
inductive Cause where
  | emptyPredicate
  | keyword
  | colon
  | unknownOperator
  | character
  | openConstraints
  | closeConstraints
  | malformedConstraints
  | openArguments
  | identifier
  | argumentComma
  | value
  | bareWord
  | numberRange
  | invalidNumber
  | closeArguments
  | trailingText
  | unreadText
  deriving DecidableEq, Repr

/-- mirrors the contexts and `describe_kind` -/
def Cause.message : Cause → String
  | .emptyPredicate => "Empty predicate"
  | .keyword => "Expected an operator keyword"
  | .colon => "Expected ':' after operator"
  | .unknownOperator => "Unknown predicate operator"
  | .character => "Unexpected character"
  | .openConstraints => "Expected '\x7b' to open constraint list"
  | .closeConstraints => "Expected ',' or '\x7d' in constraint list"
  | .malformedConstraints => "Malformed constraint list"
  | .openArguments => "Expected '[' to open comparison arguments"
  | .identifier => "Expected a quoted field identifier"
  | .argumentComma => "Expected ',' between identifier and value"
  | .value => "Expected a literal value"
  | .bareWord => "Bare words are not values; quote strings"
  | .numberRange => "Numeric literal out of range"
  | .invalidNumber => "Invalid numeric literal"
  | .closeArguments => "Expected ']' to close comparison arguments"
  | .trailingText => "Unexpected tokens after predicate"
  | .unreadText => "Unparsed input"

/-- A cause and what was left of the text there. -/
structure Fault where
  cause : Cause
  rest : List Char
  deriving DecidableEq, Repr

namespace Fault

/-- The first forty characters of what is left, less the blanks in front. The end has a name. -/
def excerpt (f : Fault) : List Char :=
  let shown := (Text.trimStart f.rest).take 40
  if shown.isEmpty then "<end of input>".toList else shown

/-- One line that says what was wrong and where.
mirrors one round of `fmt` of `PredicateParsingError` -/
def line (f : Fault) : List Char :=
  f.cause.message.toList ++ ": ".toList ++ f.excerpt ++ ['\n']

end Fault

/-- Why a text is no predicate: a first fault, and the constructs around it from the inside out.
mirrors `PredicateParsingError` -/
structure SyntaxError where
  innermost : Fault
  around : List Fault
  deriving DecidableEq, Repr

namespace SyntaxError

/-- mirrors `PredicateParsingError.new` -/
def single (cause : Cause) (rest : List Char) : SyntaxError :=
  ⟨⟨cause, rest⟩, []⟩

/-- The error as seen from a construct around it. mirrors `add_context` -/
def within (e : SyntaxError) (cause : Cause) (rest : List Char) : SyntaxError :=
  ⟨e.innermost, e.around ++ [⟨cause, rest⟩]⟩

/-- All faults, the innermost first. -/
def faults (e : SyntaxError) : List Fault :=
  e.innermost :: e.around

/-- The position of the first of the faults, if there are any. mirrors `offset_in` -/
def offset? (e : SyntaxError) (source : List Char) : Option Nat :=
  e.faults.head?.map fun f => Text.offset source f.rest

/-- The position of the error in the text that was read. -/
def offset (e : SyntaxError) (source : List Char) : Nat :=
  Text.offset source e.innermost.rest

/-- One line for each fault. mirrors `fmt` of `PredicateParsingError` -/
def message (e : SyntaxError) : String :=
  String.ofList (e.faults.flatMap Fault.line)

theorem offset?_eq (e : SyntaxError) (source : List Char) :
    e.offset? source = some (e.offset source) := rfl

end SyntaxError
end JoinPlan
