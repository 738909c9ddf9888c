import JoinPlan.Predicate.Parser.Token
/-!
# Reading a predicate

`Predicate.parsePrefix` reads a predicate from the front of a text, `Predicate.parse` a text that is
a predicate and nothing more. A constraint list may end with a comma. Between tokens there may be
spacing; around the whole there may also be other blanks at the end. A reader never asks for more
text, so `Predicate.parse` has nothing to answer for a text that stops too early but the error that is
met there.
-/
namespace JoinPlan

namespace Parser

/-- `["id", V]` mirrors `parse_comparison_args` -/
def arguments : Parser (String × Literal) := do
  within .openArguments (symbol '[')
  let identifier ← within .identifier (spaced quoted)
  within .argumentComma (symbol ',')
  let value ← within .value (spaced literal)
  within .closeArguments (symbol ']')
  return (identifier, value)

/-- `{ A, B }`, where `constraint` reads one constraint. mirrors `parse_constraint_block` -/
def constraints (constraint : Parser Predicate) : Parser (List Predicate) := do
  within .openConstraints (symbol '{')
  let cs ← separated (symbol ',') constraint
  if cs.isEmpty then pure () else optional (symbol ',')
  within .closeConstraints (symbol '}')
  return cs

/-- The operator of a node and the colon behind it.
mirrors `parse_predicate_node`, up to the operator -/
def operator : Parser Operator := fun s =>
  (do
    let word ← spaced keyword
    within .colon (required (symbol ':'))
    match Operator.ofKeyword? word with
    | some op => return op
    | none => fun _ => .broken (.single .unknownOperator s)) s

/-- One node. A constraint stands further on in the text than the node that holds it.
mirrors `parse_predicate_node` -/
def node (s : List Char) : Outcome Predicate :=
  (do
    match ← operator with
    | .logical op =>
      let constraint : Parser Predicate := fun r =>
        if r.length < s.length then node r else fail .keyword r
      return .logical op (← required (constraints constraint))
    | .comparison op =>
      let (identifier, value) ← required arguments
      return .comparison op identifier value : Parser Predicate) s
termination_by s.length

end Parser

namespace Predicate

/-- The predicate in front of a text. mirrors `parse_predicate_with_nom` -/
def parsePrefix (s : List Char) : Outcome Predicate :=
  Parser.node s

/-- The predicate that a text consists of, up to blanks at the end. mirrors `parse_predicate` -/
def parse (s : List Char) : Except SyntaxError Predicate :=
  if (Text.trim s).isEmpty then .error (.single .emptyPredicate s)
  else
    match parsePrefix s with
    | .read p rest =>
      let unread := Text.trim rest
      if unread.isEmpty then .ok p
      else .error ((SyntaxError.single .trailingText rest).within .unreadText unread)
    | .absent e => .error e
    | .broken e => .error e

end Predicate
end JoinPlan
