import JoinPlan.Number.Reading
import JoinPlan.Predicate.Basic
import JoinPlan.Predicate.Parser.Basic
/-!
# The tokens of a predicate

Keywords, quoted texts and the values that a field is compared with.

Results:
* `splitKeyword_append`: a keyword and what is left make up the text.
-/
namespace JoinPlan

/-- The value that a bare word stands for, in upper or lower case.
mirrors the last branches of `parse_literal` -/
def Literal.ofWord? (word : String) : Option Literal :=
  let lower := word.toList.map Char.toLower
  if lower = "null".toList then some .null
  else if lower = "true".toList then some (.boolean true)
  else if lower = "false".toList then some (.boolean false)
  else none

namespace Parser

/-- How a word goes on: letters and digits, and underscores with one of these behind them.
mirrors the repetition in `parse_keyword` -/
def keywordTail : List Char → List Char × List Char
  | '_' :: c :: s =>
    if c.isAlphanum then
      let (tail, rest) := keywordTail s
      ('_' :: c :: tail, rest)
    else ([], '_' :: c :: s)
  | c :: s =>
    if c.isAlphanum then
      let (tail, rest) := keywordTail s
      (c :: tail, rest)
    else ([], c :: s)
  | [] => ([], [])

/-- The keyword in front of a text and the rest: letters, and then groups of letters and digits,
each behind an underscore. All of them are ASCII. -/
def splitKeyword (s : List Char) : List Char × List Char :=
  match s.takeWhile Char.isAlpha, s.dropWhile Char.isAlpha with
  | c :: letters, '_' :: rest =>
    let (tail, rest') := keywordTail ('_' :: rest)
    (c :: letters ++ tail, rest')
  | letters, rest => (letters, rest)

/-- A keyword. mirrors `parse_keyword` -/
def keyword : Parser String := fun s =>
  match splitKeyword s with
  | ([], _) => .absent (.single .keyword s)
  | (word, rest) => .read (String.ofList word) rest

/-- The characters in front of the first `stop`. -/
def upTo (stop : Char) : Parser (List Char) := fun s =>
  .read (s.takeWhile (· ≠ stop)) (s.dropWhile (· ≠ stop))

/-- A text between two quotes of one kind. -/
def quotedBy (quote : Char) : Parser String := do
  character quote
  let body ← upTo quote
  character quote
  return String.ofList body

/-- A text between double or between single quotes. mirrors `parse_quoted_string` -/
def quoted : Parser String :=
  (quotedBy '"').orElse (quotedBy '\'')

/-- One of the bare words that are values. -/
def word : Parser Literal := fun s =>
  match keyword s with
  | .read w rest =>
    match Literal.ofWord? w with
    | some value => .read value rest
    | none => .absent (.single .bareWord s)
  | .absent e => .absent e
  | .broken e => .broken e

/-- The value of a number in front of `s`, from its text: an integer if it is one of 64 bits, else a
double. An infinite one is out of range. -/
def number (s text rest : List Char) : Outcome Literal :=
  match Numeral.readInt64? text with
  | some i => .read (.integer i) rest
  | none =>
    match Numeral.readBinary64? text with
    | some (.finite negative x) => .read (.float (.finite negative x)) rest
    | some _ => .broken (.single .numberRange s)
    | none => .absent (.single .invalidNumber s)

/-- The value that a field is compared with: a quoted text, a number or a word.
mirrors `parse_literal` -/
def literal : Parser Literal := fun s =>
  match quoted s with
  | .read t rest => .read (.text t) rest
  | _ =>
    match Numeral.scan? s with
    | some (n, rest) => number s n.text rest
    | none => word s

theorem keywordTail_append (s : List Char) : (keywordTail s).1 ++ (keywordTail s).2 = s := by
  fun_induction keywordTail s <;> simp_all

theorem splitKeyword_append (s : List Char) : (splitKeyword s).1 ++ (splitKeyword s).2 = s := by
  have h : s.takeWhile Char.isAlpha ++ s.dropWhile Char.isAlpha = s :=
    List.takeWhile_append_dropWhile
  unfold splitKeyword
  split
  · rename_i c letters rest e₁ e₂
    rw [e₁, e₂] at h
    have := keywordTail_append ('_' :: rest)
    simp only [List.append_assoc, List.cons_append, this]
    exact h
  · exact h

end Parser
end JoinPlan
