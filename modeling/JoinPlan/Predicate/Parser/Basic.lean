import JoinPlan.Predicate.SyntaxError
/-!
# Readers

A reader takes something from the front of a text and hands on the rest. It has two ways to fail:
what it looks for is *absent*, and something else may be tried in its place; or it is there and
*broken*, and the whole text is refused.

There is no third way, to ask for more text: a reader is given the whole text at once, and at its end
it has seen all there is. So no outcome says that a text is incomplete, and no error does.

Results:
* `Parser.pure_apply`, `Parser.bind_apply`: how readers are put together.
-/
namespace JoinPlan

/-- What became of an attempt to read. mirrors `IResult` -/
inductive Outcome (α : Type) where
  | read (value : α) (rest : List Char)
  | absent (error : SyntaxError)
  | broken (error : SyntaxError)
  deriving DecidableEq, Repr

/-- Takes an `α` from the front of a text. -/
def Parser (α : Type) := List Char → Outcome α

namespace Parser

variable {α β : Type}

instance : Monad Parser where
  pure a := fun s => .read a s
  bind p f := fun s =>
    match p s with
    | .read a rest => f a rest
    | .absent e => .absent e
    | .broken e => .broken e

theorem pure_apply (a : α) (s : List Char) : (pure a : Parser α) s = .read a s := rfl

theorem bind_apply (p : Parser α) (f : α → Parser β) (s : List Char) :
    (p >>= f) s =
      match p s with
      | .read a rest => f a rest
      | .absent e => .absent e
      | .broken e => .broken e := rfl

/-- Reads nothing. -/
def fail (cause : Cause) : Parser α := fun s => .absent (.single cause s)

/-- Reads with `p`, or with `q` where `p` finds nothing; the report is then that of `q`.
mirrors `alt`, of two -/
def orElse (p q : Parser α) : Parser α := fun s =>
  match p s with
  | .absent _ => q s
  | outcome => outcome

/-- Reads with `p`, or nothing. mirrors `opt` -/
def optional (p : Parser Unit) : Parser Unit := p.orElse (pure ())

/-- What `p` looks for has to be there. mirrors `cut` -/
def required (p : Parser α) : Parser α := fun s =>
  match p s with
  | .absent e => .broken e
  | outcome => outcome

/-- Adds to the report of `p` what was being read. mirrors `context` -/
def within (cause : Cause) (p : Parser α) : Parser α := fun s =>
  match p s with
  | .read a rest => .read a rest
  | .absent e => .absent (e.within cause s)
  | .broken e => .broken (e.within cause s)

/-- Allows spacing on both sides. mirrors `ws` -/
def spaced (p : Parser α) : Parser α := fun s =>
  match p (Text.skipSpacing s) with
  | .read a rest => .read a (Text.skipSpacing rest)
  | outcome => outcome

/-- The character `c`. mirrors `char` -/
def character (c : Char) : Parser Unit := fun s =>
  match s with
  | [] => .absent (.single .character [])
  | d :: rest => if d = c then .read () rest else .absent (.single .character (d :: rest))

/-- The character `c` with spacing on both sides. mirrors `ws(char(c))` -/
def symbol (c : Char) : Parser Unit := spaced (character c)

/-- The items that follow the first one: each stands behind a separator, and a separator that no
item follows is left where it is. A round has to read something.
mirrors the loop of `separated_list0` -/
def following (separator : Parser Unit) (p : Parser α) (s : List Char) : Outcome (List α) :=
  match separator s with
  | .absent _ => .read [] s
  | .broken e => .broken e
  | .read () afterSeparator =>
    match p afterSeparator with
    | .absent _ => .read [] s
    | .broken e => .broken e
    | .read a rest =>
      if rest.length < s.length then
        match following separator p rest with
        | .read as rest' => .read (a :: as) rest'
        | outcome => outcome
      else .absent (.single .malformedConstraints s)
termination_by s.length

/-- Any number of items with separators between them. mirrors `separated_list0` -/
def separated (separator : Parser Unit) (p : Parser α) : Parser (List α) := fun s =>
  match p s with
  | .absent _ => .read [] s
  | .broken e => .broken e
  | .read a rest =>
    match following separator p rest with
    | .read as rest' => .read (a :: as) rest'
    | outcome => outcome

end Parser
end JoinPlan
