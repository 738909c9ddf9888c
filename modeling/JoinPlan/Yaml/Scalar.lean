import JoinPlan.Json.Text
import JoinPlan.Yaml.Cell
/-!
# Scalars of a YAML document

A scalar is a text, plain or in quotes. It may go over several lines; the line ends in it are
*folded*: a single one is a space, and of several all but the first are kept. A plain scalar ends
where something else begins: a colon with white space behind it, a comment, a line that is not
indented deep enough, and in a flow collection also the characters that make up the collection.
-/
namespace JoinPlan.Yaml

/-- A text of a document, and whether it stands there without quotes. -/
structure Scalar where
  plain : Bool
  text : String
  deriving DecidableEq, Repr

/-- Where a scalar stands. -/
structure Context where
  inFlow : Bool
  /-- the column from which on a line still belongs to the scalar -/
  indent : Nat
  deriving DecidableEq, Repr

/-- The white space in front. -/
def gap (s : List Cell) : List Cell :=
  s.takeWhile fun c => isWhite c.char

/-- What stands behind the white space in front. -/
def behindGap (s : List Cell) : List Cell :=
  s.dropWhile fun c => isWhite c.char

/-- What is left of line ends in a scalar. -/
def foldBreaks : List Char → List Char
  | ['\n'] => [' ']
  | '\n' :: breaks => breaks
  | breaks => breaks

/-- What is left of white space in a scalar. -/
def fold (cells : List Cell) : List Char :=
  let white := cells.map (·.char)
  if white.any isBreak then foldBreaks (white.filter isBreak) else white

theorem length_behindGap_le (s : List Cell) : (behindGap s).length ≤ s.length :=
  (List.dropWhile_sublist _).length_le

def isFlowIndicator (c : Char) : Bool :=
  c = ',' || c = '[' || c = ']' || c = '{' || c = '}'

/-! ## Plain scalars -/

/-- Characters that no plain scalar starts with. -/
def reserved : List Char :=
  ['-', '?', ':', ',', '[', ']', '{', '}', '#', '&', '*', '!', '|', '>', '\'', '"', '%', '@',
   '\x60']

/-- Whether a plain scalar can start here. -/
def startsPlain (inFlow : Bool) : List Cell → Bool
  | [] => false
  | c :: s =>
    (!isWhite c.char && !reserved.contains c.char) ||
      ((c.char = '-' || (!inFlow && (c.char = '?' || c.char = ':'))) && !atWhite s)

/-- Whether a colon in a flow collection has an indicator behind it. Such a text is refused. -/
def atStrayColon : List Cell → Bool
  | c :: d :: _ => c.char = ':' && (d.char = '?' || isFlowIndicator d.char)
  | _ => false

/-- The characters of a plain scalar up to white space or its end. -/
def readRun? (inFlow : Bool) : Reader (List Char)
  | [] => some ([], [])
  | c :: s =>
    if inFlow && atStrayColon (c :: s) then none
    else if isWhite c.char || atIndicator ':' (c :: s) || (inFlow && isFlowIndicator c.char) then
      some ([], c :: s)
    else (readRun? inFlow s).map fun (t, rest) => (c.char :: t, rest)

/-- Whether white space holds a tab where the indentation of a line should be. -/
def hasStrayTab (indent : Nat) (cells : List Cell) : Bool :=
  (cells.dropWhile fun c => !isBreak c.char).any fun c => c.char = '\t' && c.column < indent

/-- The text of a plain scalar. White space counts where the scalar goes on behind it. A round has
to read something. -/
def readPlainText? (k : Context) (s : List Cell) : Option (List Char × List Cell) :=
  if atBoundary s || (s.head?.any fun c => c.char = '#') then some ([], s) else do
    let (run, rest) ← readRun? k.inFlow s
    let behind := behindGap rest
    if hasStrayTab k.indent (gap rest) then none
    else if (gap rest).isEmpty || (!k.inFlow && behind.head?.any fun c => c.column < k.indent) then
      return (run, behind)
    else if behind.length < s.length then
      let (more, rest') ← readPlainText? k behind
      return (if more.isEmpty then run else run ++ fold (gap rest) ++ more, rest')
    else none
termination_by s.length

/-! ## Scalars in quotes -/

/-- The text up to the closing quote, and what is left behind it. Two quotes are one. -/
def readSingle? (s : List Cell) : Option (List Char × List Cell) :=
  match s with
  | [] => none
  | c :: rest =>
    if atBoundary s then none
    else if c.char = '\'' then
      match rest with
      | d :: rest' =>
        if d.char = '\'' then (readSingle? rest').map fun (t, r) => ('\'' :: t, r)
        else some ([], rest)
      | [] => some ([], [])
    else if isWhite c.char then
      (readSingle? (behindGap rest)).map fun (t, r) => (fold (c :: gap rest) ++ t, r)
    else (readSingle? rest).map fun (t, r) => (c.char :: t, r)
termination_by s.length
decreasing_by
  all_goals
    have := length_behindGap_le
    grind

/-- The character that a backslash and a letter stand for. -/
def unescape? : Char → Option Char
  | '0' => some '\x00'
  | 'a' => some '\x07'
  | 'b' => some '\x08'
  | 't' => some '\t'
  | '\t' => some '\t'
  | 'n' => some '\n'
  | 'v' => some '\x0b'
  | 'f' => some '\x0c'
  | 'r' => some '\r'
  | 'e' => some '\x1b'
  | ' ' => some ' '
  | '"' => some '"'
  | '/' => some '/'
  | '\\' => some '\\'
  | 'N' => some '\x85'
  | '_' => some '\u00a0'
  | 'L' => some '\u2028'
  | 'P' => some '\u2029'
  | _ => none

/-- How many hexadecimal digits stand behind a backslash and a letter. -/
def codeLength? : Char → Option Nat
  | 'x' => some 2
  | 'u' => some 4
  | 'U' => some 8
  | _ => none

/-- The character with the code point that the first `n` cells write in hexadecimal digits. -/
def readCode? (n : Nat) (s : List Cell) : Option Char :=
  if s.length < n then none else do
    let digits ← (s.take n).mapM fun c => Json.hexValue? c.char
    Json.scalar? (digits.foldl (fun v d => v * 16 + d) 0)

/-- The text up to the closing quote with its escapes resolved, and what is left behind it. A
backslash at the end of a line joins it with the next. -/
def readDouble? (s : List Cell) : Option (List Char × List Cell) :=
  match s with
  | [] => none
  | c :: rest =>
    if atBoundary s then none
    else if c.char = '"' then some ([], rest)
    else if c.char = '\\' then
      match rest with
      | [] => none
      | d :: rest' =>
        if isBreak d.char then
          let breaks := ((gap rest').map (·.char)).filter isBreak
          (readDouble? (behindGap rest')).map fun (t, r) => (breaks ++ t, r)
        else
          match codeLength? d.char with
          | some n => do
            let x ← readCode? n rest'
            let (t, r) ← readDouble? (rest'.drop n)
            return (x :: t, r)
          | none => do
            let x ← unescape? d.char
            let (t, r) ← readDouble? rest'
            return (x :: t, r)
    else if isWhite c.char then
      (readDouble? (behindGap rest)).map fun (t, r) => (fold (c :: gap rest) ++ t, r)
    else (readDouble? rest).map fun (t, r) => (c.char :: t, r)
termination_by s.length
decreasing_by
  all_goals
    have := length_behindGap_le
    grind

/-! ## All scalars -/

/-- The scalar that starts here. -/
def readScalar? (k : Context) (s : List Cell) : Option (Scalar × List Cell) :=
  match s with
  | [] => none
  | c :: rest =>
    if c.char = '\'' then
      (readSingle? rest).map fun (t, r) => (⟨false, String.ofList t⟩, r)
    else if c.char = '"' then
      (readDouble? rest).map fun (t, r) => (⟨false, String.ofList t⟩, r)
    else if startsPlain k.inFlow s then do
      let (t, r) ← readPlainText? k s
      if t.isEmpty then none else return (⟨true, String.ofList t⟩, r)
    else none

end JoinPlan.Yaml
