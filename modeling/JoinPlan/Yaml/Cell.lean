/-!
# The characters of a YAML document

In YAML it matters where a character stands: what is further to the right belongs to what is above
it. A document is therefore read as a list of *cells*, characters with their place. The different
line ends are made one before that.

Results:
* `nextToken?_suffix`: going to the next token only leaves cells out at the front.
-/
namespace JoinPlan.Yaml

/-- Where a character stands. Lines and columns are counted from zero. -/
structure Place where
  line : Nat
  column : Nat
  /-- how many UTF-8 bytes of the line are in front -/
  offset : Nat
  /-- whether nothing but space is in front in the line -/
  leads : Bool
  deriving DecidableEq, Repr

structure Cell extends Place where
  char : Char
  deriving DecidableEq, Repr

/-- Takes something from the front of a document. -/
abbrev Reader (α : Type) := List Cell → Option (α × List Cell)

/-- Whether a character may stand in a document: no control characters but tabs and line ends. -/
def isAllowed (c : Char) : Bool :=
  c = '\t' || c = '\n' || c = '\r' || c = '\x85' || (0x20 ≤ c.toNat && c.toNat ≤ 0x7E) ||
    (0xA0 ≤ c.toNat && c.toNat ≤ 0xFFFD) || 0x10000 ≤ c.toNat

/-- Whether a character ends a line, once line ends are unified. -/
def isBreak (c : Char) : Bool :=
  c = '\n' || c = '\u2028' || c = '\u2029'

/-- Space and tab. -/
def isSpace (c : Char) : Bool :=
  c = ' ' || c = '\t'

/-- Space, tab and line ends. -/
def isWhite (c : Char) : Bool :=
  isSpace c || isBreak c

/-- The text with one line feed for each line end of two characters, and for the other characters
that mean the same. -/
def unifyLineEnds : List Char → List Char
  | [] => []
  | '\r' :: '\n' :: s => '\n' :: unifyLineEnds s
  | c :: s => (if c = '\r' ∨ c = '\x85' then '\n' else c) :: unifyLineEnds s

/-- The byte order mark. At the start of a line it has no meaning, but takes a column. -/
def mark : Char := '\uFEFF'

/-- The place behind a character. -/
def Place.next (p : Place) (c : Char) : Place :=
  if isBreak c then ⟨p.line + 1, 0, 0, true⟩
  else ⟨p.line, p.column + 1, p.offset + c.utf8Size,
    p.leads && (isSpace c || (c = mark && p.column = 0))⟩

/-- The cells of a text that starts at a place. -/
def place (p : Place) : List Char → List Cell
  | [] => []
  | c :: s => ⟨p, c⟩ :: place (p.next c) s

/-- The cells of a document, if all its characters are allowed. -/
def cells? (s : List Char) : Option (List Cell) :=
  if s.all isAllowed then some (place ⟨0, 0, 0, true⟩ (unifyLineEnds s)) else none

/-- How many bytes there may be from the start of a key to its colon. -/
def keyBytes : Nat := 1024

/-- Whether what starts at `start` can be a key for a colon at `colon`: both stand on one line, not
too far apart. -/
def isKeyFor (start colon : Cell) : Bool :=
  start.line = colon.line && colon.offset ≤ start.offset + keyBytes

/-- Whether a document goes on with white space or ends. -/
def atWhite : List Cell → Bool
  | [] => true
  | c :: _ => isWhite c.char

/-- Whether a document goes on with `mark` and white space behind it. -/
def atIndicator (mark : Char) : List Cell → Bool
  | [] => false
  | c :: s => c.char = mark && atWhite s

/-- Whether a document goes on with three times `mark` on a line of its own, or with something
behind it that white space separates. -/
def atMarker (mark : Char) : List Cell → Bool
  | a :: b :: c :: s =>
    a.column = 0 && a.char = mark && b.char = mark && c.char = mark && atWhite s
  | _ => false

/-- Whether a document starts or ends here. -/
def atBoundary (s : List Cell) : Bool :=
  atMarker '-' s || atMarker '.' s

/-- Goes to the next token, past white space and comments. `inComment` tells whether a comment is
being read, `tabs` whether tabs may stand here; at the start of a line they may in a flow
collection only. -/
def nextToken? (inFlow : Bool) : (tabs inComment : Bool) → List Cell → Option (List Cell)
  | _, _, [] => some []
  | tabs, inComment, c :: s =>
    if isBreak c.char then nextToken? inFlow inFlow false s
    else if inComment || c.char = '#' then nextToken? inFlow tabs true s
    else if c.char = ' ' || (c.char = mark && c.column = 0) then nextToken? inFlow tabs false s
    else if c.char = '\t' then if tabs then nextToken? inFlow tabs false s else none
    else some (c :: s)

/-- Goes to the next token inside a flow collection. -/
def nextFlowToken? (s : List Cell) : Option (List Cell) :=
  nextToken? true true false s

/-- Goes to the next token behind a token of a block collection. -/
def nextBlockToken? (s : List Cell) : Option (List Cell) :=
  nextToken? false true false s

/-- Goes to the next token at the start of a line, or where a line might as well start. -/
def nextLineToken? (s : List Cell) : Option (List Cell) :=
  nextToken? false false false s

/-- Goes to the next token behind an item of a block collection. It has to start a line. -/
def nextLeadingToken? (s : List Cell) : Option (List Cell) :=
  (nextBlockToken? s).filter fun t => t.head?.all fun c => c.leads

theorem nextToken?_suffix {inFlow tabs inComment : Bool} {s rest : List Cell}
    (h : nextToken? inFlow tabs inComment s = some rest) : rest <:+ s := by
  induction s generalizing tabs inComment with
  | nil => simp_all [nextToken?]
  | cons c s ih =>
    have step {t i} (h : nextToken? inFlow t i s = some rest) : rest <:+ c :: s :=
      (ih h).trans (List.suffix_cons c s)
    simp only [nextToken?] at h
    split at h
    · exact step h
    split at h
    · exact step h
    split at h
    · exact step h
    split at h
    · split at h
      · exact step h
      · exact absurd h (by simp)
    · simp only [Option.some.injEq] at h
      exact h ▸ List.suffix_rfl

end JoinPlan.Yaml
