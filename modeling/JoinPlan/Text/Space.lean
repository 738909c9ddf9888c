import JoinPlan.Text.CodePoint
/-!
# White space

Two classes of white space are in use. *Spacing* is what may stand between the tokens of a
predicate or of a JSON document: space, tab, carriage return and line feed. *Blank* characters are
those with the Unicode property White_Space; they decide whether a text is empty and where an
excerpt of it starts.

Results:
* `isBlank_of_isSpacing`: all spacing is blank.
* `skipSpacing_append`: what skipping takes away.
-/
namespace JoinPlan.Text

/-- Space, tab, carriage return, line feed. -/
def isSpacing (c : Char) : Bool :=
  c = ' ' || c = '\t' || c = '\r' || c = '\n'

/-- The closed ranges of code points with the property White_Space, ascending. -/
def blankRanges : List (Nat × Nat) :=
  [(0x09, 0x0D), (0x20, 0x20), (0x85, 0x85), (0xA0, 0xA0), (0x1680, 0x1680), (0x2000, 0x200A),
   (0x2028, 0x2029), (0x202F, 0x202F), (0x205F, 0x205F), (0x3000, 0x3000)]

/-- Whether `c` has the Unicode property White_Space. -/
def isBlank (c : Char) : Bool :=
  inRanges blankRanges c

/-- The text without the spacing in front. mirrors `multispace0` -/
def skipSpacing (s : List Char) : List Char :=
  s.dropWhile isSpacing

/-- The text without the blanks in front. -/
def trimStart (s : List Char) : List Char :=
  s.dropWhile isBlank

/-- The text without the blanks at the end. -/
def trimEnd (s : List Char) : List Char :=
  (s.reverse.dropWhile isBlank).reverse

/-- The text without the blanks at either end. -/
def trim (s : List Char) : List Char :=
  trimEnd (trimStart s)

theorem isBlank_of_isSpacing {c : Char} (h : isSpacing c = true) : isBlank c = true := by
  simp only [isSpacing, Bool.or_eq_true, decide_eq_true_eq] at h
  rcases h with ((rfl | rfl) | rfl) | rfl <;> decide

/-- Skipping removes a run of spacing and nothing else. -/
theorem skipSpacing_append (s : List Char) : s.takeWhile isSpacing ++ skipSpacing s = s :=
  List.takeWhile_append_dropWhile

end JoinPlan.Text
