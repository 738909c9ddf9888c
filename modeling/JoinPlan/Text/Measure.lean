/-!
# Positions in a text

Positions are counted in bytes of UTF-8. A reader hands on what is left of the text, so a position
is the length of the whole less the length of the rest.

Results:
* `utf8Length_append`: lengths add up.
* `offset_append`: for a rest that is a suffix, the offset is the length of what stands before it.
-/
namespace JoinPlan.Text

/-- The length in bytes of UTF-8. -/
def utf8Length : List Char → Nat
  | [] => 0
  | c :: s => c.utf8Size + utf8Length s

/-- The position at which `rest` begins in `source`, in bytes of UTF-8.
mirrors `offset_in`, at one fault -/
def offset (source rest : List Char) : Nat :=
  utf8Length source - utf8Length rest

theorem utf8Length_append (s t : List Char) :
    utf8Length (s ++ t) = utf8Length s + utf8Length t := by
  induction s with
  | nil => simp [utf8Length]
  | cons c s ih => simp only [List.cons_append, utf8Length, ih]; omega

theorem offset_append (s t : List Char) : offset (s ++ t) t = utf8Length s := by
  simp [offset, utf8Length_append]

end JoinPlan.Text
