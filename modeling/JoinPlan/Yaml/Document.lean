import JoinPlan.Yaml.Block
/-!
# YAML documents

A text holds one document, with a line of dashes in front of it or not, and any number of lines of
dots behind it. Anchors, tags, directives, keys with a question mark and scalars with a bar are no
part of the language that is read; a text with one of them is refused. Why is not reported.
-/
namespace JoinPlan.Yaml

/-- The node of a document without a line of dashes. It is left out where nothing at all stands. -/
def readUnmarked? (s : List Cell) : Option (Node × List Cell) :=
  if s.isEmpty then some (.empty, s) else readBlock? 0 s

/-- The node of a document behind its line of dashes. On that line there is only room for a node
without items below one another, and the node may be left out. -/
def readMarked? (s : List Cell) : Option (Node × List Cell) := do
  let t ← nextBlockToken? (s.drop 3)
  if t.isEmpty || atBoundary t then return (.empty, t)
  else if t.head?.any fun c => s.head?.any fun d => c.line = d.line then readInline? ⟨false, 0⟩ t
  else readBlock? 0 t

/-- Whether nothing stands behind a document but lines of dots. -/
def atEnd (s : List Cell) : Bool :=
  match _ : nextBlockToken? s with
  | none => false
  | some [] => true
  | some (c :: rest) => atMarker '.' (c :: rest) && atEnd (rest.drop 2)
termination_by s.length
decreasing_by
  have le := (nextToken?_suffix ‹nextBlockToken? s = some (c :: rest)›).length_le
  simp only [List.length_cons, List.length_drop] at le ⊢
  omega

/-- The document that a text consists of. -/
def parse? (s : List Char) : Option Node := do
  let t ← nextLineToken? (← cells? s)
  let (node, rest) ← if atMarker '-' t then readMarked? t else readUnmarked? t
  if atEnd rest then some node else none

end JoinPlan.Yaml
