import JoinPlan.Yaml.Flow
/-!
# Block collections of a YAML document

The items of a block collection stand below one another: the items of a sequence behind dashes, the
entries of a mapping as key, colon and value. Each but the first starts a line. What belongs to an
item is further to the right; only a sequence that is the value of an entry may start in the column
of the key.
-/
namespace JoinPlan.Yaml

/-- The items of a sequence in column `column`, where `node?` reads a node that is indented at least
as deep as it is told. A round has to read something. -/
def readItems? (node? : Nat → Reader Node) (column : Nat) (s : List Cell) :
    Option (List Node × List Cell) := do
  let t ← nextBlockToken? s
  match t with
  | [] => return ([], [])
  | c :: rest =>
    if c.column = column && atIndicator '-' t then
      let next ← nextLineToken? rest
      let (item, behind) ←
        if next.head?.any fun d => column < d.column then node? (column + 1) next
        else pure (.empty, next)
      let following ← nextLeadingToken? behind
      if following.length < s.length then
        let (items, rest') ← readItems? node? column following
        return (item :: items, rest')
      else none
    else return ([], t)
termination_by s.length
decreasing_by simp_all

/-- The value of an entry in column `column`, behind the colon, which is in line `line`. On that
line there is only room for a node without items of its own below one another. -/
def readValue? (node? : Nat → Reader Node) (column line : Nat) (s : List Cell) :
    Option (Node × List Cell) := do
  let t ← nextBlockToken? s
  match t with
  | [] => return (.empty, [])
  | c :: _ =>
    if c.line = line then readInline? ⟨false, column + 1⟩ t
    else if column < c.column then node? (column + 1) t
    else if c.column = column && atIndicator '-' t then
      (readItems? node? column t).map fun (items, rest) => (.sequence items, rest)
    else return (.empty, t)

/-- What stands behind the colon of a key that starts at `start`, if there is one. -/
def behindColon? (start : Cell) (s : List Cell) : Option (List Cell) := do
  let t ← nextBlockToken? s
  match t with
  | c :: rest => if isKeyFor start c && atIndicator ':' t then some rest else none
  | [] => none

/-- The entries of a mapping in column `column` behind its first, where `node?` reads a node that is
indented at least as deep as it is told. A round has to read something. -/
def readEntries? (node? : Nat → Reader Node) (column : Nat) (s : List Cell) :
    Option (List (Node × Node) × List Cell) := do
  let t ← nextLeadingToken? s
  match t with
  | [] => return ([], [])
  | c :: _ =>
    if c.column < column || atBoundary t then return ([], t)
    else if column < c.column then none
    else
      let (key, behind) ← readInline? ⟨false, column + 1⟩ t
      let (value, rest) ← readValue? node? column c.line (← behindColon? c behind)
      if rest.length < s.length then
        let (entries, rest') ← readEntries? node? column rest
        return ((key, value) :: entries, rest')
      else none
termination_by s.length
decreasing_by simp_all

/-- The node that starts here, indented by at least `indent` columns. -/
def readBlock? (indent : Nat) (s : List Cell) : Option (Node × List Cell) :=
  match s with
  | [] => none
  | c :: more =>
    let node? : Nat → Reader Node := fun i r =>
      if r.length ≤ more.length then readBlock? i r else none
    if atIndicator '-' s then
      (readItems? node? c.column s).map fun (items, rest) => (.sequence items, rest)
    else do
      let (first, behind) ← readInline? ⟨false, indent⟩ s
      match behindColon? c behind with
      | some rest =>
        let (value, rest) ← readValue? node? c.column c.line rest
        let (entries, rest) ← readEntries? node? c.column rest
        return (.mapping ((first, value) :: entries), rest)
      | none => return (first, behind)
termination_by s.length

end JoinPlan.Yaml
