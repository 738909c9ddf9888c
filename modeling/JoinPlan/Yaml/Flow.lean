import JoinPlan.Yaml.Scalar
/-!
# Nodes of a YAML document

A node is a scalar or a collection of nodes. Collections in brackets are *flow* collections; they
may go over any number of lines, and a comma may stand behind the last item. A key stands on one
line with its colon, and not too far from it.
-/
namespace JoinPlan.Yaml

inductive Node where
  | scalar (scalar : Scalar)
  | sequence (items : List Node)
  | mapping (entries : List (Node × Node))
  deriving Repr

namespace Node

/-- What stands for a node that is left out. -/
def empty : Node := .scalar ⟨true, ""⟩

/-- Whether a node may have been left out. -/
def isEmpty : Node → Bool
  | .scalar s => s.plain && s.text = ""
  | _ => false

/-- The text of a scalar. -/
def text? : Node → Option String
  | .scalar s => some s.text
  | _ => none

end Node

/-- The items of a flow collection up to its closing bracket, where `item?` reads one. A round has
to read something. -/
def readFlowItems? {α : Type} (item? : Reader α) (close : Char) (s : List Cell) :
    Option (List α × List Cell) := do
  let t ← nextFlowToken? s
  match t with
  | [] => none
  | c :: rest =>
    if c.char = close then return ([], rest)
    let (a, behind) ← item? t
    match ← nextFlowToken? behind with
    | [] => none
    | d :: next =>
      if d.char = close then return ([a], next)
      else if d.char = ',' && next.length < s.length then
        let (as, rest') ← readFlowItems? item? close next
        return (a :: as, rest')
      else none
termination_by s.length
decreasing_by simp_all

/-- Whether a flow item ends here. -/
def atFlowEnd : List Cell → Bool
  | [] => true
  | c :: _ => c.char = ',' || c.char = ']' || c.char = '}'

/-- A node in a flow collection and the value behind it, if there is a colon for which the node can
be a key. -/
def readFlowEntry? (node? : Reader Node) (s : List Cell) :
    Option ((Node × Option Node) × List Cell) := do
  let (key, behind) ← node? s
  match ← nextFlowToken? behind with
  | [] => none
  | c :: rest =>
    if c.char = ':' && s.head?.any fun d => isKeyFor d c then
      let t ← nextFlowToken? rest
      if atFlowEnd t then return ((key, some .empty), t)
      let (value, rest') ← node? t
      return ((key, some value), rest')
    else return ((key, none), c :: rest)

/-- The node that starts here, a scalar or a flow collection. In a sequence an entry is a mapping
of its own; in a mapping the value may be left out. -/
def readInline? (k : Context) (s : List Cell) : Option (Node × List Cell) :=
  match s with
  | [] => none
  | c :: rest =>
    let entry? : Reader (Node × Option Node) := readFlowEntry? fun r =>
      if r.length ≤ rest.length then readInline? ⟨true, k.indent⟩ r else none
    if c.char = '[' then
      (readFlowItems? entry? ']' rest).map fun (items, rest') =>
        (.sequence (items.map fun (a, v) => v.elim a fun v => .mapping [(a, v)]), rest')
    else if c.char = '{' then
      (readFlowItems? entry? '}' rest).map fun (items, rest') =>
        (.mapping (items.map fun (a, v) => (a, v.getD .empty)), rest')
    else (readScalar? k s).map fun (a, rest') => (.scalar a, rest')
termination_by s.length

end JoinPlan.Yaml
