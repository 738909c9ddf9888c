import JoinPlan.Json.Basic
/-!
# Relation trees

The relations that a predicate needs form a tree below an unnamed root. Inserting a path follows
the nodes that are there and adds what is missing at the end of its siblings, so siblings stand in
the order in which they were first needed.

Results:
* `name_insert`: insertion keeps the name of the node it starts from.
-/
namespace JoinPlan

/-- A relation and the relations that are reached from it. mirrors `RelationNode` -/
structure RelationTree where
  name : String
  children : List RelationTree
  deriving Repr

namespace RelationTree

/-- A relation from which nothing is reached. mirrors `RelationNode.new` -/
def leaf (name : String) : RelationTree := ⟨name, []⟩

/-- The tree without relations. mirrors `RelationNode.root` -/
def root : RelationTree := leaf ""

/-- mirrors `is_leaf` -/
def isLeaf (t : RelationTree) : Bool := t.children.isEmpty

/-- The first child with a name. mirrors `child` -/
def child? (name : String) (t : RelationTree) : Option RelationTree :=
  t.children.find? (·.name = name)

/-- Changes the first of some siblings with a name, or a new one at their end.
mirrors `child_or_insert`, and what is done with the child -/
def changeNamed (name : String) (f : RelationTree → RelationTree) :
    List RelationTree → List RelationTree
  | [] => [f (leaf name)]
  | t :: ts => if t.name = name then f t :: ts else t :: changeNamed name f ts

/-- The tree with a path below its root. mirrors `insert_path` -/
def insert : List String → RelationTree → RelationTree
  | [], t => t
  | name :: path, t => ⟨t.name, changeNamed name (insert path) t.children⟩

/-- Whether a path leads from the root to a node, taking the first child of each name.
mirrors `contains_path` -/
def contains : List String → RelationTree → Bool
  | [], _ => true
  | name :: path, t =>
    match t.child? name with
    | some c => contains path c
    | none => false

/-- The nodes that inserting a path adds, each with the name of its parent.
mirrors the records that `insert_path` leaves -/
def missing : List String → RelationTree → List (String × String)
  | [], _ => []
  | name :: path, t =>
    match t.child? name with
    | some c => missing path c
    | none => (name, t.name) :: missing path (leaf name)

mutual

/-- The number of nodes below the root. mirrors `relation_count` -/
def relationCount : RelationTree → Nat
  | ⟨_, ts⟩ => countAll ts

def countAll : List RelationTree → Nat
  | [] => 0
  | t :: ts => 1 + t.relationCount + countAll ts

end

mutual

/-- The paths to the leaves of a tree that is itself reached by `before`, with dots between their
names; an empty `before` leaves no dot. mirrors `collect_leaf_paths` -/
def leavesBehind (before : String) : RelationTree → List String
  | ⟨name, ts⟩ =>
    let path := if before = "" then name else before ++ "." ++ name
    match ts with
    | [] => [path]
    | t :: ts => leavesBehind path t ++ leavesOfAll path ts

def leavesOfAll (before : String) : List RelationTree → List String
  | [] => []
  | t :: ts => leavesBehind before t ++ leavesOfAll before ts

end

/-- The paths from below the root to every leaf, from left to right. mirrors `leaf_paths` -/
def leafPaths (t : RelationTree) : List String :=
  leavesOfAll "" t.children

mutual

/-- The JSON form of a tree. mirrors the derived serialization of `RelationNode` -/
def toJson : RelationTree → Json
  | ⟨name, ts⟩ => .object [("name", .text name), ("children", .array (allToJson ts))]

def allToJson : List RelationTree → List Json
  | [] => []
  | t :: ts => t.toJson :: allToJson ts

end

theorem contains_nil (t : RelationTree) : contains [] t = true := rfl

theorem name_insert (path : List String) (t : RelationTree) : (insert path t).name = t.name := by
  cases path <;> rfl

end RelationTree
end JoinPlan
