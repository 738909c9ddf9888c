import JoinPlan.Alias
import JoinPlan.Json.Parser
import JoinPlan.Log
import JoinPlan.Predicate.Document
import JoinPlan.Predicate.Parser
import JoinPlan.Relation.Expression
import JoinPlan.Relation.Path
/-!
# Plans

The plan of a predicate is the tree of the relations that its identifiers lead over. Its identifiers
are put into canonical form from left to right, and each adds its path to the tree. Under strict
rules an identifier with an empty segment is refused; otherwise such a segment is a relation without
a name, and a warning is reported.

Results:
* `RelationTree.addPredicate_value`: the paths come in the order of the identifiers.
* `Plan.ofPredicate_tree`: the tree of a plan, without the log.
-/
namespace JoinPlan

/-- The relations that a predicate needs. mirrors `Relation` -/
structure Plan where
  tree : RelationTree
  deriving Repr

/-- A predicate with canonical identifiers and its plan. mirrors `CompiledPredicate` -/
structure Compiled where
  predicate : Predicate
  plan : Plan
  deriving Repr

/-- Why there is no plan. mirrors `CompileError` -/
inductive CompileError where
  | syntaxError (offset : Nat) (message : String)
  | node (error : NodeError)
  | emptySegment (identifier : String)
  deriving Repr

/-- The error for a text that is no predicate, at the position of the first fault. -/
def CompileError.ofSyntaxError (source : String) (e : SyntaxError) : CompileError :=
  .syntaxError ((e.offset? source.toList).getD 0) e.message

/-- mirrors `fmt` of `CompileError` -/
def CompileError.message : CompileError → String
  | .syntaxError offset message =>
    "Predicate parse error at byte " ++ toString offset ++ ":\n" ++ message
  | .node e => e.message
  | .emptySegment id => "Identifier `" ++ id ++ "` contains an empty path segment"

/-- The canonical form of an identifier; that it was an alias is reported.
mirrors `resolve_identifier` -/
def lookUp (aliases : Option AliasMap) (identifier : String) : Logged String :=
  ⟨resolveIdentifier aliases identifier,
    match aliases.bind (·.get? identifier) with
    | some canonical => [.resolved identifier canonical]
    | none => []⟩

namespace RelationTree

/-- Adds a path to a tree and reports every relation that is new. mirrors `insert_path` -/
def addPath (t : RelationTree) (path : List String) : Logged RelationTree :=
  ⟨t.insert path, (t.missing path).map fun (name, parent) => .relationAdded name parent⟩

/-- Adds the path of an identifier to a tree.
mirrors the second branch of `RelationTreeBuilder.insert` -/
def addIdentifier (aliases : Option AliasMap) (t : RelationTree) (identifier : String) :
    Logged RelationTree := do
  let id ← lookUp aliases identifier
  if hasEmptySegment id then Logged.report [.emptySegment id]
  t.addPath (relationPath id)

mutual

/-- Adds the paths of a predicate, constraint after constraint.
mirrors `RelationTreeBuilder.insert` -/
def addPredicate (aliases : Option AliasMap) : Predicate → RelationTree → Logged RelationTree
  | .logical _ cs, t => addConstraints aliases cs t
  | .comparison _ id _, t => addIdentifier aliases t id

def addConstraints (aliases : Option AliasMap) :
    List Predicate → RelationTree → Logged RelationTree
  | [], t => return t
  | p :: ps, t => do addConstraints aliases ps (← addPredicate aliases p t)

end

end RelationTree

/-- The first identifier whose canonical form has an empty segment, in canonical form.
mirrors `check_identifiers` -/
def firstEmptySegment (aliases : Option AliasMap) : List String → Logged (Option String)
  | [] => return none
  | identifier :: ids => do
    let id ← lookUp aliases identifier
    if hasEmptySegment id then return some id else firstEmptySegment aliases ids

namespace Plan

/-- mirrors `Relation.expression` -/
def expression (p : Plan) : String := p.tree.expression

/-- Whether all fields are on the root itself. mirrors `Relation.is_empty` -/
def isEmpty (p : Plan) : Bool := p.tree.isLeaf

/-- mirrors the derived serialization of `Relation` -/
def toJson (p : Plan) : Json :=
  .object [("expression", .text p.expression), ("tree", p.tree.toJson)]

/-- The plan of a predicate, with an unnamed relation for every empty segment.
mirrors `Relation.new` -/
def ofPredicate (aliases : Option AliasMap) (p : Predicate) : Logged Plan := do
  let tree ← RelationTree.root.addPredicate aliases p
  Logged.report [.compiled tree.expression tree.relationCount]
  return ⟨tree⟩

/-- The plan of a predicate; under strict rules there is none if a segment is empty.
mirrors `Relation.compile` -/
def compile (strict : Bool) (aliases : Option AliasMap) (p : Predicate) :
    Logged (Except CompileError Plan) := do
  let refused ← if strict then firstEmptySegment aliases p.identifiers else pure none
  match refused with
  | some id => return .error (.emptySegment id)
  | none => return .ok (← ofPredicate aliases p)

/-- The plan of the predicate that a JSON value stands for. mirrors `Relation.from_json` -/
def compileJson (strict : Bool) (aliases : Option AliasMap) (v : Json) :
    Logged (Except CompileError Plan) :=
  match Predicate.ofJson? v with
  | .ok p => compile strict aliases p
  | .error e => return .error (.node e)

end Plan

/-- The predicate in canonical form; every alias that occurs is reported.
mirrors `resolve_predicate` -/
def Predicate.resolveLogged (aliases : Option AliasMap) (p : Predicate) : Logged Predicate :=
  ⟨p.resolve aliases, p.identifiers.flatMap fun id => (lookUp aliases id).events⟩

namespace Compiled

/-- mirrors the derived serialization of `CompiledPredicate` -/
def toJson (c : Compiled) : Json :=
  .object [("predicate", c.predicate.toJson), ("relation", c.plan.toJson)]

/-- Compiles a predicate. mirrors `compile_ast` -/
def ofPredicate (strict : Bool) (aliases : Option AliasMap) (p : Predicate) :
    Logged (Except CompileError Compiled) := do
  match ← Plan.compile strict aliases p with
  | .error e => return .error e
  | .ok plan => return .ok ⟨← p.resolveLogged aliases, plan⟩

/-- Compiles the predicate that a JSON value stands for. mirrors `compile_json` -/
def ofJson (strict : Bool) (aliases : Option AliasMap) (v : Json) :
    Logged (Except CompileError Compiled) :=
  match Predicate.ofJson? v with
  | .ok p => ofPredicate strict aliases p
  | .error e => return .error (.node e)

end Compiled

/-- The predicate that a text consists of; success is reported. mirrors `parse_predicate` -/
def Predicate.read (source : String) : Logged (Except SyntaxError Predicate) :=
  match Predicate.parse source.toList with
  | .ok p => ⟨.ok p, [.parsed p]⟩
  | .error e => ⟨.error e, []⟩

/-- Compiles the predicate that a text consists of. mirrors `compile_predicate` -/
def Compiled.ofText (strict : Bool) (aliases : Option AliasMap) (source : String) :
    Logged (Except CompileError Compiled) := do
  match ← Predicate.read source with
  | .ok p => Compiled.ofPredicate strict aliases p
  | .error e => return .error (.ofSyntaxError source e)

/-- The tree that the paths of identifiers make, in the order of the identifiers. -/
def RelationTree.ofPaths (paths : List (List String)) : RelationTree :=
  paths.foldl (fun t path => t.insert path) root

namespace RelationTree

theorem addIdentifier_value (aliases : Option AliasMap) (t : RelationTree) (id : String) :
    (addIdentifier aliases t id).value = t.insert (relationPath (resolveIdentifier aliases id)) := by
  simp only [addIdentifier, Logged.bind_value]
  split <;> rfl

mutual

/-- Walking over a predicate adds its identifiers in the order in which they are listed. -/
theorem addPredicate_value (aliases : Option AliasMap) : ∀ (p : Predicate) (t : RelationTree),
    (addPredicate aliases p t).value =
      (p.identifiers.map fun id => relationPath (resolveIdentifier aliases id)).foldl
        (fun t path => t.insert path) t
  | .logical op cs, t => by
    simp only [addPredicate, Predicate.identifiers]
    exact addConstraints_value aliases cs t
  | .comparison op id v, t => by
    simp only [addPredicate, Predicate.identifiers]
    exact addIdentifier_value aliases t id

theorem addConstraints_value (aliases : Option AliasMap) : ∀ (ps : List Predicate)
    (t : RelationTree), (addConstraints aliases ps t).value =
      ((Predicate.allIdentifiers ps).map fun id =>
        relationPath (resolveIdentifier aliases id)).foldl (fun t path => t.insert path) t
  | [], t => by simp only [addConstraints, Predicate.allIdentifiers]; rfl
  | p :: ps, t => by
    simp only [addConstraints, Predicate.allIdentifiers, Logged.bind_value, List.map_append,
      List.foldl_append]
    rw [addConstraints_value aliases ps, addPredicate_value aliases p]

end

end RelationTree

theorem Plan.ofPredicate_tree (aliases : Option AliasMap) (p : Predicate) :
    (Plan.ofPredicate aliases p).value.tree =
      .ofPaths (p.identifiers.map fun id => relationPath (resolveIdentifier aliases id)) :=
  RelationTree.addPredicate_value aliases p RelationTree.root

end JoinPlan
