import JoinPlan.Relation.Tree
/-!
# Relation expressions

The compact text of a relation tree. A relation is its name; what is reached from it follows behind
a dot, in brackets with commas between if there are several. Behind a relation without a name there
is no dot, so the expression of a tree starts with its first relation.
-/
namespace JoinPlan.RelationTree

/-- What stands between a relation and those behind it. mirrors `push_separator` -/
def link (name : String) : List Char :=
  if name = "" then [] else ['.']

mutual

/-- The characters of a tree's expression. mirrors `write_node` -/
def write : RelationTree → List Char
  | ⟨name, []⟩ => name.toList
  | ⟨name, [t]⟩ => name.toList ++ link name ++ t.write
  | ⟨name, t :: u :: ts⟩ =>
    name.toList ++ link name ++ '[' :: (t.write ++ ',' :: u.write ++ writeFurther ts ++ [']'])

/-- Further siblings, each behind a comma. -/
def writeFurther : List RelationTree → List Char
  | [] => []
  | t :: ts => ',' :: t.write ++ writeFurther ts

end

/-- The expression of a tree. mirrors `serialize` -/
def expression (t : RelationTree) : String :=
  String.ofList t.write

end JoinPlan.RelationTree
