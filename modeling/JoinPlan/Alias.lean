import JoinPlan.Predicate.Basic
/-!
# Aliases

An alias is a short identifier that stands for a canonical one. A look-up is made once: what an
alias stands for is not looked up again.

Results:
* `AliasMap.get?_insert_self`, `AliasMap.get?_insert_of_ne`: an insertion changes one alias.
-/
namespace JoinPlan

/-- Aliases and the identifiers they stand for. No alias occurs twice. mirrors `AliasMap` -/
structure AliasMap where
  entries : List (String × String)
  distinct : (entries.map (·.1)).Nodup
  deriving DecidableEq, Repr

namespace AliasMap

def empty : AliasMap := ⟨[], by simp⟩

/-- Makes `short` stand for `canonical`, whatever it stood for before. mirrors `AliasMap.insert` -/
def insert (m : AliasMap) (short canonical : String) : AliasMap where
  entries := m.entries.filter (·.1 ≠ short) ++ [(short, canonical)]
  distinct := by
    rw [List.map_append, List.nodup_append]
    refine ⟨(List.filter_sublist.map _).nodup m.distinct, by simp, ?_⟩
    simp only [List.mem_map, List.mem_filter, List.map_cons, List.map_nil, List.mem_singleton]
    rintro _ ⟨e, ⟨-, h⟩, rfl⟩ _ rfl
    simpa using h

/-- mirrors `AliasMap.from_iter` -/
def ofList (entries : List (String × String)) : AliasMap :=
  entries.foldl (fun m e => m.insert e.1 e.2) empty

/-- What an alias stands for. mirrors `AliasMap.get` -/
def get? (m : AliasMap) (short : String) : Option String :=
  (m.entries.find? (·.1 = short)).map (·.2)

/-- mirrors `AliasMap.len` -/
def size (m : AliasMap) : Nat := m.entries.length

/-- mirrors `AliasMap.is_empty` -/
def isEmpty (m : AliasMap) : Bool := m.entries.isEmpty

/-- The entries in the order of their aliases, by code points. -/
def sorted (m : AliasMap) : List (String × String) :=
  m.entries.mergeSort fun a b => decide (¬ b.1 < a.1)

/-- The canonical form of an identifier: what it stands for if it is an alias, else itself.
mirrors `AliasMap.resolve` -/
def resolve (m : AliasMap) (identifier : String) : String :=
  (m.get? identifier).getD identifier

theorem get?_insert_self (m : AliasMap) (short canonical : String) :
    (m.insert short canonical).get? short = some canonical := by
  have h : (m.entries.filter (·.1 ≠ short)).find? (·.1 = short) = none := by
    rw [List.find?_eq_none]
    intro e he
    simpa using (List.mem_filter.1 he).2
  simp only [insert, get?, List.find?_append, h]
  simp

theorem get?_insert_of_ne (m : AliasMap) {short other : String} (canonical : String)
    (h : other ≠ short) : (m.insert short canonical).get? other = m.get? other := by
  have e : (m.entries.filter (·.1 ≠ short)).find? (·.1 = other) =
      m.entries.find? (·.1 = other) := by
    rw [List.find?_filter]
    congr 1
    funext x
    by_cases hx : x.1 = other <;> simp [hx, h]
  have e' : [(short, canonical)].find? (·.1 = other) = none := by
    simp [Ne.symm h]
  simp only [insert, get?, List.find?_append, e, e', Option.or_none]

end AliasMap

/-- The canonical form of an identifier; without aliases every identifier is canonical.
mirrors `resolve_identifier` -/
def resolveIdentifier (aliases : Option AliasMap) (identifier : String) : String :=
  match aliases with
  | some m => m.resolve identifier
  | none => identifier

/-- The predicate with every identifier in its canonical form. mirrors `resolve_predicate` -/
def Predicate.resolve (aliases : Option AliasMap) (p : Predicate) : Predicate :=
  p.mapIdentifiers (resolveIdentifier aliases)

end JoinPlan
