import JoinPlan.Proofs.Plan.Identifiers
import JoinPlan.Proofs.Plan.Sources
import JoinPlan.Proofs.Predicate.Values
/-!
# Forms of what is compiled

What is read can be written, but an alias may stand for a text that cannot be quoted, and nothing
looks at it after it has taken the place of the alias. So the text form and the JSON form of a
canonical predicate are read back unless such a text has come into it.

Results:
* `Compiled.exists_resolve_of_ofText`, `Compiled.exists_resolve_of_ofJson`: what is compiled is the
  canonical form of a predicate that can be written.
* `Predicate.isWritable_resolve_iff`: when the canonical form can be written.
* `Compiled.forms_readBack_iff`: when the forms of what is compiled are read back.
-/
namespace JoinPlan

/-- An identifier that cannot be quoted, where it could be before, is what an alias stands for. -/
theorem get?_of_not_isQuotable_resolveIdentifier {aliases : Option AliasMap} {id : String}
    (hid : isQuotable id = true) (h : isQuotable (resolveIdentifier aliases id) = false) :
    aliases.bind (·.get? id) = some (resolveIdentifier aliases id) := by
  cases aliases with
  | none => exact absurd (hid.symm.trans h) (by decide)
  | some m =>
    rw [resolveIdentifier, AliasMap.resolve] at h ⊢
    cases hm : m.get? id with
    | none => rw [hm] at h; exact absurd (hid.symm.trans h) (by decide)
    | some canonical => exact hm

namespace Predicate

variable {aliases : Option AliasMap} {p : Predicate}

/-- Nothing but an identifier keeps the canonical form of a predicate from being written. -/
theorem isWritable_resolve_iff (hp : p.isWritable = true) :
    (p.resolve aliases).isWritable = true ↔
      ∀ id ∈ (p.resolve aliases).identifiers, isQuotable id = true := by
  obtain ⟨⟨-, hvalues⟩, hfinite⟩ := (isWritable_iff p).1 hp
  rw [isWritable_iff, HasQuotableTexts, HasFiniteFloats, resolve, values_mapIdentifiers]
  exact ⟨fun h => h.1.1, fun h => ⟨⟨h, hvalues⟩, hfinite⟩⟩

theorem get?_of_mem_identifiers_resolve (hp : p.isWritable = true) {id : String}
    (hid : id ∈ (p.resolve aliases).identifiers) (h : isQuotable id = false) :
    ∃ short ∈ p.identifiers, aliases.bind (·.get? short) = some id := by
  rw [resolve, identifiers_mapIdentifiers] at hid
  obtain ⟨short, hshort, rfl⟩ := List.mem_map.1 hid
  have hquotable := ((isWritable_iff p).1 hp).1.1 short hshort
  exact ⟨short, hshort, get?_of_not_isQuotable_resolveIdentifier hquotable h⟩

end Predicate

namespace Compiled

variable {strict : Bool} {aliases : Option AliasMap} {c : Compiled}

theorem exists_resolve_of_ofText {t : String} (h : (ofText strict aliases t).value = .ok c) :
    ∃ p : Predicate, p.isWritable = true ∧ c.predicate = p.resolve aliases := by
  cases ht : Predicate.parse t.toList with
  | error e => rw [ofText, Logged.bind_value, Predicate.read, ht] at h; cases h
  | ok p =>
    rw [ofText_value strict aliases ht] at h
    exact ⟨p, Predicate.isWritable_of_parse ht, (ofPredicate_eq_ok_iff.1 h).2⟩

theorem exists_resolve_of_ofJson {j : Json} (h : (ofJson strict aliases j).value = .ok c) :
    ∃ p : Predicate, p.isWritable = true ∧ c.predicate = p.resolve aliases := by
  cases hj : Predicate.ofJson? j with
  | error e => rw [ofJson, hj] at h; cases h
  | ok p =>
    rw [ofJson_value strict aliases hj] at h
    exact ⟨p, Predicate.isWritable_of_ofJson? hj, (ofPredicate_eq_ok_iff.1 h).2⟩

/-- **Forms of what is compiled.** Whatever is compiled, from a text or from a JSON value, its
predicate is read back from its text form if and only if all its identifiers can be quoted, and so
it is from its JSON form. An identifier that cannot be quoted is one that an alias stands for. -/
theorem forms_readBack_iff
    (h : (∃ t : String, (ofText strict aliases t).value = .ok c) ∨
      ∃ j : Json, (ofJson strict aliases j).value = .ok c) :
    (Predicate.parse c.predicate.text.toList = .ok c.predicate ↔
      ∀ id ∈ c.predicate.identifiers, isQuotable id = true) ∧
    (Predicate.ofJson? c.predicate.toJson = .ok c.predicate ↔
      ∀ id ∈ c.predicate.identifiers, isQuotable id = true) ∧
    ∀ id ∈ c.predicate.identifiers, isQuotable id = false →
      ∃ short, aliases.bind (·.get? short) = some id := by
  obtain ⟨p, hp, hc⟩ : ∃ p : Predicate, p.isWritable = true ∧ c.predicate = p.resolve aliases :=
    h.elim (fun ⟨_, ht⟩ => exists_resolve_of_ofText ht) fun ⟨_, hj⟩ => exists_resolve_of_ofJson hj
  rw [hc, ← Predicate.isWritable_resolve_iff hp]
  refine ⟨⟨Predicate.isWritable_of_parse, Predicate.parse_text⟩,
    ⟨Predicate.isWritable_of_ofJson?, Predicate.ofJson?_toJson⟩, fun id hid hunquotable => ?_⟩
  obtain ⟨short, -, hshort⟩ := Predicate.get?_of_mem_identifiers_resolve hp hid hunquotable
  exact ⟨short, hshort⟩

/-- The one alias `a`. -/
def singleAlias (canonical : String) : AliasMap := ⟨[("a", canonical)], List.nodup_singleton _⟩

/-- Whatever the alias stands for takes its place, if no segment of it is empty. -/
theorem ofText_singleAlias {canonical : String} (h : hasEmptySegment canonical = false) :
    (ofText true (singleAlias canonical) "eq: ['a', 1]").value =
      .ok ⟨.comparison .eq canonical (.integer 1), ⟨.ofPaths [relationPath canonical]⟩⟩ := by
  have hparse : Predicate.parse "eq: ['a', 1]".toList = .ok (.comparison .eq "a" (.integer 1)) := by
    rw [Predicate.parse, Predicate.parsePrefix, Parser.node]
    rfl
  have hresolve : resolveIdentifier (some (singleAlias canonical)) "a" = canonical := by
    simp [resolveIdentifier, AliasMap.resolve, AliasMap.get?, singleAlias]
  rw [ofText_value _ _ hparse, ofPredicate_value, Predicate.canonicalIdentifiers, Predicate.resolve,
    Predicate.identifiers, Predicate.mapIdentifiers, List.map_singleton, hresolve,
    Plan.ofIdentifiers, if_pos rfl, List.find?_singleton, h]
  rfl

/-- An alias for an identifier with quotes of one kind does no harm to either form. -/
theorem forms_readBack_iff_of_apostrophe :
    let p : Predicate := .comparison .eq "it's b.c" (.integer 1)
    (ofText true (singleAlias "it's b.c") "eq: ['a', 1]").value = .ok ⟨p, ⟨.ofPaths [["it's b"]]⟩⟩ ∧
      Predicate.parse p.text.toList = .ok p ∧ Predicate.ofJson? p.toJson = .ok p := by
  intro p
  have h := ofText_singleAlias (show hasEmptySegment "it's b.c" = false by decide)
  obtain ⟨htext, hjson, -⟩ := forms_readBack_iff (.inl ⟨_, h⟩)
  exact ⟨h, htext.2 (by decide), hjson.2 (by decide)⟩

/-- An alias for an identifier with quotes of both kinds passes even strict rules, and neither form
of what is compiled is read back. -/
theorem not_readBack_of_both_quotes :
    ∃ c : Compiled,
      (ofText true (singleAlias "it's \"x\"") "eq: ['a', 1]").value = .ok c ∧
      Predicate.parse c.predicate.text.toList ≠ .ok c.predicate ∧
      Predicate.ofJson? c.predicate.toJson ≠ .ok c.predicate := by
  refine ⟨_, ofText_singleAlias (by decide), fun h => ?_, fun h => ?_⟩
  · exact absurd (Predicate.isWritable_of_parse h) (by decide)
  · exact absurd (Predicate.isWritable_of_ofJson? h) (by decide)

end Compiled
end JoinPlan
