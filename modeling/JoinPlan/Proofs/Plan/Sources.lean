import JoinPlan.Plan
import JoinPlan.Proofs.Predicate.Nodes
import JoinPlan.Proofs.Predicate.RoundTrip
/-!
# Plans from text and from JSON

A predicate comes as a text or as JSON. Both ways lead to the predicates that can be written and to
no others, and what is compiled depends on the predicate alone. So a predicate may change from one
form into the other on its way.

Results:
* `Predicate.exists_parse_iff`, `Predicate.exists_ofJson?_iff`: which predicates are read.
* `Compiled.ofText_value`, `Compiled.ofJson_value`: what is read is compiled.
* `Compiled.sources_agree`: compiling either form of what was read gives the same result.
-/
namespace JoinPlan

namespace Predicate

theorem isWritable_of_parse {s : List Char} {p : Predicate} (h : parse s = .ok p) :
    p.isWritable = true := by
  obtain ⟨u, -, -, hu, -⟩ := document_of_parse h
  exact isWritable_of_node p u hu

/-- Texts are read as the predicates that can be written. -/
theorem exists_parse_iff {p : Predicate} :
    (∃ t : String, parse t.toList = .ok p) ↔ p.isWritable = true :=
  ⟨fun ⟨_, h⟩ => isWritable_of_parse h, fun h => ⟨p.text, parse_text h⟩⟩

/-- JSON values are read as the predicates that can be written. -/
theorem exists_ofJson?_iff {p : Predicate} :
    (∃ j, ofJson? j = .ok p) ↔ p.isWritable = true :=
  ⟨fun ⟨_, h⟩ => isWritable_of_ofJson? h, fun h => ⟨p.toJson, ofJson?_toJson h⟩⟩

end Predicate

namespace Compiled

variable (strict : Bool) (aliases : Option AliasMap) {p : Predicate}

theorem ofText_value {t : String} (h : Predicate.parse t.toList = .ok p) :
    (ofText strict aliases t).value = (ofPredicate strict aliases p).value := by
  rw [ofText, Logged.bind_value, Predicate.read, h]

theorem ofJson_value {j : Json} (h : Predicate.ofJson? j = .ok p) :
    (ofJson strict aliases j).value = (ofPredicate strict aliases p).value := by
  rw [ofJson, h]

/-- **Sources.** Texts and JSON values are read as the same predicates, those whose identifiers and
text values can be quoted and whose floats are finite. What is compiled from a text is compiled from
the JSON form and from the text form of its predicate too, in success and in failure, and so is what
is compiled from a JSON value from the text form of its predicate. -/
theorem sources_agree (p : Predicate) :
    ((∃ t : String, Predicate.parse t.toList = .ok p) ↔ p.isWritable = true) ∧
    ((∃ j, Predicate.ofJson? j = .ok p) ↔ p.isWritable = true) ∧
    (∀ t : String, Predicate.parse t.toList = .ok p →
      (ofJson strict aliases p.toJson).value = (ofText strict aliases t).value ∧
      (ofText strict aliases p.text).value = (ofText strict aliases t).value) ∧
    ∀ j, Predicate.ofJson? j = .ok p →
      (ofText strict aliases p.text).value = (ofJson strict aliases j).value := by
  refine ⟨Predicate.exists_parse_iff, Predicate.exists_ofJson?_iff, fun t ht => ?_, fun j hj => ?_⟩
  · have hp := Predicate.isWritable_of_parse ht
    rw [ofText_value strict aliases ht, ofText_value strict aliases (Predicate.parse_text hp),
      ofJson_value strict aliases (Predicate.ofJson?_toJson hp)]
    exact ⟨rfl, rfl⟩
  · have hp := Predicate.isWritable_of_ofJson? hj
    rw [ofText_value strict aliases (Predicate.parse_text hp), ofJson_value strict aliases hj]

/-- A number one beyond the integers of 64 bits is a double in either form. -/
theorem sources_agree_beyond_integers :
    let p : Predicate := .comparison .gt "a.b"
      (.float (.finite false ⟨4503599627370496, 11, by decide, by decide, by decide⟩))
    let t := "gt:['a.b',9223372036854775808] "
    let j : Json := .object [("type", .text "comparison"), ("operator", .text "gt"),
      ("args", .object [("value", .number (.integer 9223372036854775808)),
        ("identifier", .text "a.b")])]
    (Predicate.parse t.toList = .ok p ∧
      (ofJson true none p.toJson).value = (ofText true none t).value ∧
      (ofText true none p.text).value = (ofText true none t).value) ∧
    Predicate.ofJson? j = .ok p ∧
      (ofText true none p.text).value = (ofJson true none j).value := by
  intro p t j
  have ht : Predicate.parse t.toList = .ok p := by
    subst p t
    rw [Predicate.parse, Predicate.parsePrefix, Parser.node]
    rfl
  have hj : Predicate.ofJson? j = .ok p :=
    (Predicate.ofJson?_eq_ok_iff p j).2 (.comparison rfl rfl rfl rfl (by decide) rfl rfl)
  obtain ⟨-, -, hread, hlowered⟩ := sources_agree true none p
  exact ⟨⟨ht, hread t ht⟩, hj, hlowered j hj⟩

end Compiled
end JoinPlan
