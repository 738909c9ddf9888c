import JoinPlan.Proofs.Json.Floats
import JoinPlan.Proofs.Predicate.Interchange
/-!
# Floats in JSON texts

The text of a JSON form holds a float as its shortest decimal, which identifies it. But the reader
of JSON scales the digits by a rounded power of ten, so a comparison with a float comes back with a
float of the same sign that may be a few steps away.

Results:
* `Predicate.parse?_compactText_float`: a comparison is read with its float reread.
* `Predicate.floatReadsBack`: a comparison comes back, how far away its float is then, and where it is
  the same.
* `Predicate.float_changed_of_sixteen_digits`: 9007199254740991 comes back as 9007199254740990.
-/
namespace JoinPlan.Predicate
open Magnitude Numeral

/-- Besides the float nothing is changed. -/
theorem parse?_compactText_float (op : ComparisonOperator) (id : String) {negative : Bool}
    {x y : Magnitude}
    (h : Json.Number.reread? (.float negative x) = some (.float negative y)) :
    Json.parse? (comparison op id (.float (.finite negative x))).toJson.compactText.toList =
      some (comparison op id (.float (.finite negative y))).toJson := by
  have hreread : (comparison op id (.float (.finite negative x))).toJson.reread? =
      some (comparison op id (.float (.finite negative y))).toJson := by
    simp only [toJson, Literal.toJson, Json.reread?, Json.rereadMembers?, h]
    rfl
  rw [Json.compactText, String.toList_ofList, Json.parse?_compact, nesting_toJson, hreread]
  rfl

/-- A comparison that is read from a document is lowered if its identifier can be quoted. -/
theorem ofJson?_document_float (op : ComparisonOperator) {id : String} (hid : isQuotable id = true)
    {negative : Bool} {x y : Magnitude}
    (h : Json.Number.reread? (.float negative x) = some (.float negative y)) :
    (Json.parse? (comparison op id (.float (.finite negative x))).toJson.compactText.toList).map
      ofJson? = some (.ok (comparison op id (.float (.finite negative y)))) := by
  have hwritable : (comparison op id (.float (.finite negative y))).isWritable = true := by
    rw [isWritable, hid]
    rfl
  rw [parse?_compactText_float op id h, Option.map_some, ofJson?_toJson hwritable]

/-- **Floats.** A comparison with a float and an identifier that can be quoted is read from the
text of its JSON form, with a float of the same sign in the place of its own, at most five steps
away from it. That is the same float if the written digits, without the point, make a double and
the point is at most twenty-two places away from their end. -/
theorem floatReadsBack (op : ComparisonOperator) {id : String} (hid : isQuotable id = true)
    (negative : Bool) (x : Magnitude) :
    ∃ y : Magnitude,
      (Json.parse? (comparison op id (.float (.finite negative x))).toJson.compactText.toList).map
        ofJson? = some (.ok (comparison op id (.float (.finite negative y)))) ∧
      |y.value - x.value| ≤ 5 * 2 ^ x.exponent ∧
      ((∃ f : Magnitude, f.value = (Json.floatForm.numeral negative x).coefficient) →
        -22 ≤ (Json.floatForm.numeral negative x).power ∧
          (Json.floatForm.numeral negative x).power ≤ 22 → y = x) := by
  obtain ⟨y, hread, hclose, hexact⟩ := Json.Number.exists_reread?_float negative x
  exact ⟨y, ofJson?_document_float op hid hread, hclose, hexact⟩

/-- A float of few digits comes back as it is. -/
theorem floatReadsBack_of_few_digits :
    let x : Magnitude := ⟨6755399441055744, -52, by decide, by decide, by decide⟩
    let p : Predicate := .comparison .lt "it's a" (.float (.finite true x))
    isQuotable "it's a" = true ∧ x.value = 3 / 2 ∧
      (Json.parse? p.toJson.compactText.toList).map ofJson? = some (.ok p) := by
  intro x p
  have hshortest : x.shortest .toEven = ⟨15, -1⟩ := shortest_eq (by decide) (by decide)
  have hnumeral : Json.floatForm.numeral true x = ⟨some '-', ['1'], some ['5'], none⟩ := by
    rw [Notation.numeral_eq Json.Number.floatForm_tie (by decide), hshortest]
    decide
  have hfifteen : (⟨8444249301319680, -49, by decide, by decide, by decide⟩ : Magnitude).value =
      (15 : ℕ) := by norm_num [value]
  have hid : isQuotable "it's a" = true := by decide
  obtain ⟨y, hread, -, hexact⟩ := floatReadsBack .lt hid true x
  rw [hnumeral] at hexact
  rw [hexact ⟨_, hfifteen⟩ (by decide)] at hread
  exact ⟨hid, by norm_num [value, x], hread⟩

/-- The greatest odd whole number among the doubles does not, and it is one step away that comes
back. -/
theorem float_changed_of_sixteen_digits :
    let x : Magnitude := ⟨9007199254740991, 0, by decide, by decide, by decide⟩
    let y : Magnitude := ⟨9007199254740990, 0, by decide, by decide, by decide⟩
    let p : Predicate := .comparison .eq "a" (.float (.finite false x))
    let q : Predicate := .comparison .eq "a" (.float (.finite false y))
    isQuotable "a" = true ∧
      (Json.parse? p.toJson.compactText.toList).map ofJson? = some (.ok q) ∧
      q.sameValue p = false := by
  intro x y p q
  have hshortest : x.shortest .toEven = ⟨9007199254740991, 0⟩ :=
    shortest_eq (by decide) (by decide)
  have hnumeral : Json.floatForm.numeral false x =
      ⟨none, "9007199254740991".toList, some ['0'], none⟩ := by
    rw [Notation.numeral_eq Json.Number.floatForm_tie (by decide), hshortest]
    decide
  have hread : Json.Number.reread? (.float false x) = some (.float false y) := by
    rw [Json.Number.reread?, Json.Number.numeral, hnumeral]
    decide
  exact ⟨by decide, ofJson?_document_float .eq (by decide) hread, by decide⟩

end JoinPlan.Predicate
