import JoinPlan.Proofs.Json.Document
import JoinPlan.Proofs.Predicate.NodeRoundTrip
/-!
# Predicates as JSON texts

A predicate whose JSON form is written as a text and read again comes back, whatever its texts hold,
as long as the reader of JSON can follow its nesting. A node of a predicate takes two levels of it,
its own object and the array or object behind it, so the reader's 127 levels hold 63 nodes.

Results:
* `Predicate.nesting_toJson`: how deep a JSON form is nested.
* `Predicate.reread?_toJson`: without floats a JSON form is read as it was written.
* `Predicate.documentReadsBack_iff`: which predicates come back from their texts.
-/
namespace JoinPlan.Predicate

mutual

/-- How deep nodes are nested: a comparison has height 1, and a logical node is one higher than its
highest constraint. -/
def height : Predicate → ℕ
  | .logical _ cs => allHeight cs + 1
  | .comparison _ _ _ => 1

def allHeight : List Predicate → ℕ
  | [] => 0
  | p :: ps => max p.height (allHeight ps)

end

mutual

theorem nesting_toJson : ∀ p : Predicate, p.toJson.nesting = 2 * p.height
  | .logical op cs => by
    simp only [toJson, height, Json.nesting, Json.membersNesting, allNesting_allToJson cs]
    omega
  | .comparison op id v => by
    have hv : v.toJson.nesting = 0 := by
      cases v with
      | float x => cases x <;> rfl
      | _ => rfl
    simp [toJson, height, Json.nesting, Json.membersNesting, hv]

theorem allNesting_allToJson : ∀ ps : List Predicate,
    Json.allNesting (allToJson ps) = 2 * allHeight ps
  | [] => rfl
  | p :: ps => by
    rw [allToJson, Json.allNesting, allHeight, nesting_toJson p, allNesting_allToJson ps]
    omega

end

theorem reread?_toJson_value {v : Literal} (h : v.isFloat = false) :
    v.toJson.reread? = some v.toJson := by
  cases v with
  | integer i =>
    have hrange : -2 ^ 63 ≤ i.toInt ∧ i.toInt < 2 ^ 64 :=
      ⟨i.le_toInt, lt_trans i.toInt_lt (by norm_num)⟩
    rw [Literal.toJson, Json.reread?, Json.Number.reread?_integer hrange]
    rfl
  | float x => cases h
  | _ => rfl

mutual

theorem reread?_toJson : ∀ {p : Predicate}, p.HasNoFloats → p.toJson.reread? = some p.toJson
  | .logical op cs, h => by
    simp only [toJson, Json.reread?, Json.rereadMembers?,
      rereadAll?_allToJson (hasNoFloats_logical.1 h)]
    rfl
  | .comparison op id v, h => by
    simp only [toJson, Json.reread?, Json.rereadMembers?,
      reread?_toJson_value (hasNoFloats_comparison.1 h)]
    rfl

theorem rereadAll?_allToJson : ∀ {ps : List Predicate}, (∀ p ∈ ps, p.HasNoFloats) →
    Json.rereadAll? (allToJson ps) = some (allToJson ps)
  | [], _ => rfl
  | p :: ps, h => by
    obtain ⟨hp, hps⟩ := List.forall_mem_cons.1 h
    simp only [allToJson, Json.rereadAll?, reread?_toJson hp, rereadAll?_allToJson hps]
    rfl

end

/-- The text of a JSON form is read as the JSON form, or it is nested too deep. -/
theorem parse?_compactText_toJson {p : Predicate} (h : p.HasNoFloats) :
    Json.parse? p.toJson.compactText.toList = if p.height ≤ 63 then some p.toJson else none := by
  rw [Json.compactText, String.toList_ofList, Json.parse?_compact, nesting_toJson,
    reread?_toJson h, Json.maxDepth]
  exact if_congr (by omega) rfl rfl

/-- **JSON texts.** A predicate without floats whose texts can be quoted comes back from the text of
its JSON form exactly if it is at most 63 nodes high. The text of a higher one is no JSON to the
reader. -/
theorem documentReadsBack_iff {p : Predicate} (htexts : p.HasQuotableTexts)
    (hfloats : p.HasNoFloats) :
    ((Json.parse? p.toJson.compactText.toList).map ofJson? = some (.ok p) ↔ p.height ≤ 63) ∧
    (Json.parse? p.toJson.compactText.toList = none ↔ 63 < p.height) := by
  have hread : ofJson? p.toJson = .ok p :=
    ofJson?_toJson ((isWritable_iff p).2 ⟨htexts, hfloats.hasFiniteFloats⟩)
  rw [parse?_compactText_toJson hfloats]
  split_ifs with h
  · simp [hread, h]
  · simp [h, Nat.lt_of_not_le h]

/-- A predicate below so many logical nodes. -/
def wrapped (p : Predicate) : ℕ → Predicate
  | 0 => p
  | n + 1 => .logical .matchAny [p.wrapped n]

theorem height_wrapped (p : Predicate) (n : ℕ) : (p.wrapped n).height = p.height + n := by
  induction n with
  | zero => rfl
  | succ n ih =>
    rw [wrapped, height, allHeight, allHeight, ih]
    omega

/-- The limit is met from either side, with quotes, a backslash, control characters, characters of
other planes and the least integer. -/
theorem documentReadsBack_iff_of_limit :
    let p : Predicate := .logical .matchAll [.comparison .eq "näme.\"\\x01\\\"" (.text "it's \\ \t𝄞"),
      .comparison .lt "a..b" (.integer (-9223372036854775808))]
    ((p.wrapped 61).HasQuotableTexts ∧ (p.wrapped 61).HasNoFloats ∧
      (Json.parse? (p.wrapped 61).toJson.compactText.toList).map ofJson? = some (.ok (p.wrapped 61))) ∧
    (p.wrapped 62).HasQuotableTexts ∧ (p.wrapped 62).HasNoFloats ∧
      Json.parse? (p.wrapped 62).toJson.compactText.toList = none := by
  intro p
  have htexts : (p.wrapped 61).HasQuotableTexts := by decide
  have hfloats : (p.wrapped 61).HasNoFloats := by decide
  have htexts' : (p.wrapped 62).HasQuotableTexts := by decide
  have hfloats' : (p.wrapped 62).HasNoFloats := by decide
  have hheight : (p.wrapped 61).height ≤ 63 := by
    rw [height_wrapped]
    decide
  have hheight' : 63 < (p.wrapped 62).height := by
    rw [height_wrapped]
    decide
  exact ⟨⟨htexts, hfloats, (documentReadsBack_iff htexts hfloats).1.2 hheight⟩,
    htexts', hfloats', (documentReadsBack_iff htexts' hfloats').2.2 hheight'⟩

end JoinPlan.Predicate
