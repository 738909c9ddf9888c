import JoinPlan.Proofs.Predicate.Nodes
import JoinPlan.Proofs.Predicate.Values
/-!
# Reading JSON forms back

The JSON form can hold every text, but its reader refuses the texts that cannot be quoted; and it
has no infinities, so null stands for a float that is not finite. What the reader makes of a JSON
form is said for every predicate: it fails because of a text, or it gives the predicate with null in
the place of those floats.

Results:
* `Predicate.ofJson?_toJson_of_quotable`: what is read if all texts can be quoted.
* `Predicate.hasQuotableTexts_of_ofJson?_toJson`, `Predicate.reason_of_ofJson?_toJson`: nothing is
  read otherwise, and why.
* `Predicate.nodeReadsBack_iff`: which predicates are read back from their JSON forms.
-/
namespace JoinPlan

namespace Literal

/-- The value that is left of a value in JSON. -/
def settled : Literal → Literal
  | .float x => if x.isFinite then .float x else .null
  | v => v

theorem ofJson?_toJson_eq (v : Literal) : ofJson? v.toJson =
    if v.hasQuotableText then .ok v.settled else .error .unquotableValue := by
  cases v with
  | integer i => rw [toJson, ofJson?, ofNumber?_integer]; rfl
  | float x => cases x <;> rfl
  | text t => rfl
  | boolean b => rfl
  | null => rfl

theorem settled_of_hasFiniteFloat {v : Literal} (h : v.hasFiniteFloat = true) : v.settled = v := by
  cases v with
  | float x => exact if_pos h
  | _ => rfl

/-- What is left of a float that is not finite is no equal value. -/
theorem hasFiniteFloat_of_sameValue_settled {v : Literal} (h : v.settled.sameValue v = true) :
    v.hasFiniteFloat = true := by
  cases v with
  | float x =>
    cases x with
    | finite negative x => rfl
    | infinite negative => cases h
    | nan => cases h
  | _ => rfl

end Literal

namespace Predicate

mutual

/-- The predicate with null in the place of every float that is not finite. -/
def settled : Predicate → Predicate
  | .logical op cs => .logical op (allSettled cs)
  | .comparison op id v => .comparison op id v.settled

def allSettled : List Predicate → List Predicate
  | [] => []
  | p :: ps => p.settled :: allSettled ps

end

/-! ## Reading a JSON form -/

theorem ofJson?_toJson_logical (op : LogicalOperator) (cs : List Predicate) :
    ofJson? (logical op cs).toJson = (allOfJson? 0 (allToJson cs)).map (.logical op) := by
  have hnode : logicalOfMembers [("type", .text "logical"), ("operator", .text op.keyword),
      ("constraints", .array (allToJson cs))] = .ok (op, ⟨allToJson cs, by simp⟩) :=
    logicalOfMembers_eq_ok_iff.2 ⟨rfl, rfl⟩
  have htype : Json.member? "type" [("type", .text "logical"), ("operator", .text op.keyword),
      ("constraints", .array (allToJson cs))] = some (.text "logical") := rfl
  rw [toJson, ofJson?, htype]
  simp only [hnode]

theorem ofJson?_toJson_comparison (op : ComparisonOperator) (id : String) (v : Literal) :
    ofJson? (comparison op id v).toJson =
      if isQuotable id then
        if v.hasQuotableText then .ok (.comparison op id v.settled)
        else .error ⟨[], .unquotableValue⟩
      else .error ⟨[], .unquotableIdentifier⟩ := by
  have htype : Json.member? "type" [("type", .text "comparison"), ("operator", .text op.keyword),
      ("args", .object [("identifier", .text id), ("value", v.toJson)])] =
        some (.text "comparison") := rfl
  have hword : operatorWord [("type", .text "comparison"), ("operator", .text op.keyword),
      ("args", .object [("identifier", .text id), ("value", v.toJson)])] = .ok op.keyword := rfl
  have hargs : Json.member? "args" [("type", .text "comparison"), ("operator", .text op.keyword),
      ("args", .object [("identifier", .text id), ("value", v.toJson)])] =
        some (.object [("identifier", .text id), ("value", v.toJson)]) := rfl
  have hid : Json.member? "identifier" [("identifier", .text id), ("value", v.toJson)] =
      some (.text id) := rfl
  have hvalue : Json.member? "value" [("identifier", .text id), ("value", v.toJson)] =
      some v.toJson := rfl
  rw [toJson, ofJson?, htype]
  simp only [comparisonOfMembers, hword, bind, Except.bind, ComparisonOperator.ofKeyword?_keyword,
    hargs, hid, hvalue, Literal.ofJson?_toJson_eq]
  split_ifs <;> rfl

theorem allSettled_eq_map (ps : List Predicate) : allSettled ps = ps.map settled := by
  induction ps with
  | nil => rfl
  | cons p ps ih => rw [allSettled, ih, List.map_cons]

/-- **Read.** If all texts can be quoted, only the floats that are not finite are lost. -/
theorem ofJson?_toJson_of_quotable (p : Predicate) :
    p.HasQuotableTexts → ofJson? p.toJson = .ok p.settled := by
  induction p using induction with
  | logical op cs ih =>
    intro h
    rw [hasQuotableTexts_logical] at h
    have hcs : allOfJson? 0 (allToJson cs) = .ok (allSettled cs) := by
      rw [allOfJson?_eq_ok_iff, allToJson_eq_map, allSettled_eq_map, List.forall₂_map_left_iff,
        List.forall₂_map_right_iff, List.forall₂_same]
      exact fun c hc => ih c hc (h c hc)
    rw [ofJson?_toJson_logical, hcs]
    rfl
  | comparison op id v =>
    intro h
    rw [hasQuotableTexts_comparison] at h
    rw [ofJson?_toJson_comparison, if_pos h.1, if_pos h.2]
    rfl

/-- A text that cannot be quoted is met by the reader wherever it stands. -/
theorem hasQuotableTexts_of_ofJson?_toJson (p : Predicate) :
    ∀ q, ofJson? p.toJson = .ok q → p.HasQuotableTexts := by
  induction p using induction with
  | logical op cs ih =>
    intro q h
    rw [ofJson?_toJson_logical] at h
    rw [hasQuotableTexts_logical]
    cases hcs : allOfJson? 0 (allToJson cs) with
    | error e => rw [hcs] at h; cases h
    | ok qs =>
      rw [allOfJson?_eq_ok_iff, allToJson_eq_map, List.forall₂_map_left_iff] at hcs
      intro c hc
      obtain ⟨i, hi, rfl⟩ := List.getElem_of_mem hc
      exact ih _ hc _ (hcs.get hi (hcs.length_eq ▸ hi))
  | comparison op id v =>
    intro q h
    rw [ofJson?_toJson_comparison] at h
    rw [hasQuotableTexts_comparison]
    split_ifs at h with hid hv
    exact ⟨hid, hv⟩

/-- Of a JSON form only texts are refused. -/
theorem reason_of_ofJson?_toJson (p : Predicate) : ∀ e, ofJson? p.toJson = .error e →
    e.reason = .unquotableIdentifier ∨ e.reason = .unquotableValue := by
  induction p using induction with
  | logical op cs ih =>
    intro e h
    rw [ofJson?_toJson_logical, map_eq_error_iff] at h
    obtain ⟨k, v, e', hk, hread, rfl, -⟩ := allOfJson?_eq_error_iff.1 h
    have hv := List.mem_of_getElem? hk
    rw [allToJson_eq_map] at hv
    obtain ⟨c, hc, rfl⟩ := List.mem_map.1 hv
    exact ih c hc e' hread
  | comparison op id v =>
    intro e h
    rw [ofJson?_toJson_comparison] at h
    split_ifs at h with hid hv
    · cases h; exact .inr rfl
    · cases h; exact .inl rfl

/-! ## What is lost -/

mutual

theorem settled_of_hasFiniteFloats : ∀ {p : Predicate}, p.HasFiniteFloats → p.settled = p
  | .logical op cs, h => by
    rw [settled, allSettled_of_hasFiniteFloats (hasFiniteFloats_logical.1 h)]
  | .comparison op id v, h => by
    rw [settled, Literal.settled_of_hasFiniteFloat (hasFiniteFloats_comparison.1 h)]

theorem allSettled_of_hasFiniteFloats : ∀ {ps : List Predicate},
    (∀ p ∈ ps, p.HasFiniteFloats) → allSettled ps = ps
  | [], _ => rfl
  | p :: ps, h => by
    obtain ⟨hp, hps⟩ := List.forall_mem_cons.1 h
    rw [allSettled, settled_of_hasFiniteFloats hp, allSettled_of_hasFiniteFloats hps]

end

mutual

theorem hasFiniteFloats_of_sameValue_settled : ∀ {p : Predicate},
    p.settled.sameValue p = true → p.HasFiniteFloats
  | .logical op cs, h => by
    simp only [settled, sameValue, Bool.and_eq_true] at h
    exact hasFiniteFloats_logical.2 (hasFiniteFloats_of_allSameValue_settled h.2)
  | .comparison op id v, h => by
    simp only [settled, sameValue, Bool.and_eq_true] at h
    exact hasFiniteFloats_comparison.2 (Literal.hasFiniteFloat_of_sameValue_settled h.2)

theorem hasFiniteFloats_of_allSameValue_settled : ∀ {ps : List Predicate},
    allSameValue (allSettled ps) ps = true → ∀ p ∈ ps, p.HasFiniteFloats
  | [], _ => by simp
  | p :: ps, h => by
    simp only [allSettled, allSameValue, Bool.and_eq_true] at h
    exact List.forall_mem_cons.2 ⟨hasFiniteFloats_of_sameValue_settled h.1,
      hasFiniteFloats_of_allSameValue_settled h.2⟩

end

/-- **JSON forms.** A predicate is read back from its JSON form, as itself or as an equal one,
exactly if all its texts can be quoted and all its floats are finite. A text that cannot be quoted
makes the reader fail, for that reason. If there is none, every float that is not finite comes back
as null, and the predicate is another one. -/
theorem nodeReadsBack_iff (p : Predicate) :
    (ofJson? p.toJson = .ok p ↔ p.HasQuotableTexts ∧ p.HasFiniteFloats) ∧
    ((∃ q, ofJson? p.toJson = .ok q ∧ q.sameValue p = true) ↔
      p.HasQuotableTexts ∧ p.HasFiniteFloats) ∧
    (¬ p.HasQuotableTexts → ∃ e, ofJson? p.toJson = .error e ∧
      (e.reason = .unquotableIdentifier ∨ e.reason = .unquotableValue)) ∧
    (p.HasQuotableTexts → ¬ p.HasFiniteFloats →
      ofJson? p.toJson = .ok p.settled ∧ p.settled ≠ p ∧ p.settled.sameValue p = false) := by
  have hback : p.HasQuotableTexts ∧ p.HasFiniteFloats → ofJson? p.toJson = .ok p := fun h =>
    ofJson?_toJson ((isWritable_iff p).2 h)
  have hsame : ∀ q, ofJson? p.toJson = .ok q → q.sameValue p = true →
      p.HasQuotableTexts ∧ p.HasFiniteFloats := by
    intro q hq hqp
    have hquotable := hasQuotableTexts_of_ofJson?_toJson p q hq
    rw [ofJson?_toJson_of_quotable p hquotable] at hq
    cases hq
    exact ⟨hquotable, hasFiniteFloats_of_sameValue_settled hqp⟩
  refine ⟨⟨fun h => ?_, hback⟩, ⟨fun ⟨q, hq, hqp⟩ => hsame q hq hqp, fun h => ?_⟩, fun h => ?_,
    fun hquotable hfinite => ?_⟩
  · exact (isWritable_iff p).1 (isWritable_of_ofJson? h)
  · exact ⟨p, hback h, sameValue_self ((isWritable_iff p).2 h)⟩
  · cases hread : ofJson? p.toJson with
    | ok q => exact absurd (hasQuotableTexts_of_ofJson?_toJson p q hread) h
    | error e => exact ⟨e, rfl, reason_of_ofJson?_toJson p e hread⟩
  · have hread := ofJson?_toJson_of_quotable p hquotable
    refine ⟨hread, fun hself => ?_, Bool.eq_false_iff.2 fun hqp => ?_⟩
    · rw [hself] at hread
      exact hfinite ((isWritable_iff p).1 (isWritable_of_ofJson? hread)).2
    · exact hfinite (hasFiniteFloats_of_sameValue_settled hqp)

/-- An infinity among values of other kinds, and a text with quotes of both kinds. -/
theorem nodeReadsBack_iff_of_mixed :
    let p : Predicate := .logical .matchAny [.comparison .lt "a.b" (.float (.infinite true)),
      .comparison .eq "say \"c\"" (.text "it's"), .logical .matchAll []]
    let q : Predicate := .logical .matchAll [.comparison .neq "a.b" (.text "it's \"b\"")]
    (p.HasQuotableTexts ∧ ¬ p.HasFiniteFloats ∧ ofJson? p.toJson = .ok p.settled ∧
      p.settled ≠ p ∧ p.settled.sameValue p = false) ∧
    ¬ q.HasQuotableTexts ∧ ∃ e, ofJson? q.toJson = .error e ∧
      (e.reason = .unquotableIdentifier ∨ e.reason = .unquotableValue) := by
  intro p q
  have hp : p.HasQuotableTexts := by decide
  have hp' : ¬ p.HasFiniteFloats := by decide
  have hq : ¬ q.HasQuotableTexts := by decide
  exact ⟨⟨hp, hp', (nodeReadsBack_iff p).2.2.2 hp hp'⟩, hq, (nodeReadsBack_iff q).2.2.1 hq⟩

end Predicate
end JoinPlan
