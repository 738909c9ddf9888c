/-!
# Relation paths

An identifier is a list of segments with dots between them. The last segment names a field; the
segments in front of it name the relations that lead to the field.

Results:
* `not_mem_of_mem_segments`: no segment holds a dot.
* `relationPath_append`: the path of a field is what stands in front of it.
* `relationPath_eq_iff`: identifiers with one path differ in their fields only.
-/
namespace JoinPlan

/-- The dot-separated segments of an identifier, one more than there are dots. -/
def segments (identifier : String) : List String :=
  (identifier.toList.splitOn '.').map String.ofList

/-- The relations that lead to the field of an identifier: all segments but the last.
mirrors `relation_segments` -/
def relationPath (identifier : String) : List String :=
  (segments identifier).dropLast

/-- Whether some segment of an identifier is empty. mirrors the test in `check_identifiers` -/
def hasEmptySegment (identifier : String) : Bool :=
  (segments identifier).contains ""

theorem segments_ne_nil (identifier : String) : segments identifier ≠ [] := by
  simp [segments, List.splitOn_ne_nil]

theorem segments_of_no_dot {name : String} (h : '.' ∉ name.toList) : segments name = [name] := by
  rw [segments, List.splitOn_eq_singleton h, List.map_singleton, String.ofList_toList]

theorem segments_append (before after : String) :
    segments (before ++ "." ++ after) = segments before ++ segments after := by
  have happend : (before ++ "." ++ after).toList = before.toList ++ '.' :: after.toList := by simp
  rw [segments, happend, List.splitOn_append_cons_self, List.map_append]
  rfl

theorem not_mem_of_mem_splitOn {sep : Char} {s f : List Char} (h : f ∈ s.splitOn sep) :
    sep ∉ f := by
  induction s generalizing f with
  | nil =>
    rw [List.splitOn_nil, List.mem_singleton] at h
    simp [h]
  | cons c s ih =>
    rw [List.splitOn_cons_eq_if_modifyHead] at h
    split at h
    · rcases List.mem_cons.1 h with rfl | h
      · simp
      · exact ih h
    · rename_i hc
      obtain ⟨g, gs, hg⟩ := List.exists_cons_of_ne_nil (List.splitOn_ne_nil sep s)
      rw [hg] at h ih
      rcases List.mem_cons.1 h with rfl | h
      · have hsep : sep ≠ c := fun h => hc (by simp [h])
        simp [hsep, ih (f := g) (by simp)]
      · exact ih (by simp [h])

theorem not_mem_of_mem_segments {identifier name : String} (h : name ∈ segments identifier) :
    '.' ∉ name.toList := by
  obtain ⟨f, hf, rfl⟩ := List.mem_map.1 h
  rw [String.toList_ofList]
  exact not_mem_of_mem_splitOn hf

theorem segments_injective {identifier other : String} (h : segments identifier = segments other) :
    identifier = other := by
  have hfields := List.map_inj_right (fun _ _ => String.ofList_inj.1) |>.1 h
  have hjoin := congrArg (List.intercalate ['.']) hfields
  rwa [List.intercalate_splitOn, List.intercalate_splitOn, String.toList_inj] at hjoin

theorem hasEmptySegment_iff {identifier : String} :
    hasEmptySegment identifier = true ↔ "" ∈ segments identifier := by
  rw [hasEmptySegment, List.contains_iff_mem]

theorem hasEmptySegment_eq_false_iff {identifier : String} :
    hasEmptySegment identifier = false ↔ "" ∉ segments identifier := by
  rw [← hasEmptySegment_iff, Bool.not_eq_true]

/-! ## Fields -/

/-- An identifier is a field of the root, or it ends with a field behind its last dot. -/
theorem exists_field (identifier : String) : '.' ∉ identifier.toList ∨
    ∃ before field, '.' ∉ field.toList ∧ identifier = before ++ "." ++ field := by
  by_cases h : '.' ∈ identifier.toList
  · obtain ⟨field, before, heq, hfield⟩ :=
      List.eq_append_cons_of_mem (List.mem_reverse.2 h)
    refine .inr ⟨.ofList before.reverse, .ofList field.reverse, by simpa using hfield, ?_⟩
    rw [← String.toList_inj, ← List.reverse_reverse identifier.toList, heq]
    simp
  · exact .inl h

/-- The path of a field is all that stands in front of it. -/
theorem relationPath_append (before : String) {field : String} (h : '.' ∉ field.toList) :
    relationPath (before ++ "." ++ field) = segments before := by
  rw [relationPath, segments_append, segments_of_no_dot h, List.dropLast_concat]

/-- Only an identifier without a dot leads over no relation. -/
theorem relationPath_eq_nil_iff {identifier : String} :
    relationPath identifier = [] ↔ '.' ∉ identifier.toList := by
  constructor
  · intro h
    rcases exists_field identifier with hdot | ⟨before, field, hfield, rfl⟩
    · exact hdot
    · rw [relationPath_append before hfield] at h
      exact absurd h (segments_ne_nil before)
  · intro h
    rw [relationPath, segments_of_no_dot h]
    rfl

/-- Identifiers have one path exactly if they differ in their fields only. -/
theorem relationPath_eq_iff {identifier other : String} :
    relationPath identifier = relationPath other ↔
      ('.' ∉ identifier.toList ∧ '.' ∉ other.toList) ∨
      ∃ before field field', '.' ∉ field.toList ∧ '.' ∉ field'.toList ∧
        identifier = before ++ "." ++ field ∧ other = before ++ "." ++ field' := by
  constructor
  · intro h
    rcases exists_field identifier with hdot | ⟨before, field, hfield, rfl⟩
    · have hnil := relationPath_eq_nil_iff.2 hdot
      exact .inl ⟨hdot, relationPath_eq_nil_iff.1 (h ▸ hnil)⟩
    · rw [relationPath_append before hfield] at h
      rcases exists_field other with hdot | ⟨before', field', hfield', rfl⟩
      · rw [relationPath_eq_nil_iff.2 hdot] at h
        exact absurd h (segments_ne_nil before)
      · rw [relationPath_append before' hfield'] at h
        obtain rfl := segments_injective h
        exact .inr ⟨before, field, field', hfield, hfield', rfl, rfl⟩
  · rintro (⟨h, h'⟩ | ⟨before, field, field', h, h', rfl, rfl⟩)
    · rw [relationPath_eq_nil_iff.2 h, relationPath_eq_nil_iff.2 h']
    · rw [relationPath_append before h, relationPath_append before h']

end JoinPlan
