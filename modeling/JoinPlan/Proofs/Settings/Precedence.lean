import JoinPlan.Settings.Load
/-!
# The command line on top of the environment

What the command line says about a setting takes the place of what the environment says about it,
but the environment is read first, and what cannot be read there is refused whatever lies on top. So
a variable that is overridden makes no difference as long as its value is acceptable.

Results:
* `Settings.exists_readFormat_iff`, `Settings.isValid_iff`: which values are acceptable.
* `Settings.names_of_ofEnvironment`: there are settings only where all values are acceptable.
* `Settings.load_validated_congr`: which differences the command line covers.
* `Settings.load_overridden`: variables that are overridden.
-/
namespace JoinPlan.Settings

/-! ## Acceptable values -/

/-- A value for the output that is acceptable: none, or the name of a format in upper or lower case. -/
def NamesFormat (word : Option String) : Prop :=
  ∀ w ∈ word, ∃ format : OutputFormat, String.ofList (w.toList.map Char.toLower) = format.name

/-- A value for the alias file that is acceptable: none, or a path that is not empty. -/
def NamesFile (path : Option String) : Prop := ∀ p ∈ path, p ≠ ""

theorem ofName?_eq_some_iff {word : String} {format : OutputFormat} :
    OutputFormat.ofName? word = some format ↔ word = format.name := by
  constructor
  · intro h
    unfold OutputFormat.ofName? at h
    split at h <;> cases h <;> rfl
  · rintro rfl
    cases format <;> rfl

theorem exists_readFormat_iff {word : Option String} :
    (∃ format, readFormat word = .ok format) ↔ NamesFormat word := by
  cases word with
  | none => simp [readFormat, NamesFormat]
  | some w =>
    simp only [NamesFormat, Option.mem_some_iff, forall_eq', ← ofName?_eq_some_iff, readFormat,
      OutputFormat.parse]
    cases OutputFormat.ofName? (String.ofList (w.toList.map Char.toLower)) <;> simp

theorem isValid_iff {s : Settings} : s.isValid = true ↔ NamesFile s.aliasFile := by
  cases h : s.aliasFile <;> simp [isValid, NamesFile, h]

/-! ## What the environment says -/

variable {path strictness word : Option String} {o : Overrides}

theorem ofEnvironment_of_strictness {error : SettingsError}
    (h : readStrictness strictness = .error error) :
    ofEnvironment ⟨path, strictness, word⟩ = .error error := by
  simp only [ofEnvironment, h]
  rfl

theorem ofEnvironment_of_format {strict : Bool} {error : SettingsError}
    (hstrict : readStrictness strictness = .ok strict) (h : readFormat word = .error error) :
    ofEnvironment ⟨path, strictness, word⟩ = .error error := by
  simp only [ofEnvironment, hstrict, h]
  rfl

theorem ofEnvironment_of_read {strict : Bool} {format : OutputFormat}
    (hstrict : readStrictness strictness = .ok strict) (hformat : readFormat word = .ok format) :
    ofEnvironment ⟨path, strictness, word⟩ = validated ⟨path, strict, format⟩ := by
  simp only [ofEnvironment, hstrict, hformat]
  rfl

/-- What names no format or no file is refused, so there are settings only where both are named. -/
theorem names_of_ofEnvironment {s : Settings}
    (h : ofEnvironment ⟨path, strictness, word⟩ = .ok s) : NamesFormat word ∧ NamesFile path := by
  cases hstrict : readStrictness strictness with
  | error error =>
    rw [ofEnvironment_of_strictness hstrict] at h
    cases h
  | ok strict =>
    cases hformat : readFormat word with
    | error error =>
      rw [ofEnvironment_of_format hstrict hformat] at h
      cases h
    | ok format =>
      rw [ofEnvironment_of_read hstrict hformat] at h
      obtain ⟨-, hvalid⟩ := validated_eq_ok_iff.1 h
      exact ⟨exists_readFormat_iff.1 ⟨format, hformat⟩, isValid_iff.1 hvalid⟩

/-! ## What lies on top -/

/-- Nothing on top mends a source without settings. -/
theorem exists_load_error {source : Except SettingsError Settings}
    (h : ∀ s, source ≠ .ok s) : ∃ error, (load source o).value = .error error := by
  cases source with
  | error error => exact ⟨error, load_error error o⟩
  | ok s => exact absurd rfl (h s)

/-- Settings that are equally valid and become the same under the command line are loaded alike. -/
theorem load_validated_congr {s t : Settings} (hvalid : s.isValid = t.isValid)
    (htop : s.withOverrides o = t.withOverrides o) : load s.validated o = load t.validated o := by
  unfold validated
  rw [hvalid]
  cases t.isValid with
  | false => rfl
  | true => simp only [↓reduceIte, load, Except.bind, htop]

/-- Between acceptable values for the output it makes no difference which one is overridden. -/
theorem load_congr_outputFormat (ho : o.outputFormat.isSome = true) {word' : Option String}
    (hword : NamesFormat word) (hword' : NamesFormat word') :
    load (ofEnvironment ⟨path, strictness, word⟩) o =
      load (ofEnvironment ⟨path, strictness, word'⟩) o := by
  obtain ⟨top, htop⟩ := Option.isSome_iff_exists.1 ho
  obtain ⟨format, hformat⟩ := exists_readFormat_iff.2 hword
  obtain ⟨format', hformat'⟩ := exists_readFormat_iff.2 hword'
  cases hstrict : readStrictness strictness with
  | error error =>
    rw [ofEnvironment_of_strictness hstrict, ofEnvironment_of_strictness hstrict]
  | ok strict =>
    rw [ofEnvironment_of_read hstrict hformat, ofEnvironment_of_read hstrict hformat']
    refine load_validated_congr rfl ?_
    simp only [withOverrides, htop, Option.getD_some]

/-- Between acceptable values for the alias file it makes no difference which one is overridden. -/
theorem load_congr_aliasFile (ho : o.aliasFile.isSome = true) {path' : Option String}
    (hpath : NamesFile path) (hpath' : NamesFile path') :
    load (ofEnvironment ⟨path, strictness, word⟩) o =
      load (ofEnvironment ⟨path', strictness, word⟩) o := by
  obtain ⟨top, htop⟩ := Option.isSome_iff_exists.1 ho
  cases hstrict : readStrictness strictness with
  | error error =>
    rw [ofEnvironment_of_strictness hstrict, ofEnvironment_of_strictness hstrict]
  | ok strict =>
    cases hformat : readFormat word with
    | error error =>
      rw [ofEnvironment_of_format hstrict hformat, ofEnvironment_of_format hstrict hformat]
    | ok format =>
      rw [ofEnvironment_of_read hstrict hformat, ofEnvironment_of_read hstrict hformat]
      refine load_validated_congr ?_ ?_
      · rw [isValid_iff.2 hpath, isValid_iff.2 hpath']
      · simp only [withOverrides, htop, Option.some_or]

/-- **Precedence.** With the output on the command line, all acceptable values that the environment may
have for it lead to the same settings or to the same error, and any other value is refused though it
is overridden. The alias file is treated in the same way. -/
theorem load_overridden (o : Overrides) (path strictness word : Option String) :
    (o.outputFormat.isSome = true →
      (NamesFormat word → ∀ word', NamesFormat word' →
        load (ofEnvironment ⟨path, strictness, word⟩) o =
          load (ofEnvironment ⟨path, strictness, word'⟩) o) ∧
      (¬ NamesFormat word →
        ∃ error, (load (ofEnvironment ⟨path, strictness, word⟩) o).value = .error error)) ∧
    (o.aliasFile.isSome = true →
      (NamesFile path → ∀ path', NamesFile path' →
        load (ofEnvironment ⟨path, strictness, word⟩) o =
          load (ofEnvironment ⟨path', strictness, word⟩) o) ∧
      (¬ NamesFile path →
        ∃ error, (load (ofEnvironment ⟨path, strictness, word⟩) o).value = .error error)) := by
  refine ⟨fun ho => ⟨fun hword word' => load_congr_outputFormat ho hword, fun hword => ?_⟩,
    fun ho => ⟨fun hpath path' => load_congr_aliasFile ho hpath, fun hpath => ?_⟩⟩
  · exact exists_load_error fun s hs => hword (names_of_ofEnvironment hs).1
  · exact exists_load_error fun s hs => hpath (names_of_ofEnvironment hs).2

/-- The case of a format does not matter, nor which alias file is overridden; a word that is no format
and an empty path are refused. -/
theorem load_overridden_of_both :
    let o : Overrides := ⟨some "map.yaml", true, some .tree⟩
    (o.outputFormat.isSome = true ∧ NamesFormat (some "Full") ∧ NamesFormat none ∧
      load (ofEnvironment ⟨none, none, some "Full"⟩) o = load (ofEnvironment ⟨none, none, none⟩) o) ∧
    (¬ NamesFormat (some "xml") ∧
      ∃ error, (load (ofEnvironment ⟨none, none, some "xml"⟩) o).value = .error error) ∧
    (o.aliasFile.isSome = true ∧ NamesFile (some "old.yaml") ∧ NamesFile none ∧
      load (ofEnvironment ⟨some "old.yaml", none, none⟩) o =
        load (ofEnvironment ⟨none, none, none⟩) o) ∧
    ¬ NamesFile (some "") ∧
      ∃ error, (load (ofEnvironment ⟨some "", none, none⟩) o).value = .error error := by
  intro o
  have hfull : NamesFormat (some "Full") := exists_readFormat_iff.1 ⟨.full, rfl⟩
  have hnone : NamesFormat none := exists_readFormat_iff.1 ⟨.expression, rfl⟩
  have hxml : ¬ NamesFormat (some "xml") := by
    intro h
    obtain ⟨format, hformat⟩ := exists_readFormat_iff.2 h
    have hread : readFormat (some "xml") = .error (.format "xml" ⟨"xml"⟩) := rfl
    rw [hread] at hformat
    cases hformat
  have hold : NamesFile (some "old.yaml") := by simp [NamesFile]
  have hunset : NamesFile none := by simp [NamesFile]
  have hempty : ¬ NamesFile (some "") := by simp [NamesFile]
  refine ⟨⟨rfl, hfull, hnone, ?_⟩, ⟨hxml, ?_⟩, ⟨rfl, hold, hunset, ?_⟩, hempty, ?_⟩
  · exact ((load_overridden o none none (some "Full")).1 rfl).1 hfull none hnone
  · exact ((load_overridden o none none (some "xml")).1 rfl).2 hxml
  · exact ((load_overridden o (some "old.yaml") none none).2 rfl).1 hold none hunset
  · exact ((load_overridden o (some "") none none).2 rfl).2 hempty

/-- A value that is overridden still decides whether there are settings, for the output and for the
alias file. -/
theorem load_refused_though_overridden :
    ((load (ofEnvironment ⟨none, none, none⟩) ⟨none, false, some .tree⟩).value =
        .ok ⟨none, false, .tree⟩ ∧
      (load (ofEnvironment ⟨none, none, some "xml"⟩) ⟨none, false, some .tree⟩).value =
        .error (.format "xml" ⟨"xml"⟩)) ∧
    (load (ofEnvironment ⟨none, none, none⟩) ⟨some "map.yaml", false, none⟩).value =
        .ok ⟨some "map.yaml", false, .expression⟩ ∧
      (load (ofEnvironment ⟨some "", none, none⟩) ⟨some "map.yaml", false, none⟩).value =
        .error .emptyAliasPath :=
  ⟨⟨rfl, rfl⟩, rfl, rfl⟩

end JoinPlan.Settings
