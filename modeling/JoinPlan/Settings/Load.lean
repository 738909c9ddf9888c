import JoinPlan.Host
import JoinPlan.Log
/-!
# Where settings come from

Settings come from a file, and if none is named from the environment; the command line lies on top.
A file takes the place of the environment as a whole. The path of the alias file is checked at the
source and once more with the command line on top of it.

Results:
* `Settings.load_error`: what is wrong at the source is not mended by the command line.
* `Settings.load_ok_valid`: settings that were loaded are valid.
-/
namespace JoinPlan

/-- Why there are no settings. mirrors `ConfigError`, but for aliases -/
inductive SettingsError where
  /-- the variable for strictness holds some other word -/
  | strictness (word : String)
  /-- the variable for the output names no format -/
  | format (word : String) (error : OutputFormat.Unknown)
  | unreadable (error : ReadError)
  /-- the text of the settings file is something else, for a reason that its reader gives -/
  | malformed (text reason : String)
  | emptyAliasPath
  deriving DecidableEq, Repr

namespace SettingsError

/-- What is wrong, without what it is wrong with. -/
def reason : SettingsError → String
  | .strictness _ => "provided string was not `true` or `false`"
  | .format _ e => e.message
  | .unreadable e => e.message
  | .malformed _ reason => reason
  | .emptyAliasPath => "alias_file: Alias file path cannot be empty"

/-- What could not be read as a setting: the name of the place and what is there. -/
def subject? : SettingsError → Option (String × String)
  | .strictness word => some (Environment.strictIdentifiersName, word)
  | .format word _ => some (Environment.outputFormatName, word)
  | .unreadable _ => some ("yaml_file", "file read failed")
  | .malformed text _ => some ("yaml_content", text)
  | .emptyAliasPath => none

/-- mirrors `fmt` of `ConfigError` -/
def message (e : SettingsError) : String :=
  match e.subject? with
  | some (place, found) => "Parse error for " ++ place ++ ": " ++ found ++ " - " ++ e.reason
  | none => "Validation error: " ++ e.reason

end SettingsError

namespace Settings

/-- The settings, if they are valid. mirrors `validate`, as it is used -/
def validated (s : Settings) : Except SettingsError Settings :=
  if s.isValid then .ok s else .error .emptyAliasPath

/-- What the variable for strictness says. mirrors `parse_env_var` at the strictness -/
def readStrictness : Option String → Except SettingsError Bool
  | none => .ok standard.strictIdentifiers
  | some "true" => .ok true
  | some "false" => .ok false
  | some word => .error (.strictness word)

/-- What the variable for the output says. mirrors `parse_env_var` at the output format -/
def readFormat : Option String → Except SettingsError OutputFormat
  | none => .ok standard.outputFormat
  | some word =>
    match OutputFormat.parse word with
    | .ok format => .ok format
    | .error e => .error (.format word e)

/-- The settings of the environment. mirrors `from_env` -/
def ofEnvironment (e : Environment) : Except SettingsError Settings := do
  let strictIdentifiers ← readStrictness e.strictIdentifiers
  let outputFormat ← readFormat e.outputFormat
  validated ⟨e.aliasFile, strictIdentifiers, outputFormat⟩

/-- The settings of a file of which `content` was read. mirrors `from_yaml_file` -/
def ofFile (r : Readers) (content : Except ReadError String) : Except SettingsError Settings :=
  match content with
  | .error e => .error (.unreadable e)
  | .ok text =>
    match r.settings text with
    | .error reason => .error (.malformed text reason)
    | .ok s => s.validated

/-- The settings of the command line alone. mirrors `from_cli` -/
def ofOverrides (o : Overrides) : Except SettingsError Settings :=
  (standard.withOverrides o).validated

/-- The settings of a source with the command line on top; success is reported. mirrors `load` -/
def load (source : Except SettingsError Settings) (o : Overrides) :
    Logged (Except SettingsError Settings) :=
  match source.bind fun s => (s.withOverrides o).validated with
  | .ok s => ⟨.ok s, [.settingsLoaded s]⟩
  | .error e => ⟨.error e, []⟩

theorem load_error (e : SettingsError) (o : Overrides) : (load (.error e) o).value = .error e := rfl

theorem validated_eq_ok_iff {s t : Settings} : s.validated = .ok t ↔ s = t ∧ s.isValid = true := by
  unfold validated
  split <;> simp_all

theorem load_ok_valid {source : Except SettingsError Settings} {o : Overrides} {s : Settings}
    (h : (load source o).value = .ok s) : s.isValid = true := by
  unfold load at h
  cases source with
  | error e => simp [Except.bind] at h
  | ok t =>
    simp only [Except.bind] at h
    split at h
    · rename_i u hu
      obtain ⟨rfl, hv⟩ := validated_eq_ok_iff.1 hu
      simp_all
    · simp at h

end Settings
end JoinPlan
