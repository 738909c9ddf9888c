import JoinPlan.Host
import JoinPlan.Json.Parser
import JoinPlan.Yaml.Document
/-!
# Readers for common documents

Aliases and settings are mappings in a YAML document. An alias and what it stands for are taken as
their texts, whatever they may mean elsewhere, and the last of several entries for an alias counts.
Of settings up to three keys are known: one that is left out leaves its setting as it is where
nothing is said, none may occur twice, and any other key is passed over with whatever it holds. An
empty document is an empty mapping.

`Readers.plain` puts these together with the reader for JSON. It serves where the program is run;
what is proved about runs holds for any readers.
-/
namespace JoinPlan

namespace Yaml.Node

/-- The text of a node, unless it is a plain scalar that stands for nothing. -/
def optionalText? : Node → Option (Option String)
  | .scalar s =>
    if s.plain && ["", "~", "null", "Null", "NULL"].contains s.text then some none
    else some (some s.text)
  | _ => none

/-- The truth value that a plain scalar stands for. -/
def boolean? : Node → Option Bool
  | .scalar s =>
    if !s.plain then none
    else if ["true", "True", "TRUE"].contains s.text then some true
    else if ["false", "False", "FALSE"].contains s.text then some false
    else none
  | _ => none

end Yaml.Node

namespace Yaml

/-- The alias and what it stands for in an entry. -/
def aliasOfEntry? (entry : Node × Node) : Option (String × String) := do
  return (← entry.1.text?, ← entry.2.text?)

/-- The aliases that a document holds. -/
def aliasesOfNode? : Node → Option AliasMap
  | .mapping entries => (entries.mapM aliasOfEntry?).map .ofList
  | node => if node.isEmpty then some .empty else none

/-- The value of the entry for `key`, read by `read?`, or `default` if there is no such entry. There
may not be two. -/
def entry? {α : Type} (entries : List (String × Node)) (key : String)
    (read? : Node → Option α) (default : α) : Option α :=
  match entries.filter (·.1 = key) with
  | [] => some default
  | [e] => read? e.2
  | _ => none

/-- The settings that a document holds. -/
def settingsOfNode? : Node → Option Settings
  | .mapping entries => do
    let entries ← entries.mapM fun e => e.1.text?.map (·, e.2)
    let standard := Settings.standard
    return {
      aliasFile := ← entry? entries "alias_file" (·.optionalText?) standard.aliasFile
      strictIdentifiers :=
        ← entry? entries "strict_identifiers" (·.boolean?) standard.strictIdentifiers
      outputFormat :=
        ← entry? entries "output_format" (·.text?.bind OutputFormat.ofName?) standard.outputFormat }
  | node => if node.isEmpty then some .standard else none

end Yaml

/-- Readers for JSON, and for aliases and settings in the part of YAML that they are commonly written
in. Why a text is refused is not told apart. -/
def Readers.plain : Readers where
  json text := (Json.parse? text.toList).elim (.error "expected a JSON document") .ok
  settings text :=
    ((Yaml.parse? text.toList).bind Yaml.settingsOfNode?).elim
      (.error "expected a mapping with settings") .ok
  aliases text :=
    ((Yaml.parse? text.toList).bind Yaml.aliasesOfNode?).elim
      (.error "expected a mapping from aliases to identifiers") .ok

end JoinPlan
