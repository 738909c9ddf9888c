import JoinPlan.Json.Basic
import JoinPlan.Text.Escape
/-!
# Settings

What the program is told apart from the predicate: where the aliases are, whether empty path
segments are refused, and what is printed. The command line lies on top of the other sources: what
it says replaces what they say, but it can only switch strictness on.
-/
namespace JoinPlan

/-- What is printed for a predicate. mirrors `OutputFormat` -/
inductive OutputFormat where
  /-- the relation expression -/
  | expression
  /-- the relation tree -/
  | tree
  /-- the predicate and its relations -/
  | full
  deriving DecidableEq, Repr

namespace OutputFormat

/-- mirrors `fmt` of `OutputFormat` -/
def name : OutputFormat → String
  | .expression => "expression"
  | .tree => "tree"
  | .full => "full"

/-- The format with exactly this name. -/
def ofName? : String → Option OutputFormat
  | "expression" => some .expression
  | "tree" => some .tree
  | "full" => some .full
  | _ => none

/-- A word that names no format, in lower case. -/
structure Unknown where
  word : String
  deriving DecidableEq, Repr

def Unknown.message (e : Unknown) : String :=
  "unknown output format '" ++ e.word ++ "' (expected expression, tree or full)"

/-- The format with this name in upper or lower case. mirrors `OutputFormat.from_str` -/
def parse (word : String) : Except Unknown OutputFormat :=
  let lower := String.ofList (word.toList.map Char.toLower)
  match ofName? lower with
  | some format => .ok format
  | none => .error ⟨lower⟩

end OutputFormat

/-- mirrors `CompilerConfig` -/
structure Settings where
  /-- the file that holds the aliases -/
  aliasFile : Option String
  /-- whether an identifier with an empty segment is refused -/
  strictIdentifiers : Bool
  outputFormat : OutputFormat
  deriving DecidableEq, Repr

/-- What the command line says about the settings. mirrors `CliConfig` -/
structure Overrides where
  aliasFile : Option String
  strictIdentifiers : Bool
  outputFormat : Option OutputFormat
  deriving DecidableEq, Repr

namespace Settings

/-- The settings where nothing is said. mirrors `CompilerConfig.default` -/
def standard : Settings := ⟨none, false, .expression⟩

/-- The settings with the command line on top of them. mirrors `merge_cli` -/
def withOverrides (s : Settings) (o : Overrides) : Settings where
  aliasFile := o.aliasFile.or s.aliasFile
  strictIdentifiers := s.strictIdentifiers || o.strictIdentifiers
  outputFormat := o.outputFormat.getD s.outputFormat

/-- Whether the path of the alias file, if there is one, is not empty. mirrors `validate` -/
def isValid (s : Settings) : Bool :=
  s.aliasFile ≠ some ""

/-- The settings in one line. mirrors `Debug` of `CompilerConfig` -/
def describe (s : Settings) : String :=
  let file := match s.aliasFile with
    | some path => "Some(" ++ Text.showQuoted path ++ ")"
    | none => "None"
  let format := match s.outputFormat with
    | .expression => "Expression"
    | .tree => "Tree"
    | .full => "Full"
  "CompilerConfig \x7b alias_file: " ++ file ++
    ", strict_identifiers: " ++ (if s.strictIdentifiers then "true" else "false") ++
    ", output_format: " ++ format ++ " \x7d"

/-- mirrors the derived serialization of `CompilerConfig` -/
def toJson (s : Settings) : Json :=
  .object
    [("alias_file", match s.aliasFile with | some path => .text path | none => .null),
     ("strict_identifiers", .boolean s.strictIdentifiers),
     ("output_format", .text s.outputFormat.name)]

end Settings
end JoinPlan
