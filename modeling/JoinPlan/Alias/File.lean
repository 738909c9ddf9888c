import JoinPlan.Host
import JoinPlan.Log
/-!
# Alias files

Aliases are kept in a file. A file that cannot be read and a text that does not hold aliases are told
apart; what is wrong with the text is said in the words of its reader.
-/
namespace JoinPlan

/-- Why there are no aliases. mirrors `AliasMapError` -/
inductive AliasFileError where
  | unreadable (path : String) (error : ReadError)
  | malformed (reason : String)
  deriving DecidableEq, Repr

def AliasFileError.message : AliasFileError → String
  | .unreadable path e => "Failed to read alias file: " ++ path ++ ": " ++ e.message
  | .malformed reason => "Failed to parse alias map: " ++ reason

namespace AliasMap

/-- The aliases that a text holds. mirrors `AliasMap.from_yaml_str` -/
def ofText (r : Readers) (text : String) : Except AliasFileError AliasMap :=
  (r.aliases text).mapError .malformed

/-- The aliases of the file at `path`, of which `content` was read; success is reported.
mirrors `AliasMap.from_yaml_file` -/
def ofFile (r : Readers) (path : String) (content : Except ReadError String) :
    Logged (Except AliasFileError AliasMap) :=
  match content with
  | .error e => ⟨.error (.unreadable path e), []⟩
  | .ok text =>
    match ofText r text with
    | .error e => ⟨.error e, []⟩
    | .ok aliases => ⟨.ok aliases, [.aliasesLoaded aliases.size path]⟩

end AliasMap
end JoinPlan
