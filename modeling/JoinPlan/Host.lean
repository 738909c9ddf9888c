import JoinPlan.Alias
import JoinPlan.Json.Basic
import JoinPlan.Settings.Basic
/-!
# What surrounds the program

The program reads files, its input and three environment variables, and nothing else. Files and
input are read in some monad: one with effects where the program runs, the identity where it is
reasoned about.

Documents are read by libraries. What they accept and how they word a refusal is not settled here: a
run takes their readers as arguments, and what is said about runs holds for all of them.
-/
namespace JoinPlan

/-- Why a file or the input could not be read as text. -/
inductive ReadError where
  | missing
  | directory
  | notUnicode
  | other (reason : String)
  deriving DecidableEq, Repr

def ReadError.message : ReadError → String
  | .missing => "No such file or directory (os error 2)"
  | .directory => "Is a directory (os error 21)"
  | .notUnicode => "stream did not contain valid UTF-8"
  | .other reason => reason

/-- The text that bytes stand for. -/
def decodeText (bytes : ByteArray) : Except ReadError String :=
  match String.fromUTF8? bytes with
  | some text => .ok text
  | none => .error .notUnicode

/-- The environment variables that count, where they are set.
mirrors the variables that `from_env` reads -/
structure Environment where
  aliasFile : Option String
  strictIdentifiers : Option String
  outputFormat : Option String
  deriving DecidableEq, Repr

namespace Environment

def aliasFileName : String := "RELPLAN_ALIAS_FILE"

def strictIdentifiersName : String := "RELPLAN_STRICT_IDENTIFIERS"

def outputFormatName : String := "RELPLAN_OUTPUT"

/-- The variables that count, each looked up by its name. -/
def ofLookup {m : Type → Type} [Monad m] (lookUp : String → m (Option String)) :
    m Environment := do
  return ⟨← lookUp aliasFileName, ← lookUp strictIdentifiersName,
    ← lookUp outputFormatName⟩

end Environment

/-- Readers of documents. Each gives what a text holds, or a message about what is wrong with it.
mirrors the three uses of `from_str`, in `run`, `from_yaml_file` and `from_yaml_str` -/
structure Readers where
  /-- a JSON document -/
  json : String → Except String Json
  /-- settings, in a YAML document -/
  settings : String → Except String Settings
  /-- aliases, in a YAML document -/
  aliases : String → Except String AliasMap

/-- What a program has at hand: readers of documents, and the files and the input, which are read in
the monad `m`. -/
structure Host (m : Type → Type) extends Readers where
  fileText : String → m (Except ReadError String)
  inputText : m (Except ReadError String)

end JoinPlan
