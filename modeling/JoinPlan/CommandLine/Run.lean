import JoinPlan.Alias.File
import JoinPlan.CommandLine.Arguments
import JoinPlan.Json.Printer
import JoinPlan.Plan
import JoinPlan.Settings.Load
/-!
# A run of the program

A run loads the settings and then the aliases, reads the predicate and compiles it. The first step
that fails ends the run. An error is reported in one line with what caused it, and a cause may say
again what is said in front of it.

Results:
* `Invocation.report_id`: the report of a run, in terms of its outcome.
-/
namespace JoinPlan

/-- What a run leaves behind. -/
structure Report where
  exitCode : Nat
  output : String
  errors : String
  deriving DecidableEq, Repr

/-- Why a predicate was not compiled. -/
inductive Failure where
  | settings (error : SettingsError)
  | aliases (error : AliasFileError)
  /-- the predicate could not be read; `source` says where from -/
  | input (source : String) (error : ReadError)
  /-- the predicate is no JSON document, for a reason that the reader of such documents gives -/
  | json (reason : String)
  | compile (error : CompileError)
  deriving Repr

namespace Failure

/-- What failed and what caused it, from the outside in.
mirrors the errors that `run` puts one behind the other -/
def chain : Failure → List String
  | .settings e => [e.message, e.reason]
  | .aliases e => ["Alias map error: " ++ e.message, e.message]
  | .input source e => ["reading predicate from " ++ source, e.message]
  | .json reason => ["predicate is not valid JSON", reason]
  | .compile e => [e.message]

/-- mirrors what `main` prints of an error -/
def message (e : Failure) : String :=
  "Error: " ++ String.intercalate ": " e.chain

end Failure

/-- What is printed for a predicate. mirrors `render` -/
def Compiled.render (c : Compiled) : OutputFormat → String
  | .expression => c.plan.expression
  | .tree => c.plan.tree.toJson.prettyText
  | .full => c.toJson.prettyText

namespace Invocation

/-- Compiles the predicate in `text`. mirrors the two branches of `run` on `json` -/
def compile (i : Invocation) (r : Readers) (s : Settings) (aliases : Option AliasMap)
    (text : String) : Except Failure Compiled :=
  if i.json then
    match r.json text with
    | .error reason => .error (.json reason)
    | .ok v => (Compiled.ofJson s.strictIdentifiers aliases v).value.mapError .compile
  else (Compiled.ofText s.strictIdentifiers aliases text).value.mapError .compile

variable {m : Type → Type} [Monad m]

/-- The settings of a run. mirrors `CompilerConfig.load` -/
def readSettings (i : Invocation) (host : Host m) (e : Environment) :
    m (Except Failure Settings) := do
  let source ← match i.config with
    | some path => pure (Settings.ofFile host.toReaders (← host.fileText path))
    | none => pure (Settings.ofEnvironment e)
  return (Settings.load source i.overrides).value.mapError .settings

/-- The aliases of a run, if there is an alias file. mirrors `CompilerConfig.load_aliases` -/
def readAliases (host : Host m) (s : Settings) : m (Except Failure (Option AliasMap)) := do
  match s.aliasFile with
  | none => return .ok none
  | some path =>
    let read := AliasMap.ofFile host.toReaders path (← host.fileText path)
    return (read.value.map some).mapError .aliases

/-- The text of the predicate: an argument, or else a file, or else the input. mirrors `read_input` -/
def readPredicate (i : Invocation) (host : Host m) : m (Except Failure String) := do
  match i.predicate, i.file with
  | some text, _ => return .ok text
  | none, some path => return (← host.fileText path).mapError (.input path)
  | none, none => return (← host.inputText).mapError (.input "stdin")

/-- What a run prints. mirrors `run` -/
def execute (i : Invocation) (host : Host m) (e : Environment) : ExceptT Failure m String := do
  let s ← ExceptT.mk (i.readSettings host e)
  let aliases ← ExceptT.mk (readAliases host s)
  let text ← ExceptT.mk (i.readPredicate host)
  let compiled ← ExceptT.mk (pure (i.compile host.toReaders s aliases text))
  return compiled.render s.outputFormat

/-- What a run leaves behind. mirrors `main`, once the command line is read -/
def report (i : Invocation) (host : Host m) (e : Environment) : m Report := do
  match ← (i.execute host e).run with
  | .ok text => return ⟨0, text ++ "\n", ""⟩
  | .error failure => return ⟨1, "", failure.message ++ "\n"⟩

end Invocation

/-- The name and version of the program. -/
def versionText : String := "relplan 0.1.0"

/-- What is printed about the command line itself, in the words of the library that reads it. -/
structure Manual where
  help : String
  refusal : UsageError → String

/-- Runs the program. mirrors `main` -/
def run {m : Type → Type} [Monad m] (manual : Manual) (host : Host m) (e : Environment)
    (arguments : List String) : m Report := do
  match Request.ofArguments arguments with
  | .error refused => return ⟨2, "", manual.refusal refused⟩
  | .ok .version => return ⟨0, versionText ++ "\n", ""⟩
  | .ok .help => return ⟨0, manual.help, ""⟩
  | .ok (.run i) => i.report host e

theorem Invocation.report_id (i : Invocation) (host : Host Id) (e : Environment) :
    (i.report host e).run =
      match (i.execute host e).run.run with
      | .ok text => ⟨0, text ++ "\n", ""⟩
      | .error failure => ⟨1, "", failure.message ++ "\n"⟩ := by
  simp only [report]
  split <;> simp_all

end JoinPlan
