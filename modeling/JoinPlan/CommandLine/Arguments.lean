import JoinPlan.Settings.Basic
/-!
# Command-line arguments

The arguments are read one after the other, and the first thing that is wrong or that asks for
something else than a run decides. An argument that starts with a dash is an option, unless it is a
lone dash or stands behind two dashes. What an option needs stands behind an equals sign or is the
next argument; an option may not be given twice.
-/
namespace JoinPlan

/-- What a run is told on the command line. mirrors `Cli` -/
structure Invocation where
  /-- the predicate itself -/
  predicate : Option String := none
  /-- the file that holds the predicate -/
  file : Option String := none
  /-- whether the predicate is a JSON document -/
  json : Bool := false
  /-- the settings file -/
  config : Option String := none
  /-- the alias file -/
  aliases : Option String := none
  strict : Bool := false
  output : Option OutputFormat := none
  deriving DecidableEq, Repr

/-- What the command line says about the settings. mirrors `CliConfig.from` -/
def Invocation.overrides (i : Invocation) : Overrides :=
  ⟨i.aliases, i.strict, i.output⟩

/-- What is asked for. -/
inductive Request where
  | run (invocation : Invocation)
  | version
  | help
  deriving DecidableEq, Repr

/-- Why arguments are refused. -/
inductive UsageError where
  | unknown (argument : String)
  | repeated (option : String)
  | valueMissing (option : String)
  | valueUnexpected (option : String)
  | valueEmpty (option : String)
  | format (error : OutputFormat.Unknown)
  | secondPredicate (argument : String)
  deriving DecidableEq, Repr

/-- Options that stand alone. -/
inductive Flag where
  | json
  | strict
  | version
  | help
  deriving DecidableEq, Repr

/-- Options that need a value. -/
inductive Setting where
  | file
  | config
  | aliases
  | output
  deriving DecidableEq, Repr

inductive CommandOption where
  | flag (flag : Flag)
  | setting (setting : Setting)
  deriving DecidableEq, Repr

namespace CommandOption

/-- The option with a long name, without its dashes. -/
def ofName? : String → Option CommandOption
  | "json" => some (.flag .json)
  | "strict" => some (.flag .strict)
  | "version" => some (.flag .version)
  | "help" => some (.flag .help)
  | "file" => some (.setting .file)
  | "config" => some (.setting .config)
  | "aliases" => some (.setting .aliases)
  | "output" => some (.setting .output)
  | _ => none

/-- The option with a name of one letter. -/
def ofLetter? : Char → Option CommandOption
  | 'V' => some (.flag .version)
  | 'h' => some (.flag .help)
  | 'f' => some (.setting .file)
  | 'c' => some (.setting .config)
  | _ => none

end CommandOption

/-- What an argument is by itself. -/
inductive Argument where
  | positional
  /-- two dashes -/
  | separator
  | flag (flag : Flag)
  /-- an option, and the value that is attached to it -/
  | setting (setting : Setting) (value : Option String)
  | refused (error : UsageError)
  deriving DecidableEq, Repr

namespace Argument

/-- An argument that starts with two dashes, which `body` stands behind. A value stands behind the
first equals sign. -/
def ofLong (argument : String) (body : List Char) : Argument :=
  let name := String.ofList (body.takeWhile (· ≠ '='))
  let value := (body.dropWhile (· ≠ '=')).tail?.map String.ofList
  match CommandOption.ofName? name with
  | some (.flag f) => if value.isSome then .refused (.valueUnexpected argument) else .flag f
  | some (.setting s) => .setting s value
  | none => .refused (.unknown argument)

/-- An argument of one dash, a letter and what stands behind it: the value, if the option takes
one, with or without an equals sign. -/
def ofShort (argument : String) (letter : Char) (body : List Char) : Argument :=
  match CommandOption.ofLetter? letter with
  | some (.flag f) => .flag f
  | some (.setting s) =>
    match body with
    | [] => .setting s none
    | '=' :: value => .setting s (some (String.ofList value))
    | value => .setting s (some (String.ofList value))
  | none => .refused (.unknown argument)

def ofString (argument : String) : Argument :=
  match argument.toList with
  | ['-', '-'] => .separator
  | '-' :: '-' :: body => ofLong argument body
  | '-' :: letter :: body => ofShort argument letter body
  | _ => .positional

end Argument

namespace Invocation

/-- Sets a field that must not have been set before. -/
def set {α : Type} (name : String) (old : Option α) (new : α) : Except UsageError (Option α) :=
  if old.isSome then .error (.repeated name) else .ok (some new)

/-- A path, which must not be empty. -/
def path (name value : String) : Except UsageError String :=
  if value.isEmpty then .error (.valueEmpty name) else .ok value

def addSetting (i : Invocation) (value : String) : Setting → Except UsageError Invocation
  | .file => do return { i with file := ← set "--file" i.file (← path "--file" value) }
  | .config => do return { i with config := ← set "--config" i.config (← path "--config" value) }
  | .aliases => do return { i with aliases := ← set "--aliases" i.aliases value }
  | .output =>
    match OutputFormat.parse value with
    | .ok format => do return { i with output := ← set "--output" i.output format }
    | .error e => .error (.format e)

def addPredicate (i : Invocation) (argument : String) : Except UsageError Invocation :=
  if i.predicate.isSome then .error (.secondPredicate argument)
  else .ok { i with predicate := some argument }

end Invocation

namespace Request

/-- Takes in arguments behind two dashes, none of which is an option. -/
def addPositionals (i : Invocation) : List String → Except UsageError Request
  | [] => .ok (.run i)
  | a :: as => do addPositionals (← i.addPredicate a) as

/-- Takes in arguments one after the other. -/
def addArguments (i : Invocation) : List String → Except UsageError Request
  | [] => .ok (.run i)
  | a :: as =>
    match Argument.ofString a with
    | .positional => do addArguments (← i.addPredicate a) as
    | .separator => addPositionals i as
    | .flag .version => .ok .version
    | .flag .help => .ok .help
    | .flag .json =>
      if i.json then .error (.repeated a) else addArguments { i with json := true } as
    | .flag .strict =>
      if i.strict then .error (.repeated a) else addArguments { i with strict := true } as
    | .setting s (some value) => do addArguments (← i.addSetting value s) as
    | .setting s none =>
      match as with
      | [] => .error (.valueMissing a)
      | value :: as' =>
        match Argument.ofString value with
        | .positional => do addArguments (← i.addSetting value s) as'
        | _ => .error (.valueMissing a)
    | .refused e => .error e

/-- What the arguments of the program ask for. -/
def ofArguments (arguments : List String) : Except UsageError Request :=
  addArguments {} arguments

end Request
end JoinPlan
