import JoinPlan.CommandLine.Run
import JoinPlan.Yaml.Readers
/-!
# The program

Connects a run with the files, the environment and the streams of the process, and with readers of
documents. Help and usage errors are kept short.
-/
namespace JoinPlan

def UsageError.message : UsageError → String
  | .unknown argument => "unexpected argument '" ++ argument ++ "' found"
  | .repeated option => "the argument '" ++ option ++ "' cannot be used multiple times"
  | .valueMissing option => "a value is required for '" ++ option ++ "' but none was supplied"
  | .valueUnexpected option => "'" ++ option ++ "' takes no value"
  | .valueEmpty option => "the value of '" ++ option ++ "' cannot be empty"
  | .format e => "invalid value for '--output': " ++ e.message
  | .secondPredicate argument => "unexpected argument '" ++ argument ++ "' found"

/-- Short words about the command line. -/
def shortManual : Manual where
  help := "Usage: relplan [OPTIONS] [PREDICATE]\n"
  refusal e := "error: " ++ e.message ++ "\n"

/-- The outcome of reading a file or a stream as text. -/
def attemptRead (read : IO ByteArray) : IO (Except ReadError String) := do
  try
    return decodeText (← read)
  catch e =>
    return .error (match e with
      | .noFileOrDirectory .. => .missing
      | .inappropriateType .. => .directory
      | e => .other (toString e))

/-- The rest of a stream, behind what was read before. -/
partial def readRest (stream : IO.FS.Stream) (before : ByteArray) : IO ByteArray := do
  let chunk ← stream.read 65536
  if chunk.isEmpty then return before else readRest stream (before ++ chunk)

/-- The process as a host. -/
def processHost (input : IO.FS.Stream) : Host IO where
  toReaders := .plain
  fileText path := attemptRead (IO.FS.readBinFile path)
  inputText := attemptRead (readRest input ByteArray.empty)

end JoinPlan

open JoinPlan in
def main (arguments : List String) : IO UInt32 := do
  let environment ← Environment.ofLookup (IO.getEnv ·)
  let report ← run shortManual (processHost (← IO.getStdin)) environment arguments
  IO.print report.output
  IO.eprint report.errors
  return report.exitCode.toUInt32
