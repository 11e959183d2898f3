import RecordPipeline.Json.Reader
import RecordPipeline.Platform.Reference
import RecordPipeline.Request
import Std.Time.DateTime.Timestamp

/-!
The command line: `run QUERY` with `--input TEXT`, `--pretty` and `--explain`. Without `--input` the
records are read from standard input, unless that is a terminal.
-/

namespace RecordPipeline.CommandLine

def usage : String :=
  "Usage: run <QUERY> [--input <INPUT>] [--pretty] [--explain]"

def emptyRequest : Request :=
  { query := "", input := none, layout := .compact, explain := false }

def unexpected (word : String) : String :=
  "unexpected argument '" ++ word ++ "' found\n" ++ usage

def readOptions (request : Request) (query : Option String) : List String → Except String Request
  | [] =>
    match query with
    | some query => .ok { request with query }
    | none => .error usage
  | "-i" :: text :: later | "--input" :: text :: later =>
    readOptions { request with input := some text } query later
  | "-p" :: later | "--pretty" :: later =>
    readOptions { request with layout := .pretty } query later
  | "--explain" :: later => readOptions { request with explain := true } query later
  | word :: later =>
    if query.isSome || word.startsWith "-" then .error (unexpected word)
    else readOptions request (some word) later

def readArguments : List String → Except String Request
  | "run" :: options => readOptions emptyRequest none options
  | _ => .error usage

def inputOf (request : Request) : IO (Option String) := do
  let stdin ← IO.getStdin
  if request.input.isSome || request.explain then return request.input
  else if ← stdin.isTty then return none
  else return some (← stdin.readToEnd)

def now : IO Time.Instant := do
  let timestamp ← Std.Time.Timestamp.now
  return .ofNanos timestamp.val.toNanoseconds.val

def run (request : Request) : IO UInt32 := do
  let request := { request with input := ← inputOf request }
  match request.answer (.reference (← now)) .reference with
  | some (.ok answer) =>
    IO.println answer.text
    return 0
  | some (.error e) =>
    IO.eprintln e.message
    return 1
  | none => return 1

end RecordPipeline.CommandLine

def main (args : List String) : IO UInt32 := do
  match RecordPipeline.CommandLine.readArguments args with
  | .ok request => RecordPipeline.CommandLine.run request
  | .error message =>
    IO.eprintln message
    return 2
