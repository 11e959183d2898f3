import RecordPipeline.Json.Document
import RecordPipeline.Pipeline.Compiler
import RecordPipeline.Stream

/-!
A query together with its input, and the answer to it. The query is compiled before anything else is
looked at, so it can be explained without input.
-/

namespace RecordPipeline

structure Request where
  query : String
  input : Option String
  layout : Json.Layout
  explain : Bool

inductive Answer where
  | explanation (text : String)
  | records (records : List Value) (output : String)

inductive RequestError where
  | compile (e : CompileError)
  | noInput
  | json
  | eval (e : EvalError)
  | panic (cause : Panic)

namespace RequestError

def message : RequestError → String
  | compile e => e.message
  | noInput => "No input provided. Use --input or pipe JSON to stdin."
  | json => "Invalid JSON"
  | eval e => "Evaluation error: " ++ e.message
  | panic cause => cause.message

/-- A panic is not reported as an error of the evaluation. -/
def ofEval : EvalError → RequestError
  | .panic cause => panic cause
  | e => eval e

end RequestError

def Answer.text : Answer → String
  | explanation text => text
  | records _ output => output

namespace Request

def readInput (decoder : Json.Decoder) (request : Request) : Except RequestError (List Value) :=
  match request.input with
  | none => .error .noInput
  | some text =>
    match decoder.readRecords text with
    | some records => .ok records
    | none => .error .json

def finish (request : Request) : Evaluated (List Value) → Except RequestError Answer
  | .ok results => .ok (.records results (Json.streamText request.layout results))
  | .error e => .error (.ofEval e)

/-- There is no answer if the run does not end. -/
def answer (platform : Platform) (decoder : Json.Decoder) (request : Request) :
    Option (Except RequestError Answer) :=
  match compile request.query with
  | .error e => some (.error (.compile e))
  | .ok pipeline =>
    if request.explain then some (.ok (.explanation pipeline.text))
    else
      match request.readInput decoder with
      | .error e => some (.error e)
      | .ok records => (pipeline.results platform records).map request.finish

end Request

end RecordPipeline
