import RecordPipeline.Expr.Printer

/-!
Compiled pipelines: stages in their order, each a bare stage name or a call with the expressions to
evaluate on a record, the options of the stage, and whatever was written behind the call.
-/

namespace RecordPipeline

inductive Callable where
  | passthrough
  | tuple (parts : List Expr)

def Callable.parts : Callable → List Expr
  | passthrough => []
  | tuple parts => parts

structure Invocation where
  callable : Callable
  named : List (String × Expr)

namespace Invocation

def passthrough : Invocation := ⟨.passthrough, []⟩

def ofArguments (arguments : List Argument) : Invocation :=
  let (args, named) := Argument.split arguments
  ⟨.tuple args, named⟩

end Invocation

inductive Trailer where
  | attr (name : String)
  | index (key : Expr)
  | call (args : List Expr) (named : List (String × Expr))

structure StageCall where
  name : String
  invocation : Invocation
  trailers : List Trailer

inductive Stage where
  | reference (name : String)
  | call (call : StageCall)

def Stage.name : Stage → String
  | reference name => name
  | call c => c.name

structure Pipeline where
  stages : List Stage

open RecordPipeline.Expr (commaJoin texts namedTexts)

def Invocation.text (i : Invocation) : String :=
  let callable :=
    match i.callable with
    | .passthrough => "lambda x, *rest: arr"
    | .tuple parts => "lambda x, *rest: (" ++ commaJoin (texts parts) ++ "), arr"
  commaJoin (callable :: namedTexts i.named)

def Trailer.text : Trailer → String
  | attr name => "." ++ name
  | index key => "[" ++ key.text ++ "]"
  | call args named => "(" ++ commaJoin (texts args ++ namedTexts named) ++ ")"

def Stage.text : Stage → String
  | reference name => name
  | call c =>
    "lambda arr: " ++ c.name ++ "(" ++ c.invocation.text ++ ")" ++
      String.join (c.trailers.map Trailer.text)

def Pipeline.text (p : Pipeline) : String :=
  String.intercalate "," (p.stages.map Stage.text)

end RecordPipeline
