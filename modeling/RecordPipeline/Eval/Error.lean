import RecordPipeline.Expr.Printer
import RecordPipeline.Value.Order
import RecordPipeline.Value.View

/-!
Why a record has no value under an expression, or a stage cannot be run. Each error keeps its cause;
`message` words it.
-/

namespace RecordPipeline

inductive Callee where
  | function (name : String)
  | method (name : String)
deriving DecidableEq, Repr

def Callee.text : Callee → String
  | function name => name ++ "()"
  | method name => "." ++ name ++ "()"

inductive Requirement where
  | number | string | array | object
  | readable | sized | keyed | time | numericItems
deriving DecidableEq, Repr

def Requirement.text : Requirement → String
  | number => "number"
  | string => "string"
  | array => "array"
  | object => "object"
  | readable => "number or string"
  | sized => "string, array or object"
  | keyed => "object or array"
  | time => "a timestamp or duration string"
  | numericItems => "numeric values"

inductive Misuse where
  | requires (callee : Callee) (wanted : Requirement) (found : Value.Kind)
  | argumentCount (name : String) (least most given : Nat)
  | noArguments (name : String)
  | digitCount (found : Value.Kind)
  | range
  | domain
  | unbounded (x : Float)
  | unreadable (name text : String)
  | unreadableTime (text : String)
  | emptySeparator
  | overflow
  | negation (found : Value.Kind)
  | notCallable (e : Expr)
  | textKey (key : String)
  | access (container key : Value.Kind)
  | operands (op : Operator) (left right : Value.Kind)
  | comparison (op : Operator) (left right : Value.Kind)
  | membership (item container : Value.Kind)
  | order (pair : Value.Unordered)
  | extreme (name : String) (pair : Value.Unordered)
  | merging (changes record : Value.Kind)

namespace Misuse

def countText (least most : Nat) : String :=
  if least = most then toString least else toString least ++ " to " ++ toString most

def message : Misuse → String
  | requires callee wanted found =>
    callee.text ++ " requires " ++ wanted.text ++ ", got " ++ found.name
  | argumentCount name least most given =>
    name ++ "() takes " ++ countText least most ++ " argument(s), got " ++ toString given
  | noArguments name => name ++ "() expects at least 1 argument"
  | digitCount found => "round() digits must be integer, got " ++ found.name
  | range => "math range error"
  | domain => "math domain error"
  | unbounded x => "cannot convert " ++ Binary64.plainText x ++ " to integer"
  | unreadable name text => name ++ "() cannot parse '" ++ text ++ "'"
  | unreadableTime text => "age() cannot read '" ++ text ++ "' as a timestamp or duration"
  | emptySeparator => ".split() separator is empty"
  | overflow => "Integer overflow"
  | negation found => "Cannot negate " ++ found.name
  | notCallable e => "'" ++ e.text ++ "' is not callable"
  | textKey key => "Cannot use string key '" ++ key ++ "' on array; use integer index instead"
  | access container key => "Cannot access " ++ container.name ++ " with " ++ key.name ++ " key"
  | operands op left right =>
    "Unsupported operand types for " ++ op.symbol ++ ": " ++ left.name ++ " and " ++ right.name
  | comparison op left right =>
    "Cannot compare " ++ left.name ++ " " ++ op.symbol ++ " " ++ right.name
  | membership item container => "Cannot test " ++ item.name ++ " in " ++ container.name
  | order pair => "Cannot order " ++ pair.first.name ++ " and " ++ pair.second.name
  | extreme name pair =>
    name ++ "() cannot compare " ++ pair.first.name ++ " and " ++ pair.second.name
  | merging changes record =>
    "update() merges an object into an object, got " ++ changes.name ++ " and " ++ record.name

end Misuse

inductive BadParameter where
  | unknownOption (name : String)
  | notACount (found : Value)
  | countParameters (given : Nat)
  | sliceParameters (given : Nat)
  | zeroStep

def BadParameter.message : BadParameter → String
  | unknownOption name => "unexpected keyword argument '" ++ name ++ "'"
  | notACount found => "expected a non-negative count, got " ++ found.text
  | countParameters given => "expected one count, got " ++ toString given
  | sliceParameters given => "expected 1 to 3 arguments, got " ++ toString given
  | zeroStep => "step must be positive"

/-- What ends a run without an answer: a sort that its keys mislead, or a buffer without room. -/
inductive Panic where
  | sort
  | buffer
deriving DecidableEq, Repr

def Panic.message : Panic → String
  | sort => "user-provided comparison function does not correctly implement a total order"
  | buffer => "capacity overflow"

/-- Errors stand among the records in place of a record. A panic does so as well, but behind it nothing
comes. -/
inductive EvalError where
  | misuse (cause : Misuse)
  | unknownName (name : String)
  | unknownFunction (name : String)
  | unknownMethod (name : String)
  | divisionByZero
  | badParameter (stage : String) (cause : BadParameter)
  | unknownStage (name : String)
  | trailing (stage : String)
  | panic (cause : Panic)

def EvalError.message : EvalError → String
  | misuse cause => "Type error: " ++ cause.message
  | unknownName name => "Unknown name: " ++ name
  | unknownFunction name => "Unknown function: " ++ name ++ "()"
  | unknownMethod name => "Unknown method: ." ++ name ++ "()"
  | divisionByZero => "Division by zero"
  | badParameter stage cause => "Invalid argument for " ++ stage ++ ": " ++ cause.message
  | unknownStage name => "Unknown stage: " ++ name
  | trailing stage => "Stage " ++ stage ++ " does not support trailing calls or accessors"
  | panic cause => cause.message

abbrev Evaluated (α : Type) := Except EvalError α

def refuse {α : Type} (cause : Misuse) : Evaluated α :=
  .error (.misuse cause)

end RecordPipeline
