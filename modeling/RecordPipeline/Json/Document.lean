import RecordPipeline.Value

/-!
JSON input. A decoder makes documents of a text; a document becomes a value, and the documents of an
input are its records.
-/

namespace RecordPipeline.Json

inductive Document (N : Type) where
  | null
  | boolean (b : Bool)
  | number (n : N)
  | string (s : String)
  | array (items : List (Document N))
  | object (fields : List (String × Document N))

structure Decoder where
  Number : Type
  toInteger? : Number → Option Int64
  toFloat? : Number → Option Float
  /-- The documents that follow each other in a text, if it holds nothing else. -/
  documents : String → Option (List (Document Number))

namespace Decoder

variable (decoder : Decoder)

def numberValue (n : decoder.Number) : Value :=
  match decoder.toInteger? n with
  | some n => .integer n
  | none => ((decoder.toFloat? n).map Value.float).getD .null

mutual

def value : Document decoder.Number → Value
  | .null => .null
  | .boolean b => .boolean b
  | .number n => decoder.numberValue n
  | .string s => .string s
  | .array items => .array (values items)
  | .object fields => .object (Fields.ofList (fieldValues fields))

def values : List (Document decoder.Number) → List Value
  | [] => []
  | item :: later => value item :: values later

def fieldValues : List (String × Document decoder.Number) → List (String × Value)
  | [] => []
  | (key, item) :: later => (key, value item) :: fieldValues later

end

/-- The records of an input: its documents, or the items of its only document if that is an
array. -/
def readRecords (text : String) : Option (List Value) :=
  (decoder.documents text).map fun documents =>
    match decoder.values documents with
    | [.array items] => items
    | other => other

end Decoder

end RecordPipeline.Json
