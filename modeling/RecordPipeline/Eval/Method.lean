import RecordPipeline.Eval.Access
import RecordPipeline.Eval.Function
import RecordPipeline.Text.LetterCase

/-!
The methods of values: those of objects and arrays, and those of strings.
-/

namespace RecordPipeline

namespace Value

/-- The field of that name or the item at that place. A missing one gives the default, and so does
an item that is `null`. -/
def getOr (container key default : Value) : Evaluated Value :=
  match container with
  | object fields => .ok ((Fields.get? key.text fields).getD default)
  | array _ => do
    match ← container.access key with
    | null => .ok default
    | found => .ok found
  | v => refuse (.requires (.method "get") .keyed v.kind)

def get (v : Value) (args : List Value) (named : List (String × Value)) : Evaluated Value :=
  Arguments.oneOrTwo "get" args fun key default =>
    v.getOr key ((default.or (named.lookup "default")).getD null)

def items (v : Value) : Evaluated Value := do
  return array ((← v.asObject (.function "items")).map fun field => array [string field.1, field.2])

def update (v : Value) (args : List Value) : Evaluated Value :=
  Arguments.one "update" args fun changes => do
    let fields ← v.asObject (.function "update")
    return object (Fields.merge fields (← changes.asObject (.function "update")))

def lower (v : Value) : Evaluated Value := do
  return string (String.ofList (Text.lower (← v.asString (.method "lower")).toList))

def upper (v : Value) : Evaluated Value := do
  return string (String.ofList (Text.upper (← v.asString (.method "upper")).toList))

def strip (v : Value) (args : List Value) : Evaluated Value := do
  let s ← v.asString (.method "strip")
  Arguments.atMostOne "strip" args fun
    | none => .ok (string (String.ofList (Text.trim s.toList)))
    | some unwanted => do
      let unwanted ← unwanted.asString (.method "strip")
      return string (String.ofList (Text.trimWhere unwanted.toList.contains s.toList))

def split (v : Value) (args : List Value) : Evaluated Value := do
  let s ← v.asString (.method "split")
  let pieces (texts : List (List Char)) : Value :=
    array (texts.map fun text => string (String.ofList text))
  Arguments.atMostOne "split" args fun
    | none => .ok (pieces (Text.words s.toList))
    | some separator => do
      let separator ← separator.asString (.method "split")
      if separator = "" then refuse .emptySeparator
      else return pieces (Text.splitBy separator.toList s.toList)

def hasAffix (name : String) (test : List Char → List Char → Bool) (v : Value) (args : List Value) :
    Evaluated Value := do
  let s ← v.asString (.method name)
  Arguments.one name args fun affix => do
    return boolean (test (← affix.asString (.method name)).toList s.toList)

end Value

inductive Method where
  | get | keys | values | items | update
  | lower | upper | strip | split | startswith | endswith
deriving DecidableEq, Repr

namespace Method

def name : Method → String
  | get => "get"
  | keys => "keys"
  | values => "values"
  | items => "items"
  | update => "update"
  | lower => "lower"
  | upper => "upper"
  | strip => "strip"
  | split => "split"
  | startswith => "startswith"
  | endswith => "endswith"

def all : List Method :=
  [get, keys, values, items, update, lower, upper, strip, split, startswith, endswith]

def ofName? (name : String) : Option Method :=
  all.find? fun m => m.name == name

/-- Where a method takes no arguments those given are ignored, and so are unknown options. -/
def apply (m : Method) (v : Value) (args : List Value) (named : List (String × Value)) :
    Evaluated Value :=
  match m with
  | get => v.get args named
  | keys => v.keys
  | values => v.values
  | items => v.items
  | update => v.update args
  | lower => v.lower
  | upper => v.upper
  | strip => v.strip args
  | split => v.split args
  | startswith => v.hasAffix m.name List.isPrefixOf args
  | endswith => v.hasAffix m.name List.isSuffixOf args

end Method

def callMethod (v : Value) (name : String) (args : List Value) (named : List (String × Value)) :
    Evaluated Value :=
  match Method.ofName? name with
  | some m => m.apply v args named
  | none => .error (.unknownMethod name)

end RecordPipeline
