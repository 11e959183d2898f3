import RecordPipeline.Eval
import RecordPipeline.Json.Printer
import RecordPipeline.Stream.Adaptor

/-!
The stages of a pipeline as adaptors, one or several for each stage.
-/

namespace RecordPipeline

namespace Value

def parts : Value → List Value
  | array items => items
  | v => [v]

def mergeWith (f : Value → Evaluated Value) (record : Value) : Evaluated Value := do
  let changes ← f record
  match record, changes with
  | object fields, object changes => return object (Fields.merge fields changes)
  | record, changes => refuse (.merging changes.kind record.kind)

def hide (keys : List String) : Value → Value
  | object fields => object (keys.foldl (fun fields key => Fields.erase key fields) fields)
  | v => v

end Value

namespace Buffered

def sort (algorithm : StableSort) (key : Value → Evaluated Value) (reverse : Bool)
    (records : List Value) : Evaluated (List Value) := do
  let keyed ← records.mapM fun v => do return (← key v, v)
  Value.sortByKey algorithm reverse keyed

/-- A record goes to the end of a buffer, which gives up its first one where it is full. -/
def keep (count : Nat) (buffer : List Value) (record : Value) : List Value :=
  let buffer := if buffer.length = count then buffer.tail else buffer
  if 0 < count then buffer ++ [record] else buffer

def last (count : Nat) (records : List Value) : List Value :=
  records.foldl (keep count) []

end Buffered

inductive StageKind where
  | map | filter | update | hide | sorted | unique | first | last | islice | reduceList | yieldAll
deriving DecidableEq, Repr

namespace StageKind

def name : StageKind → String
  | map => "map"
  | filter => "filter"
  | update => "update"
  | hide => "hide"
  | sorted => "sorted"
  | unique => "unique"
  | first => "first"
  | last => "last"
  | islice => "islice"
  | reduceList => "reduce_list"
  | yieldAll => "yield_all"

def all : List StageKind :=
  [map, filter, update, hide, sorted, unique, first, last, islice, reduceList, yieldAll]

def ofName? (name : String) : Option StageKind :=
  all.find? fun kind => kind.name == name

def refuse {α : Type} (kind : StageKind) (cause : BadParameter) : Evaluated α :=
  .error (.badParameter kind.name cause)

def count (kind : StageKind) (v : Value) : Evaluated Nat :=
  match v.toInt? with
  | some n => if 0 ≤ n.toInt then .ok n.toInt.toNat else kind.refuse (.notACount v)
  | none => kind.refuse (.notACount v)

def openCount (kind : StageKind) : Value → Evaluated (Option Nat)
  | .null => .ok none
  | v => (kind.count v).map some

def singleCount (kind : StageKind) : List Value → Evaluated Nat
  | [] => .ok 1
  | [v] => kind.count v
  | more => kind.refuse (.countParameters more.length)

def sliceBounds (kind : StageKind) : List Value → Evaluated (Nat × Option Nat × Nat)
  | [stop] => do return (0, ← kind.openCount stop, 1)
  | [start, stop] => do
    let start ← kind.openCount start
    return (start.getD 0, ← kind.openCount stop, 1)
  | [start, stop, step] => do
    let start ← kind.openCount start
    let stop ← kind.openCount stop
    let step ← kind.openCount step
    return (start.getD 0, stop, step.getD 1)
  | more => kind.refuse (.sliceParameters more.length)

/-- How many of the places from `start` to before `stop` are `step` apart. -/
def sliceSize (start stop step : Nat) : Nat :=
  (stop - start + (step - 1)) / step

def sliceAdaptors (kind : StageKind) (parameters : List Value) : Evaluated (List Adaptor) := do
  let (start, stop, step) ← kind.sliceBounds parameters
  if step = 0 then kind.refuse .zeroStep
  else
    let passes := [.pass start 0, .pass 0 (step - 1)]
    match stop with
    | some stop => return passes ++ [.take (sliceSize start stop step)]
    | none => return passes

def adaptors (platform : Platform) (kind : StageKind) (i : Invocation) :
    Evaluated (List Adaptor) :=
  let f (v : Value) : Evaluated Value := i.callable.eval platform v
  match kind with
  | map => .ok [.map f]
  | filter => .ok [.filter fun v => (f v).map Value.isTruthy]
  | update => .ok [.map (Value.mergeWith f)]
  | hide => do
    let keys := (← i.callable.constants platform).map Value.text
    return [.map fun v => .ok (v.hide keys)]
  | sorted => do
    let reverse ←
      match i.named.lookup "reverse" with
      | some e => (e.eval platform .null).map Value.isTruthy
      | none => .ok false
    return [.gather true (Buffered.sort platform.sort f reverse) []]
  | unique => .ok [.unique (fun v => (f v).map (Json.text .compact)) []]
  | first => do return [.take (← kind.singleCount (← i.callable.constants platform))]
  | last => do
    let count ← kind.singleCount (← i.callable.constants platform)
    return [.gather (count ≤ platform.capacity) (fun records => .ok (Buffered.last count records)) []]
  | islice => do kind.sliceAdaptors (← i.callable.constants platform)
  | reduceList => .ok [.gather true (fun records => .ok [.array records]) []]
  | yieldAll => .ok [.expand (fun v => (f v).map Value.parts) []]

def takesOption (stage option : String) : Bool :=
  stage == sorted.name && option == "reverse"

end StageKind

/-- Options are looked at before the name of the stage. -/
def Invocation.adaptors (platform : Platform) (name : String) (i : Invocation) :
    Evaluated (List Adaptor) :=
  match i.named.find? fun option => !StageKind.takesOption name option.1 with
  | some option => .error (.badParameter name (.unknownOption option.1))
  | none =>
    match StageKind.ofName? name with
    | some kind => kind.adaptors platform i
    | none => .error (.unknownStage name)

def Stage.build (platform : Platform) : Stage → Evaluated (List Adaptor)
  | .reference name => Invocation.passthrough.adaptors platform name
  | .call c =>
    if c.trailers.isEmpty then c.invocation.adaptors platform c.name
    else .error (.trailing c.name)

end RecordPipeline
