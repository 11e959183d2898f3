import RecordPipeline.Eval.Error

/-!
Adaptors make one stream of records of another. An adaptor that is asked for an item may have an answer
at once; otherwise it asks the stream behind it, and either answers with what it makes of the item that
comes or asks again.
-/

namespace RecordPipeline

abbrev Item := Evaluated Value

/-- The panic that an item stands for. -/
def Item.panic? : Item → Option Panic
  | .error (.panic cause) => some cause
  | _ => none

/-- What an adaptor remembers. Errors go through all but `pass`, which counts them, and `gather`, which
ends at the first of them.

`map` changes every record, `filter` keeps those for which the test holds, and `unique` those whose key
has not been seen. `expand` gives several records for each; those still to come are in front. `pass`
passes over `ahead` items, and over `gap` items behind each that it gives. `take` ends after `left`
items. `gather` holds the records until there are no more, unless there is no room for what it
computes then, and `output` has what came of it. -/
inductive Adaptor where
  | map (f : Value → Evaluated Value)
  | filter (test : Value → Evaluated Bool)
  | unique (key : Value → Evaluated String) (seen : List String)
  | expand (f : Value → Evaluated (List Value)) (front : List Value)
  | pass (ahead gap : Nat)
  | take (left : Nat)
  | gather (roomy : Bool) (result : List Value → Evaluated (List Value)) (held : List Value)
  | output (rest : List Value)

/-- The answer to a request for an item, where `none` is the end, or another request to the stream
behind. -/
inductive Reaction where
  | answer (item? : Option Item) (after : Adaptor)
  | again (after : Adaptor)

namespace Adaptor

def ready? : Adaptor → Option (Option Item × Adaptor)
  | expand f (v :: later) => some (some (.ok v), expand f later)
  | take 0 => some (none, take 0)
  | gather false _ _ => some (some (.error (.panic .buffer)), output [])
  | output (v :: later) => some (some (.ok v), output later)
  | output [] => some (none, output [])
  | _ => none

def onRecord : Adaptor → Value → Reaction
  | map f, v => .answer (some (f v)) (map f)
  | filter test, v =>
    match test v with
    | .ok true => .answer (some (.ok v)) (filter test)
    | .ok false => .again (filter test)
    | .error e => .answer (some (.error e)) (filter test)
  | unique key seen, v =>
    match key v with
    | .ok k =>
      if seen.contains k then .again (unique key seen)
      else .answer (some (.ok v)) (unique key (k :: seen))
    | .error e => .answer (some (.error e)) (unique key seen)
  | expand f _, v =>
    match f v with
    | .ok [] => .again (expand f [])
    | .ok (first :: later) => .answer (some (.ok first)) (expand f later)
    | .error e => .answer (some (.error e)) (expand f [])
  | pass (ahead + 1) gap, _ => .again (pass ahead gap)
  | pass 0 gap, v => .answer (some (.ok v)) (pass gap gap)
  | take left, v => .answer (some (.ok v)) (take (left - 1))
  | gather roomy result held, v => .again (gather roomy result (v :: held))
  | output rest, _ => .again (output rest)

def onError : Adaptor → EvalError → Reaction
  | pass (ahead + 1) gap, _ => .again (pass ahead gap)
  | pass 0 gap, e => .answer (some (.error e)) (pass gap gap)
  | take left, e => .answer (some (.error e)) (take (left - 1))
  | gather _ _ _, e => .answer (some (.error e)) (output [])
  | a, e => .answer (some (.error e)) a

def onEnd : Adaptor → Option Item × Adaptor
  | gather _ result held =>
    match result held.reverse with
    | .ok [] => (none, output [])
    | .ok (v :: later) => (some (.ok v), output later)
    | .error e => (some (.error e), output [])
  | a => (none, a)

/-- A panic goes through every adaptor. -/
def react (a : Adaptor) : Option Item → Reaction
  | some (.ok v) => a.onRecord v
  | some (.error (.panic cause)) => .answer (some (.error (.panic cause))) a
  | some (.error e) => a.onError e
  | none => .answer a.onEnd.1 a.onEnd.2

end Adaptor

end RecordPipeline
