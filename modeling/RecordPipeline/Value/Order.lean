import RecordPipeline.Number.Binary64
import RecordPipeline.Value

/-!
The partial order of values. Numbers compare with numbers, strings by code points, booleans, and
arrays item by item; nothing else compares.
-/

namespace RecordPipeline.Value

mutual

def compare? : Value → Value → Option Ordering
  | integer a, integer b => some (compare a.toInt b.toInt)
  | float a, float b => Binary64.compare? a b
  | integer a, float b => Binary64.compare? (Binary64.ofInt a.toInt) b
  | float a, integer b => Binary64.compare? a (Binary64.ofInt b.toInt)
  | string a, string b => some (compare a b)
  | boolean a, boolean b => some (compare a b)
  | array a, array b => compareItems? a b
  | _, _ => none

def compareItems? : List Value → List Value → Option Ordering
  | [], [] => some .eq
  | [], _ :: _ => some .lt
  | _ :: _, [] => some .gt
  | a :: as, b :: bs =>
    match compare? a b with
    | some .eq => compareItems? as bs
    | other => other

end

structure Unordered where
  first : Kind
  second : Kind
deriving DecidableEq, Repr

/-- How two keys stand when they are sorted. In reverse the two change places, so equal keys stay in
order either way. -/
def order? (reverse : Bool) (a b : Value) : Option Ordering :=
  if reverse then compare? b a else compare? a b

def unordered (reverse : Bool) (a b : Value) : Unordered :=
  if reverse then ⟨b.kind, a.kind⟩ else ⟨a.kind, b.kind⟩

end RecordPipeline.Value
