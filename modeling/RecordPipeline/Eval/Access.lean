import RecordPipeline.Eval.Arithmetic
import RecordPipeline.Value.Equality

/-!
Looking into values, and the operators between two of them. A missing element is `null`, and so is
every element of `null`. Negative positions count from the end.
-/

namespace RecordPipeline.Value

/-- The item at a position, where -1 is the last one. -/
def itemAt? {α : Type} (items : List α) (n : Int) : Option α :=
  if n < 0 then
    if n.natAbs ≤ items.length then items[items.length - n.natAbs]? else none
  else items[n.toNat]?

/-- A position reads an array or a string, a key an object. Numbers and booleans are keys by their
text. -/
def access : Value → Value → Evaluated Value
  | object fields, string key => .ok ((Fields.get? key fields).getD null)
  | object fields, integer n => .ok ((Fields.get? (integer n).text fields).getD null)
  | object fields, float x => .ok ((Fields.get? (float x).text fields).getD null)
  | object fields, boolean b => .ok ((Fields.get? (boolean b).text fields).getD null)
  | array items, integer n => .ok ((itemAt? items n.toInt).getD null)
  | string s, integer n =>
    match itemAt? s.toList n.toInt with
    | some c => .ok (string c.toString)
    | none => .ok null
  | null, _ => .ok null
  | array _, string key => refuse (.textKey key)
  | container, key => refuse (.access container.kind key.kind)

def holds : Value → Value → Evaluated Bool
  | item, array items => .ok (items.any fun v => looseEq v item)
  | string needle, string s => .ok (Text.occursIn needle.toList s.toList)
  | string key, object fields => .ok (Fields.get? key fields).isSome
  | item, container => refuse (.membership item.kind container.kind)

def comparison (op : Operator) (accepts : Ordering → Bool) (a b : Value) : Evaluated Value :=
  match compare? a b with
  | some order => .ok (boolean (accepts order))
  | none => refuse (.comparison op a.kind b.kind)

end RecordPipeline.Value

namespace RecordPipeline

def Operator.apply (decimals : DecimalLibrary) (op : Operator) (a b : Value) : Evaluated Value :=
  match op with
  | equal => .ok (.boolean (Value.looseEq a b))
  | notEqual => .ok (.boolean !Value.looseEq a b)
  | less => Value.comparison less Ordering.isLT a b
  | greater => Value.comparison greater Ordering.isGT a b
  | lessEqual => Value.comparison lessEqual Ordering.isLE a b
  | greaterEqual => Value.comparison greaterEqual Ordering.isGE a b
  | member => (Value.holds a b).map .boolean
  | add => Value.add decimals a b
  | subtract => Value.subtract decimals a b
  | multiply => Value.multiply decimals a b
  | divide => Value.divide decimals a b
  | modulo => Value.modulo decimals a b
  | and => .ok (.boolean (a.isTruthy && b.isTruthy))
  | or => .ok (.boolean (a.isTruthy || b.isTruthy))

end RecordPipeline
