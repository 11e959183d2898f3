import RecordPipeline.Eval.Arithmetic
import RecordPipeline.Platform

/-!
The functions of the language, and those behind `math.`, on values that have been evaluated.
-/

namespace RecordPipeline

namespace Arguments

variable {α : Type}

def one (name : String) (args : List Value) (f : Value → Evaluated α) : Evaluated α :=
  match args with
  | [v] => f v
  | _ => refuse (.argumentCount name 1 1 args.length)

def two (name : String) (args : List Value) (f : Value → Value → Evaluated α) : Evaluated α :=
  match args with
  | [v, w] => f v w
  | _ => refuse (.argumentCount name 2 2 args.length)

def oneOrTwo (name : String) (args : List Value) (f : Value → Option Value → Evaluated α) :
    Evaluated α :=
  match args with
  | [v] => f v none
  | [v, w] => f v (some w)
  | _ => refuse (.argumentCount name 1 2 args.length)

def atMostOne (name : String) (args : List Value) (f : Option Value → Evaluated α) : Evaluated α :=
  match args with
  | [] => f none
  | [v] => f (some v)
  | _ => refuse (.argumentCount name 0 1 args.length)

end Arguments

namespace Value

def asArray (callee : Callee) : Value → Evaluated (List Value)
  | array items => .ok items
  | v => refuse (.requires callee .array v.kind)

def asObject (callee : Callee) : Value → Evaluated (List (String × Value))
  | object fields => .ok fields
  | v => refuse (.requires callee .object v.kind)

def asString (callee : Callee) : Value → Evaluated String
  | string s => .ok s
  | v => refuse (.requires callee .string v.kind)

def asNumber (callee : Callee) (v : Value) : Evaluated Float :=
  match v.toFloat? with
  | some x => .ok x
  | none => refuse (.requires callee .number v.kind)

def length (v : Value) : Evaluated Value :=
  match v with
  | string s => .ok (integer (Int64.ofNat s.length))
  | array items => .ok (integer (Int64.ofNat items.length))
  | object fields => .ok (integer (Int64.ofNat fields.length))
  | v => refuse (.requires (.function "len") .sized v.kind)

/-- The nearest integer to a whole number made from a double; a NaN gives zero. -/
def clampFloat (round : Float → Int) (x : Float) : Value :=
  integer (if Binary64.isNaN x then 0 else Number.clampInt64 (round x))

def toInteger (v : Value) : Evaluated Value :=
  match v with
  | integer n => .ok (integer n)
  | float x => .ok (clampFloat Binary64.trunc x)
  | boolean b => .ok (integer (if b then 1 else 0))
  | string s =>
    match Number.readInt (Text.trim s.toList) with
    | some n => .ok (integer n)
    | none => refuse (.unreadable "int" s)
  | v => refuse (.requires (.function "int") .readable v.kind)

def toDouble (v : Value) : Evaluated Value :=
  match v with
  | integer n => .ok (float (Binary64.ofInt n.toInt))
  | float x => .ok (float x)
  | string s =>
    match Number.readFloat (Text.trim s.toList) with
    | some x => .ok (float x)
    | none => refuse (.unreadable "float" s)
  | v => refuse (.requires (.function "float") .readable v.kind)

/-- The size of a number. The least integer has none of its own and gives the greatest one. -/
def absolute (v : Value) : Evaluated Value :=
  match v with
  | integer n => .ok (integer (Number.clampInt64 n.toInt.natAbs))
  | float x => .ok (float x.abs)
  | v => refuse (.requires (.function "abs") .number v.kind)

def roundPlaces (decimals : DecimalLibrary) (x : Float) (places : Int64) : Float :=
  let rounded? := do
    let d ← decimals.ofFloat? x
    decimals.toFloat? (decimals.roundTo d (min 28 places.toInt.toNat))
  rounded?.getD x

/-- Rounds to an integer, or to a number of places; a half goes to the even neighbour. -/
def rounded (decimals : DecimalLibrary) (v : Value) (places : Option Value) : Evaluated Value := do
  let places ←
    match places with
    | none => .ok none
    | some (integer n) => .ok (some n)
    | some other => refuse (.digitCount other.kind)
  match v, places with
  | integer n, _ => .ok (integer n)
  | float x, none => .ok (clampFloat Binary64.roundEven x)
  | float x, some n => .ok (float (roundPlaces decimals x n))
  | v, _ => refuse (.requires (.function "round") .number v.kind)

def sumFrom (decimals : DecimalLibrary) : Value → List Value → Evaluated Value
  | total, [] => .ok total
  | total, item :: later =>
    match item.toFloat? with
    | none => refuse (.requires (.function "sum") .numericItems item.kind)
    | some _ => do sumFrom decimals (← total.add decimals item) later

def sum (decimals : DecimalLibrary) (v : Value) : Evaluated Value := do
  sumFrom decimals (integer 0) (← v.asArray (.function "sum"))

/-- Of equal items the first one stays. -/
def extremeFrom (name : String) (wanted : Ordering) : Value → List Value → Evaluated Value
  | best, [] => .ok best
  | best, item :: later =>
    match compare? item best with
    | some order => extremeFrom name wanted (if order = wanted then item else best) later
    | none => refuse (.extreme name ⟨item.kind, best.kind⟩)

def extremeOf (name : String) (wanted : Ordering) : List Value → Evaluated Value
  | [] => .ok null
  | item :: later => extremeFrom name wanted item later

def extreme (name : String) (wanted : Ordering) : List Value → Evaluated Value
  | [] => refuse (.noArguments name)
  | [v] => do extremeOf name wanted (← v.asArray (.function name))
  | items => extremeOf name wanted items

def sortByKey {α : Type} (sort : StableSort) (reverse : Bool) (items : List (Value × α)) :
    Evaluated (List α) :=
  match sortKeyed sort reverse items with
  | .ok sorted => .ok (sorted.map Prod.snd)
  | .error (.unordered pair) => refuse (.order pair)
  | .error .panic => .error (.panic .sort)

def sorted (sort : StableSort) (reverse : Bool) (v : Value) : Evaluated Value := do
  let items ← v.asArray (.function "sorted")
  return array (← sortByKey sort reverse (items.map fun item => (item, item)))

def keys (v : Value) : Evaluated Value := do
  return array ((← v.asObject (.function "keys")).map fun field => string field.1)

def values (v : Value) : Evaluated Value := do
  return array ((← v.asObject (.function "values")).map Prod.snd)

def age (calendar : Calendar) (v : Value) : Evaluated Value :=
  match v with
  | string s =>
    match calendar.age s with
    | some seconds => .ok (float seconds)
    | none => refuse (.unreadableTime s)
  | v => refuse (.requires (.function "age") .time v.kind)

end Value

inductive Builtin where
  | len | str | int | float | abs | round | sum | min | max | sorted | keys | values | age
deriving DecidableEq, Repr

namespace Builtin

def name : Builtin → String
  | len => "len"
  | str => "str"
  | int => "int"
  | float => "float"
  | abs => "abs"
  | round => "round"
  | sum => "sum"
  | min => "min"
  | max => "max"
  | sorted => "sorted"
  | keys => "keys"
  | values => "values"
  | age => "age"

def all : List Builtin :=
  [len, str, int, float, abs, round, sum, min, max, sorted, keys, values, age]

def ofName? (name : String) : Option Builtin :=
  all.find? fun f => f.name == name

def apply (platform : Platform) (f : Builtin) (args : List Value) (named : List (String × Value)) :
    Evaluated Value :=
  match f with
  | len => Arguments.one f.name args Value.length
  | str => Arguments.one f.name args fun v => .ok (.string v.text)
  | int => Arguments.one f.name args Value.toInteger
  | float => Arguments.one f.name args Value.toDouble
  | abs => Arguments.one f.name args Value.absolute
  | round => Arguments.oneOrTwo f.name args (Value.rounded platform.decimals)
  | sum => Arguments.one f.name args (Value.sum platform.decimals)
  | min => Value.extreme f.name .lt args
  | max => Value.extreme f.name .gt args
  | sorted =>
    Arguments.one f.name args
      (Value.sorted platform.sort ((named.lookup "reverse").any Value.isTruthy))
  | keys => Arguments.one f.name args Value.keys
  | values => Arguments.one f.name args Value.values
  | age => Arguments.one f.name args (Value.age platform.calendar)

end Builtin

def callFunction (platform : Platform) (name : String) (args : List Value)
    (named : List (String × Value)) : Evaluated Value :=
  match Builtin.ofName? name with
  | some f => f.apply platform args named
  | none => .error (.unknownFunction name)

inductive MathFunction where
  | floor | ceil | sqrt | exp | log | log2 | log10 | pow
deriving DecidableEq, Repr

namespace MathFunction

def name : MathFunction → String
  | floor => "math.floor"
  | ceil => "math.ceil"
  | sqrt => "math.sqrt"
  | exp => "math.exp"
  | log => "math.log"
  | log2 => "math.log2"
  | log10 => "math.log10"
  | pow => "math.pow"

def all : List MathFunction :=
  [floor, ceil, sqrt, exp, log, log2, log10, pow]

def ofName? (name : String) : Option MathFunction :=
  all.find? fun f => f.name == name

def callee (f : MathFunction) : Callee :=
  .function f.name

def inRange (x : Float) : Evaluated Value :=
  if Binary64.isInfinite x then refuse .range else .ok (.float x)

def isBelowZero (x : Float) : Bool :=
  Binary64.compare? x 0 == some .lt

def hasNoLogarithm (x : Float) : Bool :=
  isBelowZero x || Binary64.same x 0

def toWhole (f : MathFunction) (round : Float → Int) (v : Value) : Evaluated Value :=
  match v with
  | .integer n => .ok (.integer n)
  | v => do
    let x ← v.asNumber f.callee
    match if Binary64.isFinite x then Number.toInt64? (round x) else none with
    | some n => .ok (.integer n)
    | none => refuse (.unbounded x)

def logarithm (f : MathFunction) (ofFloat : Float → Float) (v : Value) : Evaluated Value := do
  let x ← v.asNumber f.callee
  if hasNoLogarithm x then refuse .domain else inRange (ofFloat x)

def logarithmTo (f : MathFunction) (v : Value) (base : Option Value) : Evaluated Value :=
  match base with
  | none => f.logarithm Float.log v
  | some base => do
    let x ← v.asNumber f.callee
    if hasNoLogarithm x then refuse .domain
    let b ← base.asNumber f.callee
    if hasNoLogarithm b then refuse .domain
    if Binary64.same b 1 then .error .divisionByZero
    else inRange (x.log / b.log)

def power (f : MathFunction) (v w : Value) : Evaluated Value := do
  let base ← v.asNumber f.callee
  let exponent ← w.asNumber f.callee
  if isBelowZero base && !Binary64.isWhole exponent then refuse .domain
  else inRange (base.pow exponent)

def squareRoot (f : MathFunction) (v : Value) : Evaluated Value := do
  let x ← v.asNumber f.callee
  if isBelowZero x then refuse .domain else inRange x.sqrt

def apply (f : MathFunction) (args : List Value) : Evaluated Value :=
  match f with
  | floor => Arguments.one f.name args (f.toWhole Binary64.floor)
  | ceil => Arguments.one f.name args (f.toWhole Binary64.ceil)
  | sqrt => Arguments.one f.name args f.squareRoot
  | exp => Arguments.one f.name args fun v => do inRange (← v.asNumber f.callee).exp
  | log => Arguments.oneOrTwo f.name args f.logarithmTo
  | log2 => Arguments.one f.name args (f.logarithm Float.log2)
  | log10 => Arguments.one f.name args (f.logarithm Float.log10)
  | pow => Arguments.two f.name args f.power

end MathFunction

def mathName (name : String) : String :=
  "math." ++ name

def callMath (name : String) (args : List Value) : Evaluated Value :=
  match MathFunction.ofName? (mathName name) with
  | some f => f.apply args
  | none => .error (.unknownFunction (mathName name))

def mathConstant (name : String) : Evaluated Value :=
  if name = "pi" then .ok (.float (Float.ofBits 0x400921fb54442d18))
  else if name = "e" then .ok (.float (Float.ofBits 0x4005bf0a8b145769))
  else if name = "inf" then .ok (.float (Binary64.infinity false))
  else .error (.unknownName (mathName name))

end RecordPipeline
