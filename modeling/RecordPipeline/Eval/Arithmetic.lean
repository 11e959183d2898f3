import RecordPipeline.Eval.Error
import RecordPipeline.Number.DecimalLibrary
import RecordPipeline.Number.Reading

/-!
Arithmetic of values. Integers stay integers or overflow, doubles stay doubles, and an integer meets
a double as decimals, so that a whole result is an integer again; where decimals have no room the
doubles decide. Sums of strings and of arrays put them together.
-/

namespace RecordPipeline.Value

def ofInt (n : Int) : Evaluated Value :=
  match Number.toInt64? n with
  | some n => .ok (.integer n)
  | none => refuse .overflow

section Decimals

variable (decimals : DecimalLibrary)

def toDecimal? : Value → Option decimals.Number
  | integer n => decimals.ofInteger? n
  | float x => decimals.ofFloat? x
  | _ => none

/-- The integer that a decimal is, otherwise its double. -/
def ofDecimal? (d : decimals.Number) : Option Value :=
  match if decimals.isInteger d then decimals.toInteger? d else none with
  | some n => some (.integer n)
  | none => (decimals.toFloat? d).map .float

/-- An operator on each kind of numbers. -/
structure NumberRule where
  op : Operator
  integers : Int → Int → Evaluated Value
  floats : Float → Float → Float
  decimals : decimals.Number → decimals.Number → Option decimals.Number

end Decimals

namespace NumberRule

variable {decimals : DecimalLibrary}

def throughDecimals? (rule : NumberRule decimals) (a b : Value) : Option Value := do
  let c ← a.toDecimal? decimals
  let d ← b.toDecimal? decimals
  ofDecimal? decimals (← rule.decimals c d)

def mixed (rule : NumberRule decimals) (a b : Value) (x y : Float) : Value :=
  (rule.throughDecimals? a b).getD (.float (rule.floats x y))

def apply (rule : NumberRule decimals) : Value → Value → Evaluated Value
  | integer a, integer b => rule.integers a.toInt b.toInt
  | float x, float y => .ok (.float (rule.floats x y))
  | integer a, float y =>
    .ok (rule.mixed (integer a) (float y) (Binary64.ofInt a.toInt) y)
  | float x, integer b =>
    .ok (rule.mixed (float x) (integer b) x (Binary64.ofInt b.toInt))
  | a, b => refuse (.operands rule.op a.kind b.kind)

def divideIntegers (a b : Int) : Evaluated Value :=
  match if a.tmod b = 0 then Number.toInt64? (a.tdiv b) else none with
  | some quotient => .ok (.integer quotient)
  | none => .ok (.float (Binary64.ofInt a / Binary64.ofInt b))

/-- The remainder that is not negative, moved to the side of a negative divisor. Where the quotient
is out of range there is no remainder either. -/
def moduloIntegers (a b : Int) : Evaluated Value :=
  match Number.toInt64? (a.tdiv b) with
  | some _ =>
    let r := a % b
    ofInt (if b < 0 ∧ r ≠ 0 then r + b else r)
  | none => refuse .overflow

def moduloFloats (x y : Float) : Float :=
  let r := Binary64.truncatedRem x y
  let r := if Binary64.steps r < 0 then r + y.abs else r
  if Binary64.steps y < 0 ∧ Binary64.steps r ≠ 0 then r + y else r

variable (decimals)

def addition : NumberRule decimals :=
  ⟨.add, fun a b => ofInt (a + b), (· + ·), decimals.add⟩

def subtraction : NumberRule decimals :=
  ⟨.subtract, fun a b => ofInt (a - b), (· - ·), decimals.sub⟩

def multiplication : NumberRule decimals :=
  ⟨.multiply, fun a b => ofInt (a * b), (· * ·), decimals.mul⟩

def division : NumberRule decimals :=
  ⟨.divide, divideIntegers, (· / ·), decimals.div⟩

def modulo : NumberRule decimals :=
  ⟨.modulo, moduloIntegers, moduloFloats, decimals.rem⟩

end NumberRule

def isZero (v : Value) : Bool :=
  match v.toFloat? with
  | some x => Binary64.same x 0
  | none => false

section Operators

variable (decimals : DecimalLibrary)

def add : Value → Value → Evaluated Value
  | string a, string b => .ok (string (a ++ b))
  | array a, array b => .ok (array (a ++ b))
  | a, b => (NumberRule.addition decimals).apply a b

def subtract (a b : Value) : Evaluated Value :=
  (NumberRule.subtraction decimals).apply a b

def multiply (a b : Value) : Evaluated Value :=
  (NumberRule.multiplication decimals).apply a b

/-- Zero divides nothing, whatever the dividend is. -/
def divide (a b : Value) : Evaluated Value :=
  if b.isZero then .error .divisionByZero else (NumberRule.division decimals).apply a b

def modulo (a b : Value) : Evaluated Value :=
  if b.isZero then .error .divisionByZero else (NumberRule.modulo decimals).apply a b

end Operators

def negate : Value → Evaluated Value
  | integer n => ofInt (-n.toInt)
  | float x => .ok (float (-x))
  | v => refuse (.negation v.kind)

theorem ofInt_toInt (n : Int64) : ofInt n.toInt = .ok (integer n) := by
  rw [ofInt, Number.toInt64?_toInt]

end RecordPipeline.Value
