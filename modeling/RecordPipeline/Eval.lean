import RecordPipeline.Eval.Method
import RecordPipeline.Pipeline

/-!
The value of an expression on a record. Operands are evaluated from left to right and
the first error ends it; `and` and `or` look at their right side only if the left one does not
decide. The arguments of a call come before the value that it is a method of.
-/

namespace RecordPipeline

namespace Expr

def isMath : Expr → Bool
  | bare name => name == "math"
  | _ => false

mutual

def eval (platform : Platform) (input : Value) : Expr → Evaluated Value
  | integer n => .ok (.integer n)
  | float x => .ok (.float x)
  | string s => .ok (.string s)
  | boolean b => .ok (.boolean b)
  | null => .ok .null
  | record => .ok input
  | bare s => .error (.unknownName s)
  | attr base name =>
    if base.isMath then mathConstant name
    else do (← eval platform input base).access (.string name)
  | index base key => do
    let container ← eval platform input base
    container.access (← eval platform input key)
  | call function args named => do
    let args ← evalAll platform input args
    let named ← evalNamed platform input named
    match function with
    | bare name => callFunction platform name args named
    | attr base name =>
      if base.isMath then callMath name args
      else callMethod (← eval platform input base) name args named
    | other => refuse (.notCallable other)
  | binary op left right => do
    let a ← eval platform input left
    match op with
    | .and => if a.isTruthy then return .boolean (← eval platform input right).isTruthy
              else return .boolean false
    | .or => if a.isTruthy then return .boolean true
             else return .boolean (← eval platform input right).isTruthy
    | op => op.apply platform.decimals a (← eval platform input right)
  | not operand => do return .boolean !(← eval platform input operand).isTruthy
  | negate operand => do (← eval platform input operand).negate
  | array items => do return .array (← evalAll platform input items)
  | tuple items => do return .array (← evalAll platform input items)
  | object fields => do return .object (Fields.ofList (← evalFields platform input fields))

def evalAll (platform : Platform) (input : Value) : List Expr → Evaluated (List Value)
  | [] => .ok []
  | e :: later => do
    let v ← eval platform input e
    return v :: (← evalAll platform input later)

def evalNamed (platform : Platform) (input : Value) :
    List (String × Expr) → Evaluated (List (String × Value))
  | [] => .ok []
  | (name, e) :: later => do
    let v ← eval platform input e
    return (name, v) :: (← evalNamed platform input later)

def evalFields (platform : Platform) (input : Value) :
    List (Expr × Expr) → Evaluated (List (String × Value))
  | [] => .ok []
  | (key, e) :: later => do
    let key ← eval platform input key
    let v ← eval platform input e
    return (key.text, v) :: (← evalFields platform input later)

end

attribute [grind =] eval evalAll evalNamed evalFields

end Expr

/-- One expression gives its value, several give an array, none gives the record. -/
def Callable.eval (platform : Platform) (input : Value) (c : Callable) : Evaluated Value :=
  match c.parts with
  | [] => .ok input
  | [e] => e.eval platform input
  | parts => (Expr.evalAll platform input parts).map .array

def Callable.constants (platform : Platform) (c : Callable) : Evaluated (List Value) :=
  Expr.evalAll platform .null c.parts

end RecordPipeline
