import RecordPipeline.Token

/-!
Expressions over one record. `record` is the record itself, written `x`; every other word is a
`bare` name. An object literal keeps its fields in the order in which they are written, keys being
expressions too.
-/

namespace RecordPipeline

inductive Operator where
  | equal | notEqual | less | greater | lessEqual | greaterEqual | member
  | add | subtract | multiply | divide | modulo
  | and | or
deriving DecidableEq, Repr

namespace Operator

def symbol : Operator → String
  | equal => "=="
  | notEqual => "!="
  | less => "<"
  | greater => ">"
  | lessEqual => "<="
  | greaterEqual => ">="
  | member => "in"
  | add => "+"
  | subtract => "-"
  | multiply => "*"
  | divide => "/"
  | modulo => "%"
  | and => "and"
  | or => "or"

def ofKind? : TokenKind → Option Operator
  | .equal => some equal
  | .notEqual => some notEqual
  | .less => some less
  | .greater => some greater
  | .lessEqual => some lessEqual
  | .greaterEqual => some greaterEqual
  | .inWord => some member
  | .plus => some add
  | .minus => some subtract
  | .star => some multiply
  | .slash => some divide
  | .percent => some modulo
  | .andWord => some and
  | .orWord => some or
  | _ => none

end Operator

inductive Expr where
  | integer (n : Int64)
  | float (x : Float)
  | string (s : String)
  | boolean (b : Bool)
  | null
  | record
  | bare (s : String)
  | attr (base : Expr) (name : String)
  | index (base key : Expr)
  | call (function : Expr) (args : List Expr) (named : List (String × Expr))
  | binary (op : Operator) (left right : Expr)
  | not (operand : Expr)
  | negate (operand : Expr)
  | array (items : List Expr)
  | tuple (items : List Expr)
  | object (fields : List (Expr × Expr))

inductive Argument where
  | positional (e : Expr)
  | named (name : String) (e : Expr)

namespace Expr

instance : Inhabited Expr := ⟨null⟩

def isBinary : Expr → Bool
  | binary _ _ _ => true
  | _ => false

end Expr

namespace Argument

def positional? : Argument → Option Expr
  | positional e => some e
  | named _ _ => none

def named? : Argument → Option (String × Expr)
  | positional _ => none
  | named name e => some (name, e)

def split (arguments : List Argument) : List Expr × List (String × Expr) :=
  (arguments.filterMap positional?, arguments.filterMap named?)

@[simp] theorem split_nil : split [] = ([], []) := rfl

@[simp] theorem split_cons_positional (e : Expr) (later : List Argument) :
    split (positional e :: later) = (e :: (split later).1, (split later).2) := rfl

@[simp] theorem split_cons_named (name : String) (e : Expr) (later : List Argument) :
    split (named name e :: later) = ((split later).1, (name, e) :: (split later).2) := rfl

end Argument

end RecordPipeline
