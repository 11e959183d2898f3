import RecordPipeline.Expr
import RecordPipeline.Number.Shortest

/-!
Expressions written as query text. Binary operations that are operands of another are put in
parentheses; nothing else is.
-/

namespace RecordPipeline.Expr

def quoteChar (c : Char) : String :=
  if c = '"' then "\\\""
  else if c = '\\' then "\\\\"
  else if c = '\n' then "\\n"
  else if c = '\t' then "\\t"
  else if c = '\r' then "\\r"
  else c.toString

def quote (s : String) : String :=
  "\"" ++ String.join (s.toList.map quoteChar) ++ "\""

/-- Encloses the text of a binary operand. -/
def operandText (e : Expr) (text : String) : String :=
  if e.isBinary then "(" ++ text ++ ")" else text

def commaJoin (texts : List String) : String :=
  String.intercalate ", " texts

mutual

def text : Expr → String
  | integer n => toString n.toInt
  | float x => Binary64.literalText x
  | string s => quote s
  | boolean true => "True"
  | boolean false => "False"
  | null => "None"
  | record => "x"
  | bare s => s
  | attr base name => text base ++ "." ++ name
  | index base key => text base ++ "[" ++ text key ++ "]"
  | call function args named =>
    text function ++ "(" ++ commaJoin (texts args ++ namedTexts named) ++ ")"
  | binary op left right =>
    operandText left (text left) ++ " " ++ op.symbol ++ " " ++ operandText right (text right)
  | not operand => "not " ++ text operand
  | negate operand => "-" ++ text operand
  | array items => "[" ++ commaJoin (texts items) ++ "]"
  | tuple [item] => "(" ++ text item ++ ",)"
  | tuple items => "(" ++ commaJoin (texts items) ++ ")"
  | object fields => "\x7b" ++ commaJoin (fieldTexts fields) ++ "\x7d"

def texts : List Expr → List String
  | [] => []
  | e :: later => text e :: texts later

def namedTexts : List (String × Expr) → List String
  | [] => []
  | (name, e) :: later => (name ++ "=" ++ text e) :: namedTexts later

def fieldTexts : List (Expr × Expr) → List String
  | [] => []
  | (key, value) :: later => (text key ++ ": " ++ text value) :: fieldTexts later

end

end RecordPipeline.Expr
