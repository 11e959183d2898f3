import RecordPipeline.Expr
import RecordPipeline.Number.Reading
import RecordPipeline.SyntaxTree.Parser

/-!
From syntax trees to expressions. A chain of comparisons becomes the conjunction of its neighbours,
other chains group to the left, parentheses leave nothing behind, and a bare name in front of a
colon is a string. On trees that the grammar makes, only a float literal can fail.
-/

namespace RecordPipeline

/-- The characters that a literal between quotes stands for. A backslash before a character without
a meaning of its own is kept. -/
def unescapeChars : List Char → List Char
  | [] => []
  | c :: cs =>
    if c = '\\' then
      match cs with
      | [] => ['\\']
      | escaped :: cs =>
        if escaped = 'n' then '\n' :: unescapeChars cs
        else if escaped = 't' then '\t' :: unescapeChars cs
        else if escaped = 'r' then '\r' :: unescapeChars cs
        else if escaped = '0' then '\x00' :: unescapeChars cs
        else if escaped = '"' || escaped = '\'' || escaped = '\\' then escaped :: unescapeChars cs
        else '\\' :: escaped :: unescapeChars cs
    else c :: unescapeChars cs

def unescape (literal : String) : String :=
  String.ofList (unescapeChars (literal.toList.drop 1).dropLast)

namespace Node

def misplaced {α : Type} : Except Fault α :=
  .error ⟨.misplaced, 0⟩

def integerLiteral (token : Token) : Except Fault Expr :=
  match Number.readInt token.text.toList with
  | some n => .ok (.integer n)
  | none =>
    match Number.readFloat token.text.toList with
    | some x => .ok (.float x)
    | none => misplaced

def floatLiteral (token : Token) : Except Fault Expr :=
  match Number.readFloat token.text.toList with
  | some x => .ok (.float x)
  | none => .error ⟨.invalidFloat token.text, token.offset⟩

def literal (token : Token) : Except Fault Expr :=
  match token.kind with
  | .integer => integerLiteral token
  | .float => floatLiteral token
  | .string => .ok (.string (unescape token.text))
  | .trueWord => .ok (.boolean true)
  | .falseWord => .ok (.boolean false)
  | .nullWord => .ok .null
  | .name => .ok (if token.text = "x" then .record else .bare token.text)
  | _ => misplaced

def compared (symbol : Node) (left right : Expr) : Except Fault Expr :=
  match symbol with
  | branch .notIn _ => .ok (.not (.binary .member left right))
  | branch _ _ => misplaced
  | leaf token =>
    match Operator.ofKind? token.kind with
    | some op => .ok (.binary op left right)
    | none => misplaced

def conjoin : List Expr → Except Fault Expr
  | [] => misplaced
  | first :: later => .ok (later.foldl (.binary .and) first)

mutual

def lower : Node → Except Fault Expr
  | leaf token => literal token
  | branch rule children =>
    match rule, children with
    | .sequence, items => do return .tuple (← lowerItems items)
    | .disjunction, first :: more | .conjunction, first :: more
    | .sum, first :: more | .product, first :: more => do lowerChain (← lower first) more
    | .comparison, first :: more => do conjoin (← lowerComparisons (← lower first) more)
    | .negation, [_, operand] => do return .not (← lower operand)
    | .signed, [sign, operand] => do
      let e ← lower operand
      return if sign.kind? = some .minus then .negate e else e
    | .access, first :: trailers => do lowerTrailers (← lower first) trailers
    | .parens, [_, _] => .ok (.tuple [])
    | .parens, [_, inner, _] => lower inner
    | .list, [_, _] => .ok (.array [])
    | .list, [_, inner, _] =>
      match inner with
      | branch .sequence items => do return .array (← lowerItems items)
      | single => do return .array [← lower single]
    | .braces, [_, _] => .ok (.object [])
    | .braces, [_, branch .fields parts, _] => do return .object (← lowerFields parts)
    | .implicitField, [_, leaf name] => .ok (.attr .record name.text)
    | _, _ => misplaced

def lowerItems : List Node → Except Fault (List Expr)
  | [] => .ok []
  | item :: later =>
    if item.kind? = some .comma then lowerItems later
    else do
      let e ← lower item
      return e :: (← lowerItems later)

def lowerChain (left : Expr) : List Node → Except Fault Expr
  | [] => .ok left
  | leaf symbol :: right :: later =>
    match Operator.ofKind? symbol.kind with
    | some op => do lowerChain (.binary op left (← lower right)) later
    | none => misplaced
  | _ => misplaced

/-- Every comparison has the right operand of the one before it on its left. -/
def lowerComparisons (left : Expr) : List Node → Except Fault (List Expr)
  | [] => .ok []
  | symbol :: right :: later => do
    let right ← lower right
    let first ← compared symbol left right
    return first :: (← lowerComparisons right later)
  | _ => misplaced

def lowerTrailers (object : Expr) : List Node → Except Fault Expr
  | [] => .ok object
  | branch _ (leaf opening :: parts) :: later =>
    match opening.kind, parts with
    | .openParen, [_] => lowerTrailers (.call object [] []) later
    | .openParen, [branch _ content, _] => do
      let (args, named) := Argument.split (← lowerArguments content)
      lowerTrailers (.call object args named) later
    | .openBracket, [index, _] => do lowerTrailers (.index object (← lower index)) later
    | .dot, [leaf name] => lowerTrailers (.attr object name.text) later
    | _, _ => misplaced
  | _ => misplaced

def lowerArguments : List Node → Except Fault (List Argument)
  | [] => .ok []
  | item :: later =>
    match item with
    | branch .binding [name, _, value] => do
      let e ← lower value
      return .named (name.texts.headD "") e :: (← lowerArguments later)
    | other =>
      if other.kind? = some .comma then lowerArguments later
      else do
        let e ← lower other
        return .positional e :: (← lowerArguments later)

def lowerFields : List Node → Except Fault (List (Expr × Expr))
  | key :: _ :: value :: later => do
    let k ←
      match key.bareName? with
      | some name => pure (.string name)
      | none => lower key
    let v ← lower value
    match later with
    | _ :: later => return (k, v) :: (← lowerFields later)
    | [] => return [(k, v)]
  | _ => .ok []

end

/-- A text of one expression without a comma is that expression, otherwise a tuple. -/
def lowerQuery : Node → Except Fault Expr
  | branch .query (branch _ [single] :: _) => lower single
  | branch .query (content :: _) => lower content
  | _ => misplaced

def lowerArgumentList (node : Node) : Except Fault (List Argument) :=
  lowerArguments node.children

end Node

namespace Expr

def parse (text : String) : Except SyntaxError Expr :=
  locate text (do (← parseQuery text).lowerQuery)

def parseArguments (text : String) : Except SyntaxError (List Argument) :=
  locate text (do (← RecordPipeline.parseArguments text).lowerArgumentList)

end Expr

end RecordPipeline
