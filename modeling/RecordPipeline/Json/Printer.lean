import RecordPipeline.Number.Shortest
import RecordPipeline.Text.CharClass
import RecordPipeline.Value

/-!
Values written as JSON, on one line or laid out with two blanks a level. A double keeps a fractional
part while it is written to the unit; from `10 ^ 16` on a whole one is written without. Numbers that
JSON lacks become `null`. Controls are escaped, in strings and keys alike.
-/

namespace RecordPipeline.Json

open Text

inductive Layout where
  | compact
  | pretty
deriving DecidableEq, Repr

def hexDigit (n : Nat) : Char :=
  Nat.digitChar (n % 16)

def unicodeEscape (c : Char) : List Char :=
  let n := c.toNat
  ['\\', 'u', hexDigit (n / 4096), hexDigit (n / 256), hexDigit (n / 16), hexDigit n]

def escapeChar (c : Char) : List Char :=
  if c = '"' then ['\\', '"']
  else if c = '\\' then ['\\', '\\']
  else if c = '\n' then ['\\', 'n']
  else if c = '\r' then ['\\', 'r']
  else if c = '\t' then ['\\', 't']
  else if isControl c then unicodeEscape c
  else [c]

def writeString (s : String) : List Char :=
  '"' :: s.toList.flatMap escapeChar ++ ['"']

def floatText (x : Float) : String :=
  if !Binary64.isFinite x then "null"
  else if Binary64.isWhole x && !Binary64.isLarge x then Binary64.wholeText x
  else Binary64.plainText x

/-- What goes before an item at a level of nesting, or before a closing bracket. -/
def Layout.break : Layout → Nat → List Char
  | .compact, _ => []
  | .pretty, level => '\n' :: List.replicate (2 * level) ' '

def Layout.colon : Layout → List Char
  | .compact => [':']
  | .pretty => [':', ' ']

mutual

def write (layout : Layout) (level : Nat) : Value → List Char
  | .null => ['n', 'u', 'l', 'l']
  | .boolean true => ['t', 'r', 'u', 'e']
  | .boolean false => ['f', 'a', 'l', 's', 'e']
  | .integer n => (toString n.toInt).toList
  | .float x => (floatText x).toList
  | .string s => writeString s
  | .array [] => ['[', ']']
  | .array (item :: later) =>
    '[' :: layout.break (level + 1) ++ write layout (level + 1) item ++
      writeItems layout level later ++ layout.break level ++ [']']
  | .object [] => ['{', '}']
  | .object ((key, item) :: later) =>
    '{' :: layout.break (level + 1) ++ writeString key ++ layout.colon ++
      write layout (level + 1) item ++ writeFields layout level later ++
      layout.break level ++ ['}']

def writeItems (layout : Layout) (level : Nat) : List Value → List Char
  | [] => []
  | item :: later =>
    ',' :: layout.break (level + 1) ++ write layout (level + 1) item ++
      writeItems layout level later

def writeFields (layout : Layout) (level : Nat) : List (String × Value) → List Char
  | [] => []
  | (key, item) :: later =>
    ',' :: layout.break (level + 1) ++ writeString key ++ layout.colon ++
      write layout (level + 1) item ++ writeFields layout level later

end

def text (layout : Layout) (v : Value) : String :=
  String.ofList (write layout 0 v)

def streamText (layout : Layout) (records : List Value) : String :=
  text layout (.array records)

end RecordPipeline.Json
