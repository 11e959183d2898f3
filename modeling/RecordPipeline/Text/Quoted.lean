import RecordPipeline.Text.Visible

/-!
Texts shown between quotes. What cannot be seen, or would join the character before it, is written
by its code point.
-/

namespace RecordPipeline.Text

def isVisible (c : Char) : Bool :=
  !liesIn invisibleBounds c.toNat && !liesIn ignorableBounds c.toNat &&
    !liesIn extendingBounds c.toNat

def showChar (c : Char) : String :=
  if c = '"' then "\\\""
  else if c = '\\' then "\\\\"
  else if c = '\n' then "\\n"
  else if c = '\r' then "\\r"
  else if c = '\t' then "\\t"
  else if c = '\x00' then "\\0"
  else if isVisible c then c.toString
  else "\\u\x7b" ++ String.ofList (Nat.toDigits 16 c.toNat) ++ "\x7d"

def quoted (s : String) : String :=
  "\"" ++ String.join (s.toList.map showChar) ++ "\""

end RecordPipeline.Text
