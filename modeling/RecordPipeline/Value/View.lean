import RecordPipeline.Json.Printer
import RecordPipeline.Number.Reading
import RecordPipeline.Text.Search

/-!
What a value is when a number, a count or a text is wanted.
-/

namespace RecordPipeline.Value

def toFloat? : Value → Option Float
  | integer n => some (Binary64.ofInt n.toInt)
  | float x => some x
  | _ => none

/-- The integer that a value is: a double has to be whole, and a string may spell one between
blanks. Too large a double becomes the nearest integer. -/
def toInt? : Value → Option Int64
  | integer n => some n
  | float x => if Binary64.isWhole x then some (Number.clampInt64 (Binary64.trunc x)) else none
  | string s => Number.readInt (Text.trim s.toList)
  | _ => none

/-- A string is its own text, anything else is written as JSON on one line. -/
def text : Value → String
  | string s => s
  | v => Json.text .compact v

@[simp] theorem text_string (s : String) : (string s).text = s := rfl

end RecordPipeline.Value
