import RecordPipeline.Text.Alphabetic

/-!
The classes of characters that the query language and its string functions tell apart: white space,
letters, numerals and controls. ASCII is decided by comparison, the rest by the tables.
-/

namespace RecordPipeline.Text

def blankBounds : List Nat :=
  [9, 14, 32, 33, 133, 134, 160, 161, 5760, 5761, 8192, 8203, 8232, 8234, 8239, 8240, 8287, 8288,
    12288, 12289]

def isBlank (c : Char) : Bool :=
  liesIn blankBounds c.toNat

/-- An ASCII digit; no other digit stands in a number. -/
def isDigit (c : Char) : Bool :=
  '0' ≤ c && c ≤ '9'

def isLetter (c : Char) : Bool :=
  if c.toNat < 128 then ('a' ≤ c && c ≤ 'z') || ('A' ≤ c && c ≤ 'Z')
  else liesIn alphabeticBounds c.toNat

def isNumeral (c : Char) : Bool :=
  if c.toNat < 128 then isDigit c else liesIn numericBounds c.toNat

def isControl (c : Char) : Bool :=
  c.toNat < 32 || (127 ≤ c.toNat && c.toNat < 160)

def startsName (c : Char) : Bool :=
  isLetter c || c == '_'

def continuesName (c : Char) : Bool :=
  isLetter c || isNumeral c || c == '_'

theorem continuesName_of_startsName {c : Char} (h : startsName c = true) :
    continuesName c = true := by
  simp only [startsName, continuesName, Bool.or_eq_true] at *
  exact h.elim (fun letter => .inl (.inl letter)) .inr

end RecordPipeline.Text
