import RecordPipeline.Time.Calendar
import RecordPipeline.Time.Timestamp

/-!
Durations read from text, and the Gregorian calendar as the one that ages are taken in.
-/

namespace RecordPipeline.Time

open Text Number

def readUnit (text : List Char) : Option String :=
  (Calendar.units.map Prod.fst).find? fun name =>
    text = name.toList ∨ text = name.toList ++ ['s']

/-- Decimal digits of any script; a number in others than ASCII has no value. -/
def isAnyDigit (c : Char) : Bool :=
  isDigit c || (128 ≤ c.toNat && liesIn digitBounds c.toNat)

def splitFraction : List Char → List Char × List Char
  | '.' :: c :: rest =>
    if isAnyDigit c then
      ('.' :: (c :: rest).takeWhile isAnyDigit, (c :: rest).dropWhile isAnyDigit)
    else ([], '.' :: c :: rest)
  | rest => ([], rest)

def splitAmount (text : List Char) : List Char × List Char :=
  let whole := text.takeWhile isAnyDigit
  let rest := text.dropWhile isAnyDigit
  if whole = [] then ([], rest)
  else
    let (fraction, rest) := splitFraction rest
    (whole ++ fraction, rest)

def splitDuration (text : String) : Option (String × String) := do
  let (amount, rest) := splitAmount (trim text.toList)
  let unit ← readUnit (rest.dropWhile isBlank)
  if amount = [] then none else return (String.ofList amount, unit)

/-- Each reader knows one format. Both formats with an offset take it with and without a colon. -/
def calendar (now : Instant) : Calendar where
  Moment := Instant
  now := now
  withOffset _ text := readWithOffset text.toList
  strict text := readStrict text.toList
  withoutOffset _ text := readUniversal text.toList
  day _ text := readDay text.toList
  millisSince := Instant.millisSince
  durationParts := splitDuration

end RecordPipeline.Time
