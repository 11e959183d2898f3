import RecordPipeline.Number.Reading
import RecordPipeline.Text.Search

/-!
Ages in seconds. A timestamp is as old as the time since it, a duration is as old as it is long, so
the two compare with each other. Which texts are timestamps, and how far two moments are apart, is
for a calendar to say.
-/

namespace RecordPipeline

structure Calendar where
  Moment : Type
  now : Moment
  withOffset : String → String → Option Moment
  /-- A timestamp in the form of RFC 3339. -/
  strict : String → Option Moment
  withoutOffset : String → String → Option Moment
  day : String → String → Option Moment
  millisSince : Moment → Moment → Int
  /-- The number and the unit of a duration such as `1.5 hours`, the unit without its `s`. -/
  durationParts : String → Option (String × String)

namespace Calendar

def offsetFormats : List String :=
  ["%Y-%m-%d %H:%M:%S%:z", "%Y-%m-%d %H:%M:%S%z"]

def readTimestamp (calendar : Calendar) (text : String) : Option calendar.Moment :=
  let text := String.ofList (Text.trim text.toList)
  offsetFormats.findSome? (calendar.withOffset · text)
    <|> calendar.strict text
    <|> calendar.withoutOffset "%Y-%m-%d %H:%M:%S" text
    <|> calendar.day "%Y-%m-%d" text

def units : List (String × Nat) :=
  [("second", 1), ("minute", 60), ("hour", 3600), ("day", 86400), ("week", 604800)]

def readDuration (calendar : Calendar) (text : String) : Option Float := do
  let parts ← calendar.durationParts text
  let amount ← Number.readUnsigned false parts.1.toList
  let seconds ← units.lookup parts.2
  return amount * Binary64.ofInt seconds

def age (calendar : Calendar) (text : String) : Option Float :=
  match calendar.readTimestamp text with
  | some earlier => some (Binary64.ofInt (calendar.millisSince calendar.now earlier) / 1000)
  | none => calendar.readDuration text

end Calendar

end RecordPipeline
