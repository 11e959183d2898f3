import RecordPipeline.Number.Reading
import RecordPipeline.Text.Search
import RecordPipeline.Time.Instant

/-!
Timestamps read from text: a date, a date and a time with or without an offset, or the strict form
with a `T`. In the lenient forms numbers may be short and may have white space in front of them.
Without an offset a time is universal time.
-/

namespace RecordPipeline.Time

open Text Number

abbrev Reader (α : Type) := List Char → Option (α × List Char)

def readDigits (least most : Nat) : Reader Nat := fun text =>
  let digits := (text.take most).takeWhile isDigit
  if digits.length < least then none
  else some (digitsValue digits, text.drop digits.length)

def readPair : Reader Nat := fun text =>
  readDigits 1 2 (text.dropWhile isBlank)

def readYear : Reader Int := fun text =>
  match text.dropWhile isBlank with
  | '-' :: rest => (readDigits 1 rest.length rest).map fun (year, rest) => (-(year : Int), rest)
  | '+' :: rest => (readDigits 1 rest.length rest).map fun (year, rest) => ((year : Int), rest)
  | rest => (readDigits 1 4 rest).map fun (year, rest) => ((year : Int), rest)

def expect (wanted : Char) : List Char → Option (List Char)
  | c :: rest => if c = wanted then some rest else none
  | [] => none

def readDate : Reader Int := fun text => do
  let (year, rest) ← readYear text
  let rest ← expect '-' rest
  let (month, rest) ← readPair rest
  let rest ← expect '-' rest
  let (day, rest) ← readPair rest
  return (← dayOf? year month day, rest)

def readTime : Reader (Nat × Nat) := fun text => do
  let (hour, rest) ← readPair text
  let rest ← expect ':' rest
  let (minute, rest) ← readPair rest
  let rest ← expect ':' rest
  let (second, rest) ← readPair rest
  return (← secondOf? hour minute second 0, rest)

def readOffsetSign : Reader Bool
  | '+' :: rest => some (false, rest)
  | '-' :: rest => some (true, rest)
  | '\u2212' :: rest => some (true, rest)
  | _ => none

/-- Hours and minutes of an offset in seconds, with whatever `separator` takes between them. -/
def readOffset (separator : List Char → Option (List Char)) : Reader Int := fun text => do
  let (negative, rest) ← readOffsetSign text
  let (hours, rest) ← readDigits 2 2 rest
  let rest ← separator rest
  let (minutes, rest) ← readDigits 2 2 rest
  let seconds : Int := (3600 * hours + 60 * minutes : Nat)
  if minutes < 60 then return (if negative then -seconds else seconds, rest) else none

def skipSeparators (text : List Char) : Option (List Char) :=
  some (text.dropWhile fun c => c == ':' || isBlank c)

/-- The instant of a local time, if its offset is less than a day and does not lead out of the days
that have a date. -/
def instantAt (day : Int) (time : Nat × Nat) (offset : Int) : Option Instant :=
  let instant := (Instant.mk day time.1 time.2).behind offset
  if offset.natAbs < secondsPerDay ∧ hasDate instant.day then some instant else none

def readEnd {α : Type} (value : α) (rest : List Char) : Option α :=
  if rest = [] then some value else none

def readWithOffset (text : List Char) : Option Instant := do
  let (day, rest) ← readDate text
  let (time, rest) ← readTime (rest.dropWhile isBlank)
  let (offset, rest) ← readOffset skipSeparators (rest.dropWhile isBlank)
  readEnd (← instantAt day time offset) rest

/-- Nine digits of a fraction count as nanoseconds; more are passed over. -/
def readFraction : Reader Nat
  | '.' :: rest =>
    let digits := rest.takeWhile isDigit
    let kept := digits.take 9
    if digits = [] then none
    else some (digitsValue kept * tenTo (9 - kept.length), rest.dropWhile isDigit)
  | rest => some (0, rest)

def readStrictOffset : Reader Int
  | 'Z' :: rest => some (0, rest)
  | 'z' :: rest => some (0, rest)
  | rest => readOffset (expect ':') rest

def readStrict (text : List Char) : Option Instant := do
  let (year, rest) ← readDigits 4 4 text
  let rest ← expect '-' rest
  let (month, rest) ← readDigits 2 2 rest
  let rest ← expect '-' rest
  let (day, rest) ← readDigits 2 2 rest
  let rest ←
    match rest with
    | c :: rest => if c = 'T' ∨ c = 't' ∨ c = ' ' then some rest else none
    | [] => none
  let (hour, rest) ← readDigits 2 2 rest
  let rest ← expect ':' rest
  let (minute, rest) ← readDigits 2 2 rest
  let rest ← expect ':' rest
  let (second, rest) ← readDigits 2 2 rest
  let (nanos, rest) ← readFraction rest
  let (offset, rest) ← readStrictOffset rest
  let time ← secondOf? hour minute second nanos
  readEnd (← instantAt (← dayOf? year month day) time offset) rest

def readUniversal (text : List Char) : Option Instant := do
  let (day, rest) ← readDate text
  let (time, rest) ← readTime (rest.dropWhile isBlank)
  readEnd ⟨day, time.1, time.2⟩ rest

def readDay (text : List Char) : Option Instant := do
  let (day, rest) ← readDate text
  readEnd ⟨day, 0, 0⟩ rest

end RecordPipeline.Time
