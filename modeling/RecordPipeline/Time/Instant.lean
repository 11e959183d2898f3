/-!
Instants of universal time, as a day, a second of that day and nanoseconds. A leap second is the
second before it with a thousand million nanoseconds or more, so it can stand at the end of any
minute. Days follow the Gregorian calendar in both directions.
-/

namespace RecordPipeline.Time

structure Instant where
  day : Int
  second : Nat
  nanos : Nat
deriving DecidableEq, Repr

def secondsPerDay : Nat := 86400

def isLeapYear (year : Int) : Bool :=
  (year % 4 == 0 && year % 100 != 0) || year % 400 == 0

def daysInMonth (year : Int) (month : Nat) : Nat :=
  if month = 2 then (if isLeapYear year then 29 else 28)
  else if month = 4 ∨ month = 6 ∨ month = 9 ∨ month = 11 then 30
  else 31

/-- Days before the year, counted from the year zero. -/
def daysBeforeYear (year : Int) : Int :=
  let past := year - 1
  365 * year + past.fdiv 4 - past.fdiv 100 + past.fdiv 400 + 1

def daysBeforeMonth (year : Int) (month : Nat) : Nat :=
  (List.range (month - 1)).foldl (fun days earlier => days + daysInMonth year (earlier + 1)) 0

def firstYear : Int := -262143

def lastYear : Int := 262142

def newYear (year : Int) : Int :=
  daysBeforeYear year - daysBeforeYear 1970

def hasDate (day : Int) : Bool :=
  newYear firstYear ≤ day && day < newYear (lastYear + 1)

def dayOf? (year : Int) (month day : Nat) : Option Int :=
  if firstYear ≤ year ∧ year ≤ lastYear ∧ 1 ≤ month ∧ month ≤ 12 ∧ 1 ≤ day ∧
      day ≤ daysInMonth year month then
    some (newYear year + daysBeforeMonth year month + (day - 1))
  else none

/-- The second of a time of day with the nanoseconds of a leap second. -/
def secondOf? (hour minute second nanos : Nat) : Option (Nat × Nat) :=
  if hour < 24 ∧ minute < 60 ∧ second ≤ 60 then
    if second = 60 then some (3600 * hour + 60 * minute + 59, 1000000000 + nanos)
    else some (3600 * hour + 60 * minute + second, nanos)
  else none

namespace Instant

def ofNanos (nanos : Int) : Instant :=
  let seconds := nanos.fdiv 1000000000
  ⟨seconds.fdiv secondsPerDay, (seconds.fmod secondsPerDay).toNat, (nanos.fmod 1000000000).toNat⟩

def seconds (i : Instant) : Int :=
  i.day * secondsPerDay + i.second

def behind (i : Instant) (offset : Int) : Instant :=
  let seconds : Int := i.second - offset
  ⟨i.day + seconds.fdiv secondsPerDay, (seconds.fmod secondsPerDay).toNat, i.nanos⟩

/-- Leap seconds that the plain difference of two times of day misses. -/
def leapBetween (later earlier : Instant) : Int :=
  if earlier.second < later.second ∧ 1000000000 ≤ earlier.nanos then 1
  else if later.second < earlier.second ∧ 1000000000 ≤ later.nanos then -1
  else 0

def nanosSince (later earlier : Instant) : Int :=
  (later.seconds - earlier.seconds + leapBetween later earlier) * 1000000000 +
    ((later.nanos : Int) - earlier.nanos)

def millisSince (later earlier : Instant) : Int :=
  (later.nanosSince earlier).tdiv 1000000

end Instant

end RecordPipeline.Time
