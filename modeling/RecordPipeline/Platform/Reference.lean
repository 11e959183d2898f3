import RecordPipeline.Number.Decimal
import RecordPipeline.Platform
import RecordPipeline.Time.Age
import RecordPipeline.Value.Insertion

/-!
A platform that computes: decimals with a mantissa of 96 bits, the Gregorian calendar, the insertion
sort, and a memory in which a record takes 56 bytes.
-/

namespace RecordPipeline

def Platform.addressable : Nat := 0x7fffffffffffffff

def Platform.reference (now : Time.Instant) : Platform where
  decimals := Decimal.library
  calendar := Time.calendar now
  sort := .insertion
  capacity := addressable / 56

end RecordPipeline
