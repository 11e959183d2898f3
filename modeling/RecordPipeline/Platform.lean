import RecordPipeline.Number.DecimalLibrary
import RecordPipeline.Time.Calendar
import RecordPipeline.Value.Sorting

/-!
The libraries that a query runs on.
-/

namespace RecordPipeline

structure Platform where
  decimals : DecimalLibrary
  calendar : Calendar
  sort : StableSort
  /-- The most records that a buffer can be made for at once. -/
  capacity : Nat

end RecordPipeline
