/-!
What arithmetic asks of a library of decimal numbers. Where a number has no decimal, a result no room
or a decimal no double, the library has nothing to give.
-/

namespace RecordPipeline

structure DecimalLibrary where
  Number : Type
  ofInteger? : Int64 → Option Number
  ofFloat? : Float → Option Number
  isInteger : Number → Bool
  toInteger? : Number → Option Int64
  toFloat? : Number → Option Float
  add : Number → Number → Option Number
  sub : Number → Number → Option Number
  mul : Number → Number → Option Number
  div : Number → Number → Option Number
  rem : Number → Number → Option Number
  /-- The decimal with at most so many places, no more than 28. -/
  roundTo : Number → Nat → Number

end RecordPipeline
