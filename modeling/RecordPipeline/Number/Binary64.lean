import RecordPipeline.Number.Powers
import RecordPipeline.Number.Rounding

/-!
Doubles seen as whole numbers. Every finite double is a whole number of steps of `2 ^ (-1074)`, and
infinity fits in as the step count that the next exponent would have. Order, equality, rounding to
integers and the remainder are decided on step counts, so they are exact; a quotient of natural
numbers is taken back to the nearest double, a half to the even one.
-/

namespace RecordPipeline.Binary64

def stepsPerOne : Nat := twoTo 1074

/-- How many doubles there are from one power of two to before the next. -/
def binade : Nat := 0x10000000000000

def signBit : Nat := 0x8000000000000000

def infinityBits : Nat := 2047 * binade

def isNegative (x : Float) : Bool :=
  signBit ≤ x.toBits.toNat

def magnitude (x : Float) : Nat :=
  x.toBits.toNat % signBit

def isNaN (x : Float) : Bool :=
  infinityBits < magnitude x

def isFinite (x : Float) : Bool :=
  magnitude x < infinityBits

def isInfinite (x : Float) : Bool :=
  magnitude x == infinityBits

def stepsOfMagnitude (bits : Nat) : Nat :=
  let exponent := bits / binade
  let fraction := bits % binade
  if exponent = 0 then fraction else (binade + fraction) * twoTo (exponent - 1)

def steps (x : Float) : Int :=
  if isNegative x then -(stepsOfMagnitude (magnitude x) : Int)
  else (stepsOfMagnitude (magnitude x) : Int)

/-- Doubles are ordered by their step counts, except that nothing is ordered with a NaN. -/
def compare? (x y : Float) : Option Ordering :=
  if isNaN x || isNaN y then none else some (compare (steps x) (steps y))

/-- Equality of numbers: both zeros are equal, and a NaN equals nothing. -/
def same (x y : Float) : Bool :=
  compare? x y == some .eq

theorem compare?_swap (x y : Float) : compare? y x = (compare? x y).map Ordering.swap := by
  simp only [compare?, Bool.or_comm (isNaN y)]
  split
  · rfl
  · simp [Int.compare_swap]

theorem same_iff {x y : Float} : same x y = true ↔ compare? x y = some .eq := by
  simp [same]

def nearestMagnitude (num den : Nat) : Nat :=
  let scaled := num * stepsPerOne
  let shift := (scaled / den).log2 - 52
  min infinityBits (shift * binade + roundHalfEven scaled (den * twoTo shift))

def ofMagnitude (negative : Bool) (bits : Nat) : Float :=
  Float.ofBits (UInt64.ofNat (if negative then signBit + bits else bits))

def ofRatio (negative : Bool) (num den : Nat) : Float :=
  ofMagnitude negative (nearestMagnitude num den)

def ofInt (n : Int) : Float :=
  ofRatio (n < 0) n.natAbs 1

def infinity (negative : Bool) : Float :=
  ofMagnitude negative infinityBits

/-- A whole number of steps is a double wherever this is used, so nothing is rounded. -/
def ofSteps (negative : Bool) (count : Nat) : Float :=
  ofRatio negative count stepsPerOne

def isWhole (x : Float) : Bool :=
  isFinite x && steps x % stepsPerOne == 0

def floor (x : Float) : Int :=
  (steps x).fdiv stepsPerOne

def ceil (x : Float) : Int :=
  -(-steps x).fdiv stepsPerOne

def trunc (x : Float) : Int :=
  (steps x).tdiv stepsPerOne

def signed (x : Float) (size : Nat) : Int :=
  if isNegative x then -(size : Int) else (size : Int)

def roundEven (x : Float) : Int :=
  signed x (roundHalfEven (steps x).natAbs stepsPerOne)

def roundAway (x : Float) : Int :=
  signed x (roundHalfUp (steps x).natAbs stepsPerOne)

def truncatedRem (x y : Float) : Float :=
  if isNaN x || isNaN y || isInfinite x || steps y == 0 then Float.ofBits 0x7ff8000000000000
  else if isInfinite y then x
  else ofSteps (isNegative x) ((steps x).natAbs % (steps y).natAbs)

end RecordPipeline.Binary64
