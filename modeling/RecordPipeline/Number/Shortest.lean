import RecordPipeline.Number.Binary64

/-!
The decimal digits of a double: the fewest that read back as the same double, and of those the
nearest to it. Only a grid of `n` digits around the value can hold such a decimal, and there only
the two neighbours of the value have to be tried.
-/

namespace RecordPipeline.Binary64

structure Digits where
  digits : Nat
  exponent : Int
deriving DecidableEq, Repr

namespace Digits

def trimFrom : Nat → Digits → Digits
  | 0, d => d
  | fuel + 1, d =>
    if d.digits ≠ 0 ∧ d.digits % 10 = 0 then trimFrom fuel ⟨d.digits / 10, d.exponent + 1⟩ else d

def trim (d : Digits) : Digits :=
  trimFrom d.digits d

end Digits

/-- The reals that read as one double, over a common denominator, and the double itself. -/
structure Interval where
  low : Nat
  value : Nat
  high : Nat
  den : Nat
  closed : Bool

/-- Halfway to the neighbours; below a power of two the neighbour is half as far. The ends belong
to the double whose fraction is even. -/
def intervalOf (bits : Nat) : Interval :=
  let exponent := bits / binade
  let fraction := bits % binade
  let gap := twoTo (exponent - 1)
  let value := 4 * stepsOfMagnitude bits
  { low := value - (if fraction = 0 ∧ 1 < exponent then gap else 2 * gap)
    value
    high := value + 2 * gap
    den := 4 * stepsPerOne
    closed := fraction % 2 == 0 }

/-- The `k` with `10 ^ (k - 1) ≤ num / den < 10 ^ k`. -/
def leadingPlace (num den : Nat) : Int :=
  if den ≤ num then ((Nat.toDigits 10 (num / den)).length : Int)
  else 1 - ((Nat.toDigits 10 ((den - 1) / num)).length : Int)

namespace Interval

def onGrid (range : Interval) (place : Int) : Option Nat :=
  let up := tenTo (-place).toNat
  let unit := range.den * tenTo place.toNat
  let below := range.value * up / unit
  let inside (edge point : Nat) : Bool := edge < point || (range.closed && edge == point)
  let lower := inside (range.low * up) (below * unit)
  let upper := inside ((below + 1) * unit) (range.high * up)
  if lower && upper then
    if 2 * (range.value * up % unit) < unit then some below else some (below + 1)
  else if lower then some below
  else if upper then some (below + 1)
  else none

def shortestFrom (range : Interval) (top : Int) : Nat → Nat → Digits
  | 0, count => ⟨range.value / range.den, count⟩
  | tries + 1, count =>
    match range.onGrid (top - count) with
    | some digits => ⟨digits, top - count⟩
    | none => shortestFrom range top tries (count + 1)

end Interval

def shortest (x : Float) : Digits :=
  let range := intervalOf (magnitude x)
  (range.shortestFrom (leadingPlace range.value range.den) 17 1).trim

def sign (x : Float) : String :=
  if isNegative x then "-" else ""

def zeros (count : Nat) : String :=
  String.ofList (List.replicate count '0')

def Digits.positional (d : Digits) : String :=
  let digits := Nat.toDigits 10 d.digits
  if 0 ≤ d.exponent then String.ofList digits ++ zeros d.exponent.toNat
  else
    let places := (-d.exponent).toNat
    if digits.length ≤ places then "0." ++ zeros (places - digits.length) ++ String.ofList digits
    else
      String.ofList (digits.take (digits.length - places)) ++ "." ++
        String.ofList (digits.drop (digits.length - places))

def Digits.scientific (d : Digits) : String :=
  let digits := Nat.toDigits 10 d.digits
  let exponent := d.exponent + (digits.length - 1 : Nat)
  let mantissa :=
    if digits.length ≤ 1 then String.ofList digits
    else String.ofList (digits.take 1) ++ "." ++ String.ofList (digits.drop 1)
  mantissa ++ "e" ++ toString exponent

def plainText (x : Float) : String :=
  if isNaN x then "NaN"
  else if isInfinite x then sign x ++ "inf"
  else if steps x == 0 then sign x ++ "0"
  else sign x ++ (shortest x).positional

def wholeText (x : Float) : String :=
  sign x ++ toString (trunc x).natAbs ++ ".0"

def isLarge (x : Float) : Bool :=
  tenTo 16 * stepsPerOne ≤ (steps x).natAbs

def isSmall (x : Float) : Bool :=
  steps x != 0 && (steps x).natAbs * tenTo 4 < stepsPerOne

def literalText (x : Float) : String :=
  if !isFinite x then plainText x
  else if isLarge x || isSmall x then sign x ++ (shortest x).scientific
  else if isWhole x then wholeText x
  else plainText x

end RecordPipeline.Binary64
