import RecordPipeline.Number.Binary64
import RecordPipeline.Number.DecimalLibrary
import RecordPipeline.Number.Reading

/-!
Decimal numbers with a mantissa of 96 bits and at most 28 places, for sums and products that should
not show binary rounding. Results are exact while they fit; otherwise places are given up, a half
going to the even neighbour, and a result without room for its whole part does not exist.
-/

namespace RecordPipeline

def Decimal.capacity : Nat := 0x1000000000000000000000000

/-- `mantissa / 10 ^ scale` with a sign. -/
structure Decimal where
  negative : Bool
  mantissa : Nat
  scale : Nat
  mantissa_lt : mantissa < Decimal.capacity
  scale_le : scale ≤ 28

namespace Decimal

def make? (negative : Bool) (mantissa scale : Nat) : Option Decimal :=
  if h : mantissa < capacity ∧ scale ≤ 28 then some ⟨negative, mantissa, scale, h.1, h.2⟩ else none

def zero (negative : Bool) : Decimal :=
  ⟨negative, 0, 0, by decide, by decide⟩

def scaledTo (d : Decimal) (places : Nat) : Int :=
  let size := d.mantissa * tenTo (places - d.scale)
  if d.negative then -(size : Int) else (size : Int)

/-- Trades factors of two for factors of five: each of the `count` halvings still owed is either
made, or turned into a multiplication by five when that is exact and fits. -/
def payHalves : Nat → Nat → Int → Nat × Int
  | 0, mantissa, exponent => (mantissa, exponent)
  | count + 1, mantissa, exponent =>
    if mantissa % 2 = 1 ∧ 5 * mantissa < capacity then payHalves count (5 * mantissa) exponent
    else payHalves count (mantissa / 2) (exponent + 1)

def dropDigit (mantissa : Nat) : Nat :=
  roundHalfUp mantissa 10

/-- Drops digits until the exponent is back in range; what vanishes altogether is zero. -/
def dropPlaces : Nat → Nat → Int → Nat × Int
  | 0, mantissa, exponent => (mantissa, exponent)
  | count + 1, mantissa, exponent =>
    if mantissa / 10 = 0 then (0, 0) else dropPlaces count (dropDigit mantissa) (exponent + 1)

def dropNoise : Nat → Nat → Nat × Nat
  | 0, mantissa => (mantissa, 0)
  | scale + 1, mantissa =>
    if Binary64.binade ≤ mantissa then dropNoise scale (dropDigit mantissa) else (mantissa, scale + 1)

def dropZeros : Nat → Nat → Nat × Nat
  | 0, mantissa => (mantissa, 0)
  | scale + 1, mantissa =>
    if mantissa % 10 = 0 then dropZeros scale (mantissa / 10) else (mantissa, scale + 1)

/-- The decimal that a double stands for, if there is room for it. A double of `binade` or more is
whole and kept as it is, a smaller one is kept to the digits that it can vouch for. -/
def ofFloat? (x : Float) : Option Decimal :=
  let bits := Binary64.magnitude x
  if !Binary64.isFinite x then none
  else if bits = 0 then some (zero (Binary64.isNegative x))
  else
    let field := bits / Binary64.binade
    let mantissa := if field = 0 then bits else Binary64.binade + bits % Binary64.binade
    let exponent : Int := (max field 1 : Nat) - 1075
    if 0 ≤ exponent then make? (Binary64.isNegative x) (mantissa * twoTo exponent.toNat) 0
    else
      let (mantissa, exponent) := payHalves (-exponent).toNat mantissa exponent
      let (mantissa, exponent) := dropPlaces (-28 - exponent).toNat mantissa exponent
      let (mantissa, scale) := dropNoise (-exponent).toNat mantissa
      let (mantissa, scale) := dropZeros scale mantissa
      make? (Binary64.isNegative x && mantissa != 0) mantissa scale

def ofInt64 (n : Int64) : Option Decimal :=
  make? (n < 0) n.toInt.natAbs 0

/-- The double for a decimal: whole part and fraction are added as doubles, and the noise of that
sum is rounded off at the scale. -/
def toFloat (d : Decimal) : Float :=
  let unit := tenTo d.scale
  let whole := Binary64.ofInt (d.mantissa / unit : Nat)
  let fraction := Binary64.ofInt (d.mantissa % unit : Nat) / Binary64.ofInt unit
  let size :=
    if d.mantissa % unit = 0 then whole
    else Binary64.ofInt (Binary64.roundAway ((whole + fraction) * Binary64.ofInt unit)) /
      Binary64.ofInt unit
  if d.negative && (d.mantissa != 0 || d.scale != 0) then -size else size

def isWhole (d : Decimal) : Bool :=
  d.mantissa % tenTo d.scale == 0

def trunc (d : Decimal) : Int :=
  let size := d.mantissa / tenTo d.scale
  if d.negative then -(size : Int) else (size : Int)

def fitFrom (negative : Bool) (mantissa scale : Nat) : Nat → Nat → Option Decimal
  | 0, _ => none
  | tries + 1, drop =>
    if scale < drop then none
    else
      match make? negative (roundHalfEven mantissa (tenTo drop)) (scale - drop) with
      | some d => some d
      | none => fitFrom negative mantissa scale tries (drop + 1)

def fit (negative : Bool) (mantissa scale : Nat) : Option Decimal :=
  fitFrom negative mantissa scale (scale + 1) 0

def add (a b : Decimal) : Option Decimal :=
  let places := max a.scale b.scale
  let sum := a.scaledTo places + b.scaledTo places
  fit (sum < 0) sum.natAbs places

def neg (a : Decimal) : Decimal :=
  { a with negative := !a.negative }

def sub (a b : Decimal) : Option Decimal :=
  add a b.neg

def mul (a b : Decimal) : Option Decimal :=
  if a.mantissa = 0 ∨ b.mantissa = 0 then some (zero false)
  else fit (a.negative != b.negative) (a.mantissa * b.mantissa) (a.scale + b.scale)

/-- A division under way: the digits of the quotient so far, what is left of the dividend, and the
places of the quotient, fewer than none while it counts in higher powers of ten. -/
structure LongDivision where
  quotient : Nat
  rest : Nat
  places : Int

namespace LongDivision

def start (a b : Decimal) : LongDivision :=
  ⟨a.mantissa / b.mantissa, a.mantissa % b.mantissa, a.scale - b.scale⟩

def room (number : Nat) : Nat → Nat
  | 0 => 0
  | limit + 1 =>
    if number * tenTo (limit + 1) < capacity then limit + 1 else room number limit

/-- The places that the next step adds, up to nine: toward the unit when nothing is left to divide,
otherwise as many as there is room for. -/
def nextPlaces (d : LongDivision) : Nat :=
  if d.rest = 0 then min 9 (-d.places).toNat
  else room d.quotient (min 9 (28 - d.places).toNat)

def extend (divisor more : Nat) (d : LongDivision) : LongDivision :=
  let dividend := d.rest * tenTo more
  ⟨d.quotient * tenTo more + dividend / divisor, dividend % divisor, d.places + more⟩

def carryOn (divisor : Nat) : Nat → LongDivision → LongDivision
  | 0, d => d
  | steps + 1, d =>
    if d.nextPlaces = 0 then d else carryOn divisor steps (d.extend divisor d.nextPlaces)

/-- Rounds what is left into the last place that has room, a half to the even neighbour, and gives
mantissa and scale. -/
def close? (divisor : Nat) (d : LongDivision) : Option (Nat × Nat) :=
  let whole := d.quotient * divisor + d.rest
  if d.places < 0 then none
  else if roundHalfEven whole divisor < capacity then
    some (roundHalfEven whole divisor, d.places.toNat)
  else if d.places = 0 then none
  else some (roundHalfEven whole (10 * divisor), d.places.toNat - 1)

end LongDivision

def dropRun (count : Nat) : Nat × Nat → Nat × Nat
  | (mantissa, scale) =>
    if count ≤ scale ∧ mantissa % tenTo count = 0 then (mantissa / tenTo count, scale - count)
    else (mantissa, scale)

def dropEights : Nat → Nat × Nat → Nat × Nat
  | 0, d => d
  | runs + 1, (mantissa, scale) =>
    if mantissa % twoTo 32 = 0 ∧ 8 ≤ scale ∧ mantissa % tenTo 8 = 0 then
      dropEights runs (mantissa / tenTo 8, scale - 8)
    else (mantissa, scale)

/-- Shortens a quotient that came out with zeros at the end. Where no run of eight goes, seven zeros
go at most, so an eighth can stay. -/
def shorten (d : Nat × Nat) : Nat × Nat :=
  dropRun 1 (dropRun 2 (dropRun 4 (dropEights 3 d)))

/-- The quotient by long division, with as many places as it takes or as fit. One that is exact at
once keeps its places, any other is shortened. No division adds more than 56 places. -/
def div (a b : Decimal) : Option Decimal :=
  if b.mantissa = 0 then none
  else if a.mantissa = 0 then some (zero false)
  else
    let start := LongDivision.start a b
    match (start.carryOn b.mantissa 56).close? b.mantissa with
    | none => none
    | some quotient =>
      let (mantissa, scale) := if start.rest = 0 then quotient else shorten quotient
      make? (a.negative != b.negative) mantissa scale

def rem (a b : Decimal) : Option Decimal :=
  let places := max a.scale b.scale
  let dividend := a.scaledTo places
  let divisor := b.scaledTo places
  if divisor = 0 then none
  else if dividend.natAbs < divisor.natAbs then some a
  else make? a.negative (dividend.natAbs % divisor.natAbs) places

theorem roundHalfEven_lt {mantissa den : Nat} (room : mantissa < capacity) (many : 1 < den) :
    roundHalfEven mantissa den < capacity := by
  have smaller : mantissa / den ≤ mantissa / 2 := Nat.div_le_div_left many (by decide)
  have above : roundHalfEven mantissa den ≤ mantissa / den + 1 := by
    rw [roundHalfEven]
    split <;> omega
  rw [capacity] at room ⊢
  omega

theorem one_lt_tenTo {places : Nat} (some : 0 < places) : 1 < tenTo places := by
  obtain ⟨fewer, rfl⟩ := Nat.exists_eq_add_of_lt some
  have positive := tenTo_pos (0 + fewer)
  rw [tenTo_succ]
  omega

def roundTo (d : Decimal) (places : Nat) : Decimal :=
  if kept : d.scale ≤ places then d
  else
    let mantissa := roundHalfEven d.mantissa (tenTo (d.scale - places))
    ⟨d.negative && mantissa != 0, mantissa, places,
      roundHalfEven_lt d.mantissa_lt (one_lt_tenTo (by omega)), by have := d.scale_le; omega⟩

def library : DecimalLibrary where
  Number := Decimal
  ofInteger? := ofInt64
  ofFloat? := ofFloat?
  isInteger := isWhole
  toInteger? d := Number.toInt64? d.trunc
  toFloat? d := some d.toFloat
  add := add
  sub := sub
  mul := mul
  div := div
  rem := rem
  roundTo := roundTo

end Decimal

end RecordPipeline
