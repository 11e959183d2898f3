import RecordPipeline.Number.Binary64
import RecordPipeline.Text.CharClass

/-!
Numbers read from text. A decimal becomes the double nearest to it; one that is too large becomes
infinity. Only ASCII digits count.
-/

namespace RecordPipeline.Number

open Text

def digitsValue (digits : List Char) : Nat :=
  digits.foldl (fun value c => 10 * value + (c.toNat - '0'.toNat)) 0

def spanDigits (text : List Char) : List Char × List Char :=
  (text.takeWhile isDigit, text.dropWhile isDigit)

def takeSign : List Char → Bool × List Char
  | '-' :: rest => (true, rest)
  | '+' :: rest => (false, rest)
  | rest => (false, rest)

/-- `digits * 10 ^ exponent` as a double. Beyond four hundred places either way there is nothing
but zero and infinity, so the power need not be formed. -/
def ofDecimal (negative : Bool) (digits : Nat) (exponent : Int) : Float :=
  let places := exponent + (Nat.toDigits 10 digits).length
  if digits = 0 ∨ places < -400 then Binary64.ofMagnitude negative 0
  else if 400 < places then Binary64.infinity negative
  else Binary64.ofRatio negative (digits * tenTo exponent.toNat) (tenTo (-exponent).toNat)

def minInt : Int := -0x8000000000000000

def maxInt : Int := 0x7fffffffffffffff

def toInt64? (n : Int) : Option Int64 :=
  if minInt ≤ n ∧ n ≤ maxInt then some (Int64.ofInt n) else none

def clampInt64 (n : Int) : Int64 :=
  Int64.ofInt (max minInt (min maxInt n))

theorem toInt64?_isSome {n : Int} : (toInt64? n).isSome ↔ minInt ≤ n ∧ n ≤ maxInt := by
  simp only [toInt64?]
  split <;> simp [*]

theorem toInt64?_toInt (n : Int64) : toInt64? n.toInt = some n := by
  rw [toInt64?, if_pos ⟨Int64.le_toInt n, Int64.toInt_le n⟩, Int64.ofInt_toInt]

theorem toInt64?_eq_some_iff {n : Int} {m : Int64} : toInt64? n = some m ↔ m.toInt = n := by
  constructor
  · intro found
    obtain ⟨least, most⟩ := toInt64?_isSome.1 (Option.isSome_iff_exists.2 ⟨m, found⟩)
    rw [toInt64?, if_pos ⟨least, most⟩, Option.some.injEq] at found
    rw [minInt] at least
    rw [maxInt] at most
    rw [← found]
    exact Int64.toInt_ofInt_of_le (by omega) (by omega)
  · rintro rfl
    exact toInt64?_toInt m

def readInt (text : List Char) : Option Int64 :=
  let (negative, rest) := takeSign text
  if rest ≠ [] ∧ rest.all isDigit then
    let value : Int := digitsValue rest
    toInt64? (if negative then -value else value)
  else none

def readExponent (text : List Char) : Option Int :=
  let (negative, rest) := takeSign text
  if rest ≠ [] ∧ rest.all isDigit then
    let value : Int := digitsValue rest
    some (if negative then -value else value)
  else none

def readUnsigned (negative : Bool) (text : List Char) : Option Float :=
  let (whole, rest) := spanDigits text
  let (fraction, rest) :=
    match rest with
    | '.' :: later => spanDigits later
    | other => ([], other)
  if whole = [] ∧ fraction = [] then none
  else
    let value := ofDecimal negative (digitsValue (whole ++ fraction))
    match rest with
    | [] => some (value (-(fraction.length : Int)))
    | 'e' :: later | 'E' :: later =>
      (readExponent later).map fun exponent => value (exponent - fraction.length)
    | _ => none

def lowerAscii (c : Char) : Char :=
  if 'A' ≤ c ∧ c ≤ 'Z' then Char.ofNat (c.toNat + 32) else c

/-- A number with an optional sign, or one of the words for infinity and NaN in any case. -/
def readFloat (text : List Char) : Option Float :=
  let (negative, rest) := takeSign text
  let word := String.ofList (rest.map lowerAscii)
  if word = "inf" ∨ word = "infinity" then some (Binary64.infinity negative)
  else if word = "nan" then some (Float.ofBits 0x7ff8000000000000)
  else readUnsigned negative rest

end RecordPipeline.Number
