import RecordPipeline.Json.Document
import RecordPipeline.Number.Reading

/-!
A decoder for JSON. Containers nest at most 127 deep, the last of several fields of one key
counts, and a number that a double cannot hold is refused. A number with a fraction or an exponent
is made from the digits that fit in 64 bits and one power of ten at a time, so its last bit may
differ from the nearest double.
-/

namespace RecordPipeline.Json

open Text Number

abbrev Reader (α : Type) := List Char → Option (α × List Char)

def isGap (c : Char) : Bool :=
  c == ' ' || c == '\n' || c == '\t' || c == '\r'

def skipGap (text : List Char) : List Char :=
  text.dropWhile isGap

def expect (wanted : Char) : List Char → Option (List Char)
  | c :: rest => if c = wanted then some rest else none
  | [] => none

def expectWord : List Char → List Char → Option (List Char)
  | [], text => some text
  | c :: word, text => do expectWord word (← expect c text)

inductive Figure where
  | integer (n : Int64)
  | float (x : Float)

namespace Figure

def toInteger? : Figure → Option Int64
  | integer n => some n
  | float _ => none

def toFloat? : Figure → Option Float
  | integer n => some (Binary64.ofInt n.toInt)
  | float x => some x

end Figure

def wordLimit : Nat := 0x10000000000000000

/-- Digits taken in while the value fits in 64 bits; the count of those follows. -/
def takeIn : Nat → List Char → Nat × Nat
  | value, [] => (value, 0)
  | value, c :: digits =>
    let next := 10 * value + (c.toNat - '0'.toNat)
    if next < wordLimit then
      let (total, count) := takeIn next digits
      (total, count + 1)
    else (value, 0)

def powerOfTen (places : Nat) : Float :=
  ofDecimal false 1 places

/-- Division by `10 ^ places`, in steps of at most 308 places. -/
def shrink : Nat → Float → Nat → Float
  | 0, x, _ => x
  | steps + 1, x, places =>
    if places ≤ 308 then x / powerOfTen places
    else if x == 0 then x
    else shrink steps (x / powerOfTen 308) (places - 308)

def scale (x : Float) (exponent : Int) : Option Float :=
  if exponent < 0 then some (shrink ((-exponent).toNat / 308 + 1) x (-exponent).toNat)
  else if x == 0 then some x
  else if 308 < exponent then none
  else
    let scaled := x * powerOfTen exponent.toNat
    if Binary64.isInfinite scaled then none else some scaled

/-- A whole number as an integer if it is one of 64 bits. Zero with a minus sign is a double. -/
def wholeNumber (negative : Bool) (digits : List Char) : Option Figure :=
  let value := digitsValue digits
  let signed : Int := if negative then -(value : Int) else (value : Int)
  if negative ∧ value = 0 then some (.float (Binary64.ofMagnitude true 0))
  else
    match toInt64? signed with
    | some n => some (.integer n)
    | none =>
      let (significand, count) := takeIn 0 digits
      (scale (Binary64.ofInt significand) (digits.length - count : Nat)).map fun x =>
        .float (if negative then -x else x)

def fractionalNumber (negative : Bool) (whole fraction : List Char) (exponent : Int) :
    Option Figure :=
  let (significand, wholeCount) := takeIn 0 whole
  let (significand, fractionCount) := takeIn significand fraction
  let dropped : Int := (whole.length - wholeCount : Nat)
  (scale (Binary64.ofInt significand) (dropped - fractionCount + exponent)).map fun x =>
    .float (if negative then -x else x)

def readFraction : Reader (Option (List Char))
  | '.' :: rest =>
    let (digits, rest) := spanDigits rest
    if digits = [] then none else some (some digits, rest)
  | rest => some (none, rest)

def readExponentPart : Reader (Option Int)
  | c :: rest =>
    if c = 'e' ∨ c = 'E' then
      let (negative, rest) := takeSign rest
      let (digits, rest) := spanDigits rest
      let value : Int := digitsValue digits
      if digits = [] then none else some (some (if negative then -value else value), rest)
    else some (none, c :: rest)
  | [] => some (none, [])

def readNumber : Reader Figure := fun text => do
  let (negative, rest) :=
    match text with
    | '-' :: rest => (true, rest)
    | rest => (false, rest)
  let (whole, rest) := spanDigits rest
  if whole = [] ∨ (whole.head? = some '0' ∧ whole.length ≠ 1) then none
  else
    let (fraction, rest) ← readFraction rest
    let (exponent, rest) ← readExponentPart rest
    let value ←
      if fraction.isNone ∧ exponent.isNone then wholeNumber negative whole
      else fractionalNumber negative whole (fraction.getD []) (exponent.getD 0)
    return (value, rest)

def hexValue (c : Char) : Option Nat :=
  if isDigit c then some (c.toNat - '0'.toNat)
  else if 'a' ≤ c ∧ c ≤ 'f' then some (c.toNat - 'a'.toNat + 10)
  else if 'A' ≤ c ∧ c ≤ 'F' then some (c.toNat - 'A'.toNat + 10)
  else none

def hexUnit (a b c d : Char) : Option Nat := do
  return (((← hexValue a) * 16 + (← hexValue b)) * 16 + (← hexValue c)) * 16 + (← hexValue d)

def isHighSurrogate (unit : Nat) : Bool :=
  0xD800 ≤ unit && unit < 0xDC00

def isLowSurrogate (unit : Nat) : Bool :=
  0xDC00 ≤ unit && unit < 0xE000

def joinSurrogates (high low : Nat) : Char :=
  Char.ofNat (0x10000 + (high - 0xD800) * 0x400 + (low - 0xDC00))

def plainEscape (c : Char) : Option Char :=
  if c = '"' ∨ c = '\\' ∨ c = '/' then some c
  else if c = 'b' then some '\x08'
  else if c = 'f' then some '\x0c'
  else if c = 'n' then some '\n'
  else if c = 'r' then some '\r'
  else if c = 't' then some '\t'
  else none

def readCharacters : Reader (List Char)
  | [] => none
  | c :: rest =>
    let followed (c : Char) (more : Option (List Char × List Char)) :=
      more.map fun (characters, rest) => (c :: characters, rest)
    if c = '"' then some ([], rest)
    else if c = '\\' then
      match rest with
      | [] => none
      | escape :: rest =>
        if escape = 'u' then
          match rest with
          | a :: b :: c :: d :: rest =>
            match hexUnit a b c d with
            | none => none
            | some unit =>
              if isHighSurrogate unit then
                match rest with
                | '\\' :: 'u' :: a :: b :: c :: d :: rest =>
                  match hexUnit a b c d with
                  | none => none
                  | some low =>
                    if isLowSurrogate low then
                      followed (joinSurrogates unit low) (readCharacters rest)
                    else none
                | _ => none
              else if isLowSurrogate unit then none
              else followed (Char.ofNat unit) (readCharacters rest)
          | _ => none
        else
          match plainEscape escape with
          | some plain => followed plain (readCharacters rest)
          | none => none
    else if c.toNat < 32 then none
    else followed c (readCharacters rest)

def readString : Reader String := fun text => do
  let rest ← expect '"' text
  let (characters, rest) ← readCharacters rest
  return (String.ofList characters, rest)

def readScalar : Reader (Document Figure) := fun text =>
  match text with
  | 'n' :: _ => (expectWord ['n', 'u', 'l', 'l'] text).map fun rest => (.null, rest)
  | 't' :: _ => (expectWord ['t', 'r', 'u', 'e'] text).map fun rest => (.boolean true, rest)
  | 'f' :: _ =>
    (expectWord ['f', 'a', 'l', 's', 'e'] text).map fun rest => (.boolean false, rest)
  | '"' :: _ => (readString text).map fun (s, rest) => (.string s, rest)
  | _ => (readNumber text).map fun (n, rest) => (.number n, rest)

/-- What follows an item, up to `close`: nothing, or a comma and a further item, and so on. Every
item takes a comma, so the text itself bounds their number. -/
def readMore {α : Type} (close : Char) (item : Reader α) : List Char → Reader (List α)
  | [], _ => none
  | _ :: bound, text =>
    match skipGap text with
    | c :: rest =>
      if c = close then some ([], rest)
      else if c = ',' then do
        let (first, rest) ← item (skipGap rest)
        let (more, rest) ← readMore close item bound rest
        return (first :: more, rest)
      else none
    | [] => none

def readSequence {α : Type} (close : Char) (item : Reader α) : Reader (List α) := fun text =>
  match expect close (skipGap text) with
  | some rest => some ([], rest)
  | none => do
    let (first, rest) ← item (skipGap text)
    let (more, rest) ← readMore close item rest rest
    return (first :: more, rest)

def readField {α : Type} (value : Reader α) : Reader (String × α) := fun text => do
  let (key, rest) ← readString text
  let rest ← expect ':' (skipGap rest)
  let (item, rest) ← value (skipGap rest)
  return ((key, item), rest)

def readValue : Nat → Reader (Document Figure)
  | 0 => readScalar
  | levels + 1 => fun text =>
    match text with
    | '[' :: rest =>
      (readSequence ']' (readValue levels) rest).map fun (items, rest) => (.array items, rest)
    | '{' :: rest =>
      (readSequence '}' (readField (readValue levels)) rest).map fun (fields, rest) =>
        (.object (Fields.ofList fields), rest)
    | _ => readScalar text

def maxLevels : Nat := 127

def readDocument (text : String) : Option (Document Figure) := do
  let (value, rest) ← readValue maxLevels (skipGap text.toList)
  if skipGap rest = [] then return value else none

/-- Whether a document may end here: after a bracket or a quote always, after a word or a number
only before a gap or a sign of structure. -/
def mayEnd (opening : Char) (rest : List Char) : Bool :=
  opening == '[' || opening == '{' || opening == '"' ||
    match rest with
    | [] => true
    | c :: _ => isGap c || ['"', '[', ']', '{', '}', ',', ':'].contains c

def readDocumentsFrom : List Char → List Char → Option (List (Document Figure))
  | bound, text =>
    match skipGap text with
    | [] => some []
    | opening :: later =>
      match bound with
      | [] => none
      | _ :: bound => do
        let (value, rest) ← readValue maxLevels (opening :: later)
        if mayEnd opening rest then return value :: (← readDocumentsFrom bound rest) else none

def Decoder.reference : Decoder where
  Number := Figure
  toInteger? := Figure.toInteger?
  toFloat? := Figure.toFloat?
  documents text := readDocumentsFrom text.toList text.toList

end RecordPipeline.Json
