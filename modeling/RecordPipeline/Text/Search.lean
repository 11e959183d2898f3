import RecordPipeline.Text.CharClass

/-!
Finding, splitting and trimming texts, as lists of characters.
-/

namespace RecordPipeline.Text

def occursIn (needle : List Char) : List Char → Bool
  | [] => needle.isEmpty
  | c :: cs => needle.isPrefixOf (c :: cs) || occursIn needle cs

def consFirst (c : Char) : List (List Char) → List (List Char)
  | [] => [[c]]
  | piece :: later => (c :: piece) :: later

/-- The pieces between the occurrences of `separator`, after `skip` characters that belong to an
occurrence already. -/
def splitAfter (separator : List Char) : Nat → List Char → List (List Char)
  | _, [] => [[]]
  | skip + 1, _ :: cs => splitAfter separator skip cs
  | 0, c :: cs =>
    if separator.isPrefixOf (c :: cs) then [] :: splitAfter separator (separator.length - 1) cs
    else consFirst c (splitAfter separator 0 cs)

def splitBy (separator text : List Char) : List (List Char) :=
  splitAfter separator 0 text

def splitBlank : List Char → List (List Char)
  | [] => [[]]
  | c :: cs => if isBlank c then [] :: splitBlank cs else consFirst c (splitBlank cs)

def words (text : List Char) : List (List Char) :=
  (splitBlank text).filter (· ≠ [])

def trimWhere (drop : Char → Bool) (text : List Char) : List Char :=
  ((text.dropWhile drop).reverse.dropWhile drop).reverse

def trim (text : List Char) : List Char :=
  trimWhere isBlank text

end RecordPipeline.Text
