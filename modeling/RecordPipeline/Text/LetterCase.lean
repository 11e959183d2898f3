import RecordPipeline.Text.CaseTable

/-!
Texts in lower and in upper case. Some characters become several, and a capital sigma at the end of
a word becomes the final small one.
-/

namespace RecordPipeline.Text

def mapByRuns (runs : List CaseRun) (point : Nat) : Nat :=
  match runs.find? fun run => run.mem point with
  | some run => run.apply point
  | none => point

def lowerChar (c : Char) : List Char :=
  if 'A' ≤ c ∧ c ≤ 'Z' then [Char.ofNat (c.toNat + 32)]
  else if c.toNat = 0x130 then ['i', Char.ofNat 0x307]
  else [Char.ofNat (mapByRuns lowerRuns c.toNat)]

def upperChar (c : Char) : List Char :=
  if 'a' ≤ c ∧ c ≤ 'z' then [Char.ofNat (c.toNat - 32)]
  else
    match upperSequences.lookup c.toNat with
    | some points => points.map Char.ofNat
    | none => [Char.ofNat (mapByRuns upperRuns c.toNat)]

def meetsCased (text : List Char) : Bool :=
  match text.dropWhile fun c => liesIn caseIgnorableBounds c.toNat with
  | [] => false
  | c :: _ => liesIn casedBounds c.toNat

/-- A sigma is final behind a letter and before none. -/
def lowerSigma (before after : List Char) : Char :=
  Char.ofNat (if meetsCased before && !meetsCased after then 0x3C2 else 0x3C3)

def lowerFrom (before : List Char) : List Char → List Char
  | [] => []
  | c :: cs =>
    (if c.toNat = 0x3A3 then [lowerSigma before cs] else lowerChar c) ++ lowerFrom (c :: before) cs

def lower (text : List Char) : List Char :=
  lowerFrom [] text

def upper (text : List Char) : List Char :=
  text.flatMap upperChar

end RecordPipeline.Text
