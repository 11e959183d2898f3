import RecordPipeline.Json.Document

/-!
Texts in standard JSON whose numbers are integers of 64 bits, and what a decoder makes of them. A
phrase is spelled from the front of a text up to the rest behind it.
-/

namespace RecordPipeline.Json

namespace Document

variable {M N : Type}

mutual

def depth : Document N → Nat
  | .array items => depthItems items + 1
  | .object fields => depthFields fields + 1
  | _ => 0

def depthItems : List (Document N) → Nat
  | [] => 0
  | item :: later => max item.depth (depthItems later)

def depthFields : List (String × Document N) → Nat
  | [] => 0
  | (_, item) :: later => max item.depth (depthFields later)

end

mutual

def decoded (number : M → N) : Document M → Document N
  | .null => .null
  | .boolean b => .boolean b
  | .number n => .number (number n)
  | .string s => .string s
  | .array items => .array (decodedItems number items)
  | .object fields => .object (Fields.ofList (decodedFields number fields))

def decodedItems (number : M → N) : List (Document M) → List (Document N)
  | [] => []
  | item :: later => item.decoded number :: decodedItems number later

def decodedFields (number : M → N) : List (String × Document M) → List (String × Document N)
  | [] => []
  | (key, item) :: later => (key, item.decoded number) :: decodedFields number later

end

end Document

inductive Gap : List Char → List Char → Prop where
  | none {rest : List Char} : Gap rest rest
  | blank {c : Char} {text rest : List Char} (isBlank : c ∈ [' ', '\n', '\t', '\r'])
      (more : Gap text rest) : Gap (c :: text) rest

def HexDigit (c : Char) (n : Nat) : Prop :=
  "0123456789abcdef".toList[n]? = some c ∨ "0123456789ABCDEF".toList[n]? = some c

def HexUnit (a b c d : Char) (unit : Nat) : Prop :=
  ∃ i j k l, HexDigit a i ∧ HexDigit b j ∧ HexDigit c k ∧ HexDigit d l ∧
    unit = 4096 * i + 256 * j + 16 * k + l

def escapes : List (Char × Char) :=
  [('"', '"'), ('\\', '\\'), ('/', '/'), ('b', '\x08'), ('f', '\x0c'), ('n', '\n'), ('r', '\r'),
    ('t', '\t')]

/-- Characters up to the closing quote. One beyond `0xffff` may be escaped as two surrogates. -/
inductive Letters : List Char → List Char → List Char → Prop where
  | close {rest : List Char} : Letters [] ('"' :: rest) rest
  | plain {c : Char} {s text rest : List Char} (noQuote : c ≠ '"') (noEscape : c ≠ '\\')
      (noControl : ¬c.toNat < 0x20) (more : Letters s text rest) : Letters (c :: s) (c :: text) rest
  | escape {e c : Char} {s text rest : List Char} (known : (e, c) ∈ escapes)
      (more : Letters s text rest) : Letters (c :: s) ('\\' :: e :: text) rest
  | unit {a b c d x : Char} {s text rest : List Char} (digits : HexUnit a b c d x.toNat)
      (more : Letters s text rest) : Letters (x :: s) ('\\' :: 'u' :: a :: b :: c :: d :: text) rest
  | pair {a b c d a' b' c' d' x : Char} {high low : Nat} {s text rest : List Char}
      (first : HexUnit a b c d (0xD800 + high)) (second : HexUnit a' b' c' d' (0xDC00 + low))
      (high_lt : high < 0x400) (low_lt : low < 0x400)
      (is : x.toNat = 0x10000 + 0x400 * high + low) (more : Letters s text rest) :
      Letters (x :: s)
        ('\\' :: 'u' :: a :: b :: c :: d :: '\\' :: 'u' :: a' :: b' :: c' :: d' :: text) rest

/-- A document, a field, or what is between the brackets of a container that is not empty, with the
closing one. -/
inductive Phrase where
  | document (d : Document Int64)
  | field (key : String) (d : Document Int64)
  | items (ds : List (Document Int64))
  | fields (fs : List (String × Document Int64))

inductive Spells : Phrase → List Char → List Char → Prop where
  | nullWord {rest : List Char} : Spells (.document .null) ('n' :: 'u' :: 'l' :: 'l' :: rest) rest
  | trueWord {rest : List Char} :
      Spells (.document (.boolean true)) ('t' :: 'r' :: 'u' :: 'e' :: rest) rest
  | falseWord {rest : List Char} :
      Spells (.document (.boolean false)) ('f' :: 'a' :: 'l' :: 's' :: 'e' :: rest) rest
  | number {n : Int64} {rest : List Char} :
      Spells (.document (.number n)) ((toString n.toInt).toList ++ rest) rest
  | string {s : String} {text rest : List Char} (letters : Letters s.toList text rest) :
      Spells (.document (.string s)) ('"' :: text) rest
  | noItems {text rest : List Char} (gap : Gap text (']' :: rest)) :
      Spells (.document (.array [])) ('[' :: text) rest
  | array {ds : List (Document Int64)} {text rest : List Char} (items : Spells (.items ds) text rest) :
      Spells (.document (.array ds)) ('[' :: text) rest
  | noFields {text rest : List Char} (gap : Gap text ('}' :: rest)) :
      Spells (.document (.object [])) ('{' :: text) rest
  | object {fs : List (String × Document Int64)} {text rest : List Char}
      (fields : Spells (.fields fs) text rest) : Spells (.document (.object fs)) ('{' :: text) rest
  | field {key : String} {d : Document Int64} {text colon front item rest : List Char}
      (letters : Letters key.toList text colon) (before : Gap colon (':' :: front))
      (after : Gap front item) (value : Spells (.document d) item rest) :
      Spells (.field key d) ('"' :: text) rest
  | lastItem {d : Document Int64} {text item behind rest : List Char} (before : Gap text item)
      (value : Spells (.document d) item behind) (after : Gap behind (']' :: rest)) :
      Spells (.items [d]) text rest
  | moreItems {d : Document Int64} {ds : List (Document Int64)}
      {text item behind more rest : List Char} (before : Gap text item)
      (value : Spells (.document d) item behind) (after : Gap behind (',' :: more))
      (others : Spells (.items ds) more rest) : Spells (.items (d :: ds)) text rest
  | lastField {key : String} {d : Document Int64} {text item behind rest : List Char}
      (before : Gap text item) (value : Spells (.field key d) item behind)
      (after : Gap behind ('}' :: rest)) : Spells (.fields [(key, d)]) text rest
  | moreFields {key : String} {d : Document Int64} {fs : List (String × Document Int64)}
      {text item behind more rest : List Char} (before : Gap text item)
      (value : Spells (.field key d) item behind) (after : Gap behind (',' :: more))
      (others : Spells (.fields fs) more rest) : Spells (.fields ((key, d) :: fs)) text rest

/-- Documents that are set apart by gaps. -/
inductive SpellsAll : List (Document Int64) → List Char → Prop where
  | none {text : List Char} (gap : Gap text []) : SpellsAll [] text
  | document {d : Document Int64} {ds : List (Document Int64)} {text item rest : List Char}
      (before : Gap text item) (value : Spells (.document d) item rest)
      (apart : rest = [] ∨ ∃ c more, rest = c :: more ∧ c ∈ [' ', '\n', '\t', '\r'])
      (others : SpellsAll ds rest) : SpellsAll (d :: ds) text

/-- A decoder of standard JSON, with containers up to 127 levels deep. `integer` gives the numbers that
are integers of 64 bits. -/
structure Decoder.Standard (decoder : Decoder) (integer : Int64 → decoder.Number) : Prop where
  toInteger? : ∀ n, decoder.toInteger? (integer n) = some n
  documents : ∀ text ds, SpellsAll ds text.toList → (∀ d ∈ ds, d.depth ≤ 127) →
    decoder.documents text = some (Document.decodedItems integer ds)

end RecordPipeline.Json
