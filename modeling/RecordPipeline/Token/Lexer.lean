import RecordPipeline.Fault
import RecordPipeline.Text.CharClass
import RecordPipeline.Token

/-!
Query text cut into tokens. `scan` reads one token at the front of a text that does not begin with
white space; a `Scanner` skips the white space before it and counts characters. A scanner can be
asked again after a fault: it goes on behind a malformed number, at the end of the text after an
unclosed string, and otherwise stays where it is.
-/

namespace RecordPipeline

open Text

/-- One token and the text behind it, or a fault and the text where scanning goes on. -/
inductive Scan where
  | token (kind : TokenKind) (text rest : List Char)
  | fault (cause : Cause) (rest : List Char)

/-- A string up to its closing quote, and what follows; a backslash takes the next character along.
The opening quote has been read. -/
def spanString (quote : Char) : List Char → Option (List Char × List Char)
  | [] => none
  | c :: cs =>
    if c = quote then some ([c], cs)
    else if c = '\\' then
      match cs with
      | [] => none
      | escaped :: cs =>
        (spanString quote cs).map fun (text, rest) => (c :: escaped :: text, rest)
    else (spanString quote cs).map fun (text, rest) => (c :: text, rest)

structure NumberSpan where
  text : List Char
  rest : List Char
  isFloat : Bool

namespace NumberSpan

def push (c : Char) (span : NumberSpan) : NumberSpan :=
  { span with text := c :: span.text }

end NumberSpan

def startsWithDigit : List Char → Bool
  | c :: _ => isDigit c
  | [] => false

def isSign (c : Char) : Bool :=
  c == '+' || c == '-'

/-- Digits, a point before a digit unless the number is a float already, and an `e` before digits
with or without a sign, however often it comes. -/
def spanNumber (isFloat : Bool) : List Char → NumberSpan
  | [] => ⟨[], [], isFloat⟩
  | c :: cs =>
    if isDigit c then (spanNumber isFloat cs).push c
    else if c = '.' && !isFloat && startsWithDigit cs then (spanNumber true cs).push c
    else if c = 'e' || c = 'E' then
      if startsWithDigit cs then (spanNumber true cs).push c
      else
        match cs with
        | [] => ⟨[], [c], isFloat⟩
        | sign :: digits =>
          if isSign sign && startsWithDigit digits then
            ((spanNumber true digits).push sign).push c
          else ⟨[], c :: sign :: digits, isFloat⟩
    else ⟨[], c :: cs, isFloat⟩

def scanString (quote : Char) (cs : List Char) : Scan :=
  match spanString quote cs with
  | some (text, rest) => .token .string (quote :: text) rest
  | none => .fault .unclosedString []

def scanNumber (cs : List Char) : Scan :=
  let span := spanNumber false cs
  if (span.rest.head?.map startsName).getD false then
    .fault (.malformedNumber (String.ofList span.text)) span.rest
  else .token (if span.isFloat then .float else .integer) span.text span.rest

def scanName (cs : List Char) : Scan :=
  let text := cs.takeWhile continuesName
  .token (.ofWord (String.ofList text)) text (cs.dropWhile continuesName)

def scanSymbol (c : Char) (cs : List Char) : Scan :=
  match TokenKind.ofPair c, cs with
  | some kind, '=' :: rest => .token kind [c, '='] rest
  | _, _ =>
    if c = '.' && startsWithDigit cs then .fault .bareFraction (c :: cs)
    else
      match TokenKind.ofSymbol c with
      | some kind => .token kind [c] cs
      | none => .fault (if c = '!' then .loneBang else .strayCharacter c) (c :: cs)

def scan : List Char → Scan
  | [] => .token .endOfInput [] []
  | c :: cs =>
    if c = '"' || c = '\'' then scanString c cs
    else if startsName c then scanName (c :: cs)
    else if isDigit c then scanNumber (c :: cs)
    else scanSymbol c cs

structure Scanner where
  ahead : List Char
  offset : Nat

namespace Scanner

def start (source : String) : Scanner :=
  ⟨source.toList, 0⟩

def skipBlank (s : Scanner) : Scanner :=
  ⟨s.ahead.dropWhile isBlank, s.offset + (s.ahead.takeWhile isBlank).length⟩

def next (s : Scanner) : Except Fault Token × Scanner :=
  let s := s.skipBlank
  match scan s.ahead with
  | .token kind text rest =>
    (.ok ⟨kind, String.ofList text, s.offset⟩, ⟨rest, s.offset + text.length⟩)
  | .fault cause rest =>
    (.error ⟨cause, s.offset⟩, ⟨rest, s.offset + (s.ahead.length - rest.length)⟩)

def readings : Nat → Scanner → List (Except Fault Token)
  | 0, _ => []
  | count + 1, s => s.next.1 :: readings count s.next.2

/-- All tokens from here to the end of the input. Each takes a character, so there are no more of
them than `bound` when that is above the length of the text. -/
def tokensWithin : Nat → Scanner → Except Fault (List Token)
  | 0, _ => .ok []
  | bound + 1, s =>
    match s.next with
    | (.error fault, _) => .error fault
    | (.ok token, later) =>
      if token.kind = .endOfInput then .ok [token]
      else (tokensWithin bound later).map (token :: ·)

end Scanner

def tokenize (source : String) : Except Fault (List Token) :=
  (Scanner.start source).tokensWithin (source.length + 1)

end RecordPipeline
