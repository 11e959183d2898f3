/-!
The tokens of the query language. A token keeps its spelling and the number of characters before
it; the last one of every text is `endOfInput`, with an empty spelling.
-/

namespace RecordPipeline

inductive TokenKind where
  | integer | float | string
  | trueWord | falseWord | nullWord
  | name
  | andWord | orWord | notWord | inWord
  | equal | notEqual | less | greater | lessEqual | greaterEqual
  | plus | minus | star | slash | percent
  | assign
  | openParen | closeParen | openBracket | closeBracket | openBrace | closeBrace
  | dot | comma | colon
  | endOfInput
deriving DecidableEq, Repr

namespace TokenKind

def isRelational : TokenKind → Bool
  | equal | notEqual | less | greater | lessEqual | greaterEqual => true
  | _ => false

def keywords : List (String × TokenKind) :=
  [("and", andWord), ("or", orWord), ("not", notWord), ("in", inWord),
   ("True", trueWord), ("true", trueWord), ("False", falseWord), ("false", falseWord),
   ("None", nullWord), ("null", nullWord)]

def ofWord (word : String) : TokenKind :=
  (keywords.lookup word).getD name

def ofSymbol (c : Char) : Option TokenKind :=
  match c with
  | '(' => some openParen
  | ')' => some closeParen
  | '[' => some openBracket
  | ']' => some closeBracket
  | '{' => some openBrace
  | '}' => some closeBrace
  | ',' => some comma
  | ':' => some colon
  | '+' => some plus
  | '-' => some minus
  | '*' => some star
  | '/' => some slash
  | '%' => some percent
  | '.' => some dot
  | '=' => some assign
  | '<' => some less
  | '>' => some greater
  | _ => none

/-- Symbols of two characters, by the one before `=`. -/
def ofPair (c : Char) : Option TokenKind :=
  match c with
  | '=' => some equal
  | '!' => some notEqual
  | '<' => some lessEqual
  | '>' => some greaterEqual
  | _ => none

end TokenKind

structure Token where
  kind : TokenKind
  text : String
  offset : Nat
deriving DecidableEq, Repr

namespace Token

/-- How a token is named in a message; the end of the input has no spelling. -/
def shown (t : Token) : Option String :=
  if t.kind = .endOfInput then none else some t.text

end Token

end RecordPipeline
