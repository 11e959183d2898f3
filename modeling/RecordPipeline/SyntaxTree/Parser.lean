import RecordPipeline.Fault
import RecordPipeline.SyntaxTree
import RecordPipeline.Token.Lexer

/-!
The grammar by recursive descent. A parser works on a source of tokens that always has a current one
and never moves past the end of the input; it leaves the source where it stopped, after a fault too.
The rules are the same for every source; texts are read from a `TokenStream`.

Every way back from the inside of an expression to a whole expression, to the operand of `not` or to
the operand of a sign goes one level down. A `Level` holds the three parsers for the level below, so
each rule is written once, over the level it may descend to, and the levels themselves are built by
recursion on the number of them that are left.
-/

namespace RecordPipeline

structure TokenStream where
  current : Token
  later : List Token

namespace TokenStream

def ofTokens : List Token → TokenStream
  | token :: later => ⟨token, later⟩
  | [] => ⟨⟨.endOfInput, "", 0⟩, []⟩

def toList (s : TokenStream) : List Token :=
  s.current :: s.later

def kind (s : TokenStream) : TokenKind :=
  s.current.kind

def nextKind? (s : TokenStream) : Option TokenKind :=
  s.later.head?.map (·.kind)

def advance (s : TokenStream) : TokenStream :=
  if s.kind = .endOfInput then s
  else
    match s.later with
    | token :: later => ⟨token, later⟩
    | [] => s

@[simp] theorem toList_ofTokens_cons (token : Token) (later : List Token) :
    (ofTokens (token :: later)).toList = token :: later := rfl

theorem advance_of_end {s : TokenStream} (h : s.kind = .endOfInput) : s.advance = s := by
  simp [advance, h]

theorem toList_advance {s : TokenStream} (h : s.kind ≠ .endOfInput) (more : s.later ≠ []) :
    s.advance.toList = s.later := by
  match s, more with
  | ⟨_, token :: later⟩, _ => simp_all [advance, toList, kind]

end TokenStream

/-- What the rules of the grammar read from. The tokens behind the current one bound the rounds of a
loop. -/
class TokenSource (σ : Type) where
  current : σ → Token
  nextKind? : σ → Option TokenKind
  later : σ → List Token
  advance : σ → σ

instance : TokenSource TokenStream where
  current := TokenStream.current
  nextKind? := TokenStream.nextKind?
  later := TokenStream.later
  advance := TokenStream.advance

namespace TokenStream

@[simp] theorem source_current (s : TokenStream) : TokenSource.current s = s.current := rfl

@[simp] theorem source_nextKind? (s : TokenStream) : TokenSource.nextKind? s = s.nextKind? := rfl

@[simp] theorem source_later (s : TokenStream) : TokenSource.later s = s.later := rfl

@[simp] theorem source_advance (s : TokenStream) : TokenSource.advance s = s.advance := rfl

end TokenStream

def ParserOn (σ α : Type) := σ → Except Fault α × σ

abbrev Parser := ParserOn TokenStream

namespace Parser

variable {σ α β : Type}

instance : Monad (ParserOn σ) where
  pure a s := (.ok a, s)
  bind p f s :=
    match p s with
    | (.ok a, s) => f a s
    | (.error fault, s) => (.error fault, s)

theorem pure_apply (a : α) (s : σ) : (pure a : ParserOn σ α) s = (.ok a, s) := rfl

theorem bind_apply (p : ParserOn σ α) (f : α → ParserOn σ β) (s : σ) :
    (p >>= f) s =
      match p s with
      | (.ok a, s) => f a s
      | (.error fault, s) => (.error fault, s) := rfl

def failAt (cause : Cause) (offset : Nat) : ParserOn σ α := fun s => (.error ⟨cause, offset⟩, s)

open TokenSource

variable [TokenSource σ]

def peek : ParserOn σ TokenKind := fun s => (.ok (current s).kind, s)

def offset : ParserOn σ Nat := fun s => (.ok (current s).offset, s)

def peekPair (first second : TokenKind) : ParserOn σ Bool := fun s =>
  (.ok ((current s).kind == first && nextKind? s == some second), s)

def take : ParserOn σ Node := fun s => (.ok (.leaf (current s)), advance s)

def unexpected (wanted : String) : ParserOn σ α := fun s =>
  (.error ⟨.expected wanted (current s).shown, (current s).offset⟩, s)

def require (kind : TokenKind) (wanted : String) : ParserOn σ Node := do
  if (← peek) = kind then take else unexpected wanted

/-- A loop that takes a token each time round has no more rounds than there are tokens ahead. -/
def bounded (loop : List Token → ParserOn σ α) : ParserOn σ α := fun s => loop (later s) s

def chainMore (operator : ParserOn σ (Option Node)) (operand : ParserOn σ Node) :
    List Token → ParserOn σ (List Node)
  | [] => pure []
  | _ :: bound => do
    match ← operator with
    | none => return []
    | some symbol =>
      let right ← operand
      return symbol :: right :: (← chainMore operator operand bound)

def chain (rule : Rule) (operator : ParserOn σ (Option Node)) (operand : ParserOn σ Node) :
    ParserOn σ Node := do
  let first ← operand
  return .collapse rule (first :: (← bounded (chainMore operator operand)))

def itemsMore (closing : TokenKind) (item : ParserOn σ Node) : List Token → ParserOn σ (List Node)
  | [] => pure []
  | _ :: bound => do
    if (← peek) = .comma then
      let comma ← take
      if (← peek) = closing then return [comma]
      else
        let next ← item
        return comma :: next :: (← itemsMore closing item bound)
    else return []

/-- `item (',' item)* [',']`, where a comma before `closing` is the last. -/
def items (closing : TokenKind) (item : ParserOn σ Node) : ParserOn σ (List Node) := do
  let first ← item
  return first :: (← bounded (itemsMore closing item))

structure LevelOn (σ : Type) where
  expression : ParserOn σ Node
  negation : ParserOn σ Node
  signed : ParserOn σ Node

abbrev Level := LevelOn TokenStream

def symbolAmong (kinds : List TokenKind) : ParserOn σ (Option Node) := do
  if kinds.contains (← peek) then return some (← take) else return none

def comparisonSymbol : ParserOn σ (Option Node) := do
  let kind ← peek
  if kind.isRelational || kind == .inWord then return some (← take)
  else if ← peekPair .notWord .inWord then
    let first ← take
    let second ← take
    return some (.branch .notIn [first, second])
  else return none

def attributeName : ParserOn σ Node := do
  if [TokenKind.name, .andWord, .orWord, .notWord, .inWord, .trueWord, .falseWord,
      .nullWord].contains (← peek) then take
  else unexpected "attribute name after '.'"

def argument (inner : LevelOn σ) : ParserOn σ Node := do
  let start ← offset
  let value ← inner.expression
  if (← peek) = .assign then
    if value.bareName?.isNone then failAt .bindingName start
    else
      let sign ← take
      let bound ← inner.expression
      return .branch .binding [value, sign, bound]
  else return value

def argumentList (inner : LevelOn σ) (closing : TokenKind) : ParserOn σ Node := do
  return .branch .arguments (← items closing (argument inner))

def callTrailer (inner : LevelOn σ) : ParserOn σ Node := do
  let opening ← take
  if (← peek) = .closeParen then return .branch .trailer [opening, ← take]
  else
    let arguments ← argumentList inner .closeParen
    let closing ← require .closeParen "')'"
    return .branch .trailer [opening, arguments, closing]

def indexTrailer (inner : LevelOn σ) : ParserOn σ Node := do
  let opening ← take
  let index ← inner.expression
  let closing ← require .closeBracket "']'"
  return .branch .trailer [opening, index, closing]

def attributeTrailer : ParserOn σ Node := do
  let dot ← take
  return .branch .trailer [dot, ← attributeName]

def trailers (inner : LevelOn σ) : List Token → ParserOn σ (List Node)
  | [] => pure []
  | _ :: bound => do
    match ← peek with
    | .openParen =>
      let trailer ← callTrailer inner
      return trailer :: (← trailers inner bound)
    | .openBracket =>
      let trailer ← indexTrailer inner
      return trailer :: (← trailers inner bound)
    | .dot =>
      let trailer ← attributeTrailer
      return trailer :: (← trailers inner bound)
    | _ => return []

def delimited (inner : LevelOn σ) (rule : Rule) (closing : TokenKind) (wanted : String) :
    ParserOn σ Node := do
  let opening ← take
  if (← peek) = closing then return .branch rule [opening, ← take]
  else
    let content ← items closing inner.expression
    let last ← require closing wanted
    return .branch rule [opening, .collapse .sequence content, last]

def field (inner : LevelOn σ) : ParserOn σ (List Node) := do
  let key ← inner.expression
  let colon ← require .colon "':'"
  let value ← inner.expression
  return [key, colon, value]

def fieldsMore (inner : LevelOn σ) : List Token → ParserOn σ (List Node)
  | [] => pure []
  | _ :: bound => do
    if (← peek) = .comma then
      let comma ← take
      if (← peek) = .closeBrace then return [comma]
      else
        let next ← field inner
        return comma :: next ++ (← fieldsMore inner bound)
    else return []

def braces (inner : LevelOn σ) : ParserOn σ Node := do
  let opening ← take
  if (← peek) = .closeBrace then return .branch .braces [opening, ← take]
  else
    let first ← field inner
    let more ← bounded (fieldsMore inner)
    let closing ← require .closeBrace "'\x7d'"
    return .branch .braces [opening, .branch .fields (first ++ more), closing]

def atom (inner : LevelOn σ) : ParserOn σ Node := do
  match ← peek with
  | .integer | .float | .string | .trueWord | .falseWord | .nullWord | .name => take
  | .dot =>
    let dot ← take
    return .branch .implicitField [dot, ← attributeName]
  | .openParen => delimited inner .parens .closeParen "')'"
  | .openBracket => delimited inner .list .closeBracket "']'"
  | .openBrace => braces inner
  | _ => unexpected "expression"

def access (inner : LevelOn σ) : ParserOn σ Node := do
  let first ← atom inner
  return .branch .access (first :: (← bounded (trailers inner)))

def signed (inner : LevelOn σ) : ParserOn σ Node := do
  if [TokenKind.minus, .plus].contains (← peek) then
    let sign ← take
    return .branch .signed [sign, ← inner.signed]
  else access inner

def product (inner : LevelOn σ) : ParserOn σ Node :=
  chain .product (symbolAmong [.star, .slash, .percent]) (signed inner)

def sum (inner : LevelOn σ) : ParserOn σ Node :=
  chain .sum (symbolAmong [.plus, .minus]) (product inner)

def comparison (inner : LevelOn σ) : ParserOn σ Node :=
  chain .comparison comparisonSymbol (sum inner)

def negation (inner : LevelOn σ) : ParserOn σ Node := do
  if (← peek) = .notWord then
    let symbol ← take
    return .branch .negation [symbol, ← inner.negation]
  else comparison inner

def conjunction (inner : LevelOn σ) : ParserOn σ Node :=
  chain .conjunction (symbolAmong [.andWord]) (negation inner)

def disjunction (inner : LevelOn σ) : ParserOn σ Node :=
  chain .disjunction (symbolAmong [.orWord]) (conjunction inner)

def queryOver (inner : LevelOn σ) : ParserOn σ Node := do
  let content ← items .endOfInput inner.expression
  let last ← require .endOfInput "',' or end of input"
  return .branch .query [.branch .sequence content, last]

def argumentsOver (inner : LevelOn σ) : ParserOn σ Node := do
  if (← peek) = .endOfInput then return .branch .arguments []
  else
    let content ← argumentList inner .endOfInput
    let _ ← require .endOfInput "',' or end of input"
    return content

def tooDeep : ParserOn σ α := fun s => (.error ⟨.nestedTooDeeply, (current s).offset⟩, s)

def level : Nat → Level
  | 0 => ⟨tooDeep, tooDeep, tooDeep⟩
  | levels + 1 =>
    let inner := level levels
    ⟨disjunction inner, negation inner, signed inner⟩

def maxNesting : Nat := 64

def query : Parser Node :=
  queryOver (level maxNesting)

def arguments : Parser Node :=
  argumentsOver (level maxNesting)

end Parser

def Parser.parse {α : Type} (p : Parser α) (source : String) : Except Fault α := do
  (p (.ofTokens (← tokenize source))).1

def parseQuery (source : String) : Except Fault Node :=
  Parser.query.parse source

def parseArguments (source : String) : Except Fault Node :=
  Parser.arguments.parse source

end RecordPipeline
