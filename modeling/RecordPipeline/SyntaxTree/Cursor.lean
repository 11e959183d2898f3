import RecordPipeline.SyntaxTree.Parser

/-!
A parser that is asked more than once. A `Cursor` counts the tokens behind it and the levels of nesting
that are open, and every answer, a fault too, leaves it where reading stopped. The rules are those of
the grammar; only the levels are told by the count and not by how many are left.
-/

namespace RecordPipeline

class NestedSource (σ : Type) extends TokenSource σ where
  depth : σ → Nat
  enter : σ → σ
  leave : σ → σ

namespace Parser

section Nesting

open TokenSource NestedSource

variable {σ α : Type} [NestedSource σ]

/-- One level further down, which is closed again whatever comes of it. -/
def nested (p : ParserOn σ α) : ParserOn σ α := fun s =>
  if maxNesting ≤ depth s then tooDeep s
  else
    match p (enter s) with
    | (outcome, t) => (outcome, leave t)

theorem nested_of_full {s : σ} (full : maxNesting ≤ depth s) (p : ParserOn σ α) :
    nested p s = tooDeep s :=
  if_pos full

theorem nested_of_room {s : σ} (room : depth s < maxNesting) (p : ParserOn σ α) :
    nested p s = ((p (enter s)).1, leave (p (enter s)).2) :=
  if_neg (Nat.not_le_of_lt room)

/-- The rules that count their levels, as far down as there are rounds. Below the last round nothing is
read; one round more than there are levels never comes that far. -/
def counted : Nat → LevelOn σ
  | 0 => ⟨tooDeep, tooDeep, tooDeep⟩
  | rounds + 1 =>
    let inner := counted rounds
    ⟨nested (disjunction inner), nested (negation inner), nested (signed inner)⟩

end Nesting

end Parser

inductive StartSymbol where
  | query | arguments | expression
deriving DecidableEq, Repr

namespace StartSymbol

open RecordPipeline.Parser

def rule {σ : Type} [TokenSource σ] (inner : LevelOn σ) : StartSymbol → ParserOn σ Node
  | query => queryOver inner
  | arguments => argumentsOver inner
  | expression => inner.expression

def parser {σ : Type} [NestedSource σ] (symbol : StartSymbol) : ParserOn σ Node :=
  symbol.rule (counted (maxNesting + 1))

end StartSymbol

@[ext]
structure Cursor where
  tokens : List Token
  position : Nat
  depth : Nat
deriving Repr

namespace Cursor

def start (tokens : List Token) : Cursor :=
  ⟨tokens, 0, 0⟩

/-- The token at the position; the last one for every position behind it. -/
def current (c : Cursor) : Token :=
  c.tokens.getD (min c.position (c.tokens.length - 1)) ⟨.endOfInput, "", 0⟩

def nextKind? (c : Cursor) : Option TokenKind :=
  c.tokens[c.position + 1]?.map (·.kind)

def advance (c : Cursor) : Cursor :=
  if c.current.kind = .endOfInput then c else { c with position := c.position + 1 }

instance : NestedSource Cursor where
  current := current
  nextKind? := nextKind?
  later c := c.tokens.drop (c.position + 1)
  advance := advance
  depth := depth
  enter c := { c with depth := c.depth + 1 }
  leave c := { c with depth := c.depth - 1 }

def answers : List StartSymbol → Cursor → List (Except Fault Node)
  | [], _ => []
  | symbol :: later, c => (symbol.parser c).1 :: answers later (symbol.parser c).2

def after : List StartSymbol → Cursor → Cursor
  | [], c => c
  | symbol :: later, c => after later (symbol.parser c).2

end Cursor

end RecordPipeline
