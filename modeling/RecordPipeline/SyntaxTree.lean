import RecordPipeline.Token

/-!
The tree that the grammar finds in a list of tokens. Every token is a leaf, in its order, so the
leaves of a tree spell the text that it was read from.
-/

namespace RecordPipeline

inductive Rule where
  | query
  /-- Expressions between commas. -/
  | sequence
  | disjunction | conjunction | negation | comparison
  | notIn
  | sum | product | signed
  /-- An atom and the trailers behind it. -/
  | access
  | trailer
  | arguments
  /-- A named argument. -/
  | binding
  | parens | list | braces
  | fields
  /-- An attribute of the record, with nothing in front of the dot. -/
  | implicitField
deriving DecidableEq, Repr

inductive Node where
  | leaf (token : Token)
  | branch (rule : Rule) (children : List Node)

namespace Node

instance : Inhabited Node := ⟨branch .query []⟩

def kind? : Node → Option TokenKind
  | leaf token => some token.kind
  | branch _ _ => none

def children : Node → List Node
  | leaf _ => []
  | branch _ children => children

mutual

def tokens : Node → List Token
  | leaf token => [token]
  | branch _ children => tokensOf children

def tokensOf : List Node → List Token
  | [] => []
  | child :: later => child.tokens ++ tokensOf later

end

@[simp] theorem tokens_leaf (token : Token) : (leaf token).tokens = [token] := by
  simp [tokens]

@[simp] theorem tokens_branch (rule : Rule) (children : List Node) :
    (branch rule children).tokens = tokensOf children := by
  simp [tokens]

@[simp] theorem tokensOf_nil : tokensOf [] = [] := by
  simp [tokensOf]

@[simp] theorem tokensOf_cons (child : Node) (later : List Node) :
    tokensOf (child :: later) = child.tokens ++ tokensOf later := by
  simp [tokensOf]

@[simp] theorem tokensOf_append (front back : List Node) :
    tokensOf (front ++ back) = tokensOf front ++ tokensOf back := by
  induction front with
  | nil => simp
  | cons child later ih => simp [ih]

def texts (node : Node) : List String :=
  node.tokens.map (·.text)

/-- A branch, unless there is a single child to stand for it. -/
def collapse (rule : Rule) : List Node → Node
  | [only] => only
  | children => branch rule children

@[simp] theorem tokens_collapse (rule : Rule) (children : List Node) :
    (collapse rule children).tokens = tokensOf children := by
  match children with
  | [] => simp [collapse]
  | [only] => simp [collapse]
  | _ :: _ :: _ => simp [collapse]

/-- The name that a node is, behind branches of one child. -/
def bareName? : Node → Option String
  | leaf token => if token.kind = .name then some token.text else none
  | branch _ [only] => only.bareName?
  | branch _ _ => none

end Node

end RecordPipeline
