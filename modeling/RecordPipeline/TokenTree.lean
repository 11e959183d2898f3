import RecordPipeline.SyntaxTree
import RecordPipeline.Text.Quoted

/-!
Syntax trees cut down to the spelling of their tokens and the nesting that matters, and text put
together again from such spellings.
-/

namespace RecordPipeline

inductive TokenTree where
  | token (text : String)
  | group (children : List TokenTree)

namespace TokenTree

instance : Inhabited TokenTree := ⟨group []⟩

def leaf (text : String) : TokenTree :=
  group [token text]

def children : TokenTree → List TokenTree
  | token _ => []
  | group children => children

def leafText? : TokenTree → Option String
  | group [token text] => some text
  | _ => none

/-- The token that a group opens with, also when it is the first token of the first part. -/
def head? : TokenTree → Option String
  | group (token text :: _) => some text
  | group (group (token text :: _) :: _) => some text
  | _ => none

@[simp] theorem leafText?_leaf (text : String) : (leaf text).leafText? = some text := rfl

@[simp] theorem head?_leaf (text : String) : (leaf text).head? = some text := rfl

mutual

def depth : TokenTree → Nat
  | token _ => 0
  | group children => depthOf children + 1

def depthOf : List TokenTree → Nat
  | [] => 0
  | child :: later => max child.depth (depthOf later)

end

mutual

def flatten : TokenTree → List String
  | token text => [text]
  | group children => flattenAll children

def flattenAll : List TokenTree → List String
  | [] => []
  | child :: later => child.flatten ++ flattenAll later

end

mutual

def text : TokenTree → String
  | token text => Text.quoted text
  | group children => "[" ++ String.intercalate ", " (textsOf children) ++ "]"

def textsOf : List TokenTree → List String
  | [] => []
  | child :: later => child.text :: textsOf later

end

@[simp] theorem flatten_leaf (text : String) : (leaf text).flatten = [text] := by
  simp [leaf, flatten, flattenAll]

end TokenTree

mutual

/-- Leaves become groups of one token; a branch with one child is its child. -/
def Node.tokenTree : Node → TokenTree
  | .leaf token => .leaf token.text
  | .branch _ [only] => only.tokenTree
  | .branch _ children => .group (tokenTrees children)

def Node.tokenTrees : List Node → List TokenTree
  | [] => []
  | child :: later => child.tokenTree :: tokenTrees later

end

/-- Characters that stand next to others without a blank. -/
def isTight (c : Char) : Bool :=
  ['(', ')', '\x7b', '\x7d', '[', ']', ',', '.', ':', '"', '\''].contains c

/-- Adds a token to a text, behind a blank unless one of the characters that meet is tight. -/
def joinToken (joined token : List Char) : List Char :=
  if joined.isEmpty || (joined.getLast?.map isTight).getD false ||
      (token.head?.map isTight).getD false then
    joined ++ token
  else joined ++ ' ' :: token

def joinTokens (tokens : List String) : String :=
  String.ofList ((tokens.map String.toList).foldl joinToken [])

@[simp] theorem joinTokens_nil : joinTokens [] = "" := rfl

@[simp] theorem joinTokens_singleton (token : String) : joinTokens [token] = token := by
  simp [joinTokens, joinToken]

/-- Tokens that are being put together piece by piece, until the last of them has been used. -/
structure Pieces where
  tokens : List String
  ended : Bool

namespace Pieces

def ofTokens (tokens : List String) : Pieces :=
  ⟨tokens, false⟩

def gather (delimiter merged : String) : List String → String × Option (List String)
  | [] => (merged, none)
  | token :: later =>
    if token = delimiter then (merged, some later)
    else gather delimiter (if merged = "" then token else merged ++ " " ++ token) later

/-- The next piece. An empty piece counts only before a delimiter. -/
def next (delimiter : String) (pieces : Pieces) : Option String × Pieces :=
  if pieces.ended then (none, pieces)
  else
    match gather delimiter "" pieces.tokens with
    | (piece, some later) => (some piece, ⟨later, false⟩)
    | (piece, none) => (if piece = "" then none else some piece, ⟨[], true⟩)

def toListWithin (delimiter : String) : Nat → Pieces → List String
  | 0, _ => []
  | bound + 1, pieces =>
    match pieces.next delimiter with
    | (none, _) => []
    | (some piece, later) => piece :: toListWithin delimiter bound later

def toList (delimiter : String) (pieces : Pieces) : List String :=
  pieces.toListWithin delimiter (pieces.tokens.length + 1)

theorem next_of_ended (delimiter : String) {pieces : Pieces} (h : pieces.ended = true) :
    pieces.next delimiter = (none, pieces) := by
  simp [next, h]

end Pieces

/-- The texts of the parameters in a group: its children between commas. A group without enough
nesting to have parts is one text. -/
def TokenTree.parameterTexts : TokenTree → List String
  | .token text => [text]
  | .group [.token text] => [text]
  | tree =>
    let parts :=
      if tree.depth < 4 then [joinTokens tree.flatten]
      else tree.children.map fun child => joinTokens child.flatten
    (Pieces.ofTokens parts).toList ","

end RecordPipeline
