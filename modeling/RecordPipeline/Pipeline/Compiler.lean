import RecordPipeline.Expr.Lowering
import RecordPipeline.Pipeline
import RecordPipeline.TokenTree

/-!
From query text to a pipeline. The query is parsed once and cut down to token trees, one for each
expression between its commas. A tree is a stage name, a stage call, or an expression that stands
for a stage: an object literal maps, parentheses filter, and anything else filters if it compares
and maps if it does not. The arguments of a stage are joined to text again and parsed as arguments.
-/

namespace RecordPipeline

inductive CompileError where
  | malformed (e : SyntaxError)
  | ambiguous (fragment : String)

namespace CompileError

def message : CompileError → String
  | malformed e => "Syntax error: " ++ e.text
  | ambiguous fragment => "Cannot compile '" ++ fragment ++ "' into a stage"

def ofTree (tree : TokenTree) : CompileError :=
  ambiguous (joinTokens tree.flatten)

end CompileError

namespace Compiler

open Text

def relationalTexts : List String :=
  ["==", ">", "<", "!=", ">=", "<="]

def keywordTexts : List String :=
  ["True", "False", "None", "true", "false", "null", "and", "or", "not", "in"]

def isName (text : String) : Bool :=
  match text.toList with
  | [] => false
  | c :: cs => startsName c && cs.all continuesName && !keywordTexts.contains text

def isStageName (text : String) : Bool :=
  isName text && text != "x"

def isComparing (c : Char) : Bool :=
  ['!', '>', '<', '='].contains c

def isPositional (text : String) : Bool :=
  let outside (c : Char) : Bool := !isComparing c
  match (text.toList.takeWhile outside, text.toList.dropWhile outside) with
  | (_ :: _, '=' :: c :: _) => ['>', '<', '='].contains c
  | _ => true

def impliedStage (tree : TokenTree) : String :=
  if tree.flatten.any relationalTexts.contains then "filter" else "map"

def parseParameters : List String → Except SyntaxError (List Argument)
  | [] => .ok []
  | text :: later =>
    if text.toList.all isBlank then parseParameters later
    else do
      let arguments ← Expr.parseArguments text
      return arguments ++ (← parseParameters later)

def invocationOf (parameters : List String) : Except SyntaxError Invocation :=
  if parameters.isEmpty then .ok .passthrough
  else (parseParameters parameters).map Invocation.ofArguments

def parametersOf (call : TokenTree) : List String :=
  match call.children with
  | [_, inner, _] => inner.parameterTexts
  | _ => [""]

def attributeName? (part : TokenTree) : Option String :=
  match part.children with
  | [dot, name] => if dot.leafText? = some "." then name.leafText? else none
  | _ => none

structure Draft where
  name : String
  invocation : Option Invocation
  trailers : List Trailer

def malformed {α : Type} (result : Except SyntaxError α) : Except CompileError α :=
  result.mapError .malformed

namespace Draft

def addTrailer (draft : Draft) (trailer : Trailer) : Draft :=
  { draft with trailers := draft.trailers ++ [trailer] }

def addCall (draft : Draft) (part : TokenTree) : Except CompileError Draft :=
  let parameters := parametersOf part
  match draft.invocation with
  | none => do
    let invocation ← malformed (invocationOf parameters)
    return { draft with invocation := some invocation }
  | some _ => do
    let arguments ← malformed (Expr.parseArguments (String.intercalate "," parameters))
    let (args, named) := Argument.split arguments
    return draft.addTrailer (.call args named)

/-- Before the call an attribute belongs to the name of the stage. -/
def addAttribute (draft : Draft) (part : TokenTree) : Except CompileError Draft :=
  match attributeName? part with
  | none => .error (.ofTree part)
  | some name =>
    match draft.invocation with
    | none => .ok { draft with name := draft.name ++ "." ++ name }
    | some _ => .ok (draft.addTrailer (.attr name))

def addIndex (draft : Draft) (part : TokenTree) : Except CompileError Draft :=
  match draft.invocation, part.children with
  | some _, [_, inner, _] => do
    let key ← malformed (Expr.parse (joinTokens inner.flatten))
    return draft.addTrailer (.index key)
  | _, _ => .error (.ofTree part)

def add (draft : Draft) (part : TokenTree) : Except CompileError Draft :=
  if part.head? = some "(" then draft.addCall part
  else if part.head? = some "." then draft.addAttribute part
  else if part.head? = some "[" then draft.addIndex part
  else .error (.ofTree part)

def finish (draft : Draft) : Except CompileError StageCall :=
  match draft.invocation with
  | none => .error (.ambiguous draft.name)
  | some invocation => .ok ⟨draft.name, invocation, draft.trailers⟩

end Draft

def stageCall : List TokenTree → Except CompileError StageCall
  | [] => .error (.ambiguous "")
  | first :: parts =>
    match first.leafText? with
    | none => .error (.ofTree first)
    | some name => do (← parts.foldlM Draft.add ⟨name, none, []⟩).finish

def wrap (stage : String) (tree : TokenTree) : TokenTree :=
  .group [.leaf stage, .group [.leaf "(", tree, .leaf ")"]]

/-- A stage name with a call somewhere behind it. -/
def isStageCall (tree : TokenTree) : Bool :=
  match tree.children with
  | [] => false
  | first :: parts =>
    (first.leafText?.map isStageName).getD false && parts.any fun part => part.head? == some "("

def asStageCall (tree : TokenTree) : TokenTree :=
  if tree.head? = some "\x7b" then wrap "map" tree
  else if tree.head? = some "(" then .group [.leaf "filter", tree]
  else if isStageCall tree then tree
  else wrap (impliedStage tree) tree

/-- With one attribute between name and call, the two names are one. -/
def foldMethod : List TokenTree → List TokenTree
  | [object, method, call] =>
    match object.leafText?, attributeName? method with
    | some object, some method => [.leaf (object ++ "." ++ method), call]
    | _, _ => [object, method, call]
  | parts => parts

def stageReference? (tree : TokenTree) : Option String :=
  if tree.depth < 3 then tree.leafText?.filter isStageName else none

def stageOf (tree : TokenTree) : Except CompileError Stage :=
  match stageReference? tree with
  | some name => .ok (.reference name)
  | none =>
    let call := asStageCall tree
    if call.children.length < 2 then .error (.ofTree call)
    else (stageCall (foldMethod call.children)).map .call

def candidates (tree : TokenTree) : Except CompileError (List TokenTree) :=
  match tree with
  | .group (content :: _) =>
    .ok (content.children.filter fun child => child.leafText? != some ",")
  | other => .error (.ofTree other)

end Compiler

/-- Compiles a query. It is read with a comma behind it, so a single stage is a list of stages as
well. -/
def compile (query : String) : Except CompileError Pipeline := do
  let text := query ++ ","
  let node ← Compiler.malformed (locate text (parseQuery text))
  let trees ← Compiler.candidates node.tokenTree
  return ⟨← trees.mapM Compiler.stageOf⟩

end RecordPipeline
