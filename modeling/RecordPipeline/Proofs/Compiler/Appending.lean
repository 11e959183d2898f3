import Mathlib
import RecordPipeline.Proofs.Compiler.StageCalls

/-!
Two queries written one behind the other with a comma between them. The comma that a query is read
with ends its last token, whatever comes next, and its list of expressions goes on behind it, so the
stages of both are compiled as if each were alone.
-/

namespace RecordPipeline

open RecordPipeline.Compiler RecordPipeline.Grammar RecordPipeline.Parser

theorem TokenKind.endsBefore_append_of_comma {kind : TokenKind} {cs : List Char}
    (last : cs.getLast? = some ',') (ends : kind.endsBefore cs = true) (back : List Char) :
    kind.endsBefore (cs ++ back) = true := by
  rcases cs with _ | ⟨c, _ | ⟨d, cs⟩⟩
  · cases last
  · obtain rfl : c = ',' := by simpa using last
    cases kind with
    | endOfInput => cases ends
    | _ => rfl
  · cases kind with
    | endOfInput => cases ends
    | _ => exact ends

theorem Spells.append_of_comma {front back : List Char} {ts us : List Token}
    (first : Spells front ts) (last : front.getLast? = some ',') (second : Spells back us) :
    Spells (front ++ back) (ts ++ us) := by
  induction first with
  | done => cases last
  | @blank c cs ts isBlank later ih =>
    cases cs with
    | nil =>
      cases last
      exact absurd isBlank (by decide)
    | cons d cs => exact .blank isBlank (ih (List.getLast?_cons_cons ▸ last))
  | @token t cs ts lexeme ends later ih =>
    rw [List.append_assoc]
    cases cs with
    | nil =>
      obtain rfl := later.eq_nil
      rw [List.append_nil] at last
      have comma : t.kind = .comma := lexeme.comma_of_last last
      exact .token lexeme (by rw [comma]; rfl) second
    | cons d cs =>
      have last : (d :: cs).getLast? = some ',' := by simpa [List.getLast?_append] using last
      exact .token lexeme (TokenKind.endsBefore_append_of_comma last ends back) (ih last)

namespace Grammar

theorem Parses.endsOff_of_items {n : Nat} {front more : List Node}
    (first : Parses n (.symbol .expression) front)
    (later : Parses n (.many (.both (.one [.comma]) (.symbol .expression))) more) :
    EndsOff (Node.tokensOf (front ++ more)) := by
  have ends {nodes : List Node} (h : Parses n (.symbol .expression) nodes) :
      EndsOff (Node.tokensOf nodes) := h.endsOff (by rfl)
  rw [Node.tokensOf_append]
  refine (ends first).append ?_
  refine later.many_induction (motive := fun more => EndsOff (Node.tokensOf more)) ?_ ?_
  · intro t last
    simp at last
  · intro head tail hHead _ ih
    obtain ⟨commas, nodes, hComma, hNodes, rfl⟩ := parses_both.1 hHead
    obtain ⟨comma, -, rfl⟩ := parses_one.1 hComma
    obtain ⟨node, rfl⟩ := expression_single hNodes
    obtain ⟨t, ts, tokens, -⟩ := expression_starts hNodes
    have off : EndsOff (comma :: t :: ts) := by
      intro u last
      rw [List.getLast?_cons_cons] at last
      exact ends hNodes u (by simpa [tokens] using last)
    rw [Node.tokensOf_append]
    exact EndsOff.append (by simpa [tokens] using off) ih

theorem Parses.commaList_append {n : Nat} {items others : List Node} {comma : Token}
    (first : Parses n (Form.commaList (.symbol .expression)) items)
    (last : (Node.tokensOf items).getLast? = some comma) (isComma : comma.kind = .comma)
    (second : Parses n (Form.commaList (.symbol .expression)) others) :
    Parses n (Form.commaList (.symbol .expression)) (items ++ others) := by
  obtain ⟨front, more, trailing, hFront, hMore, hTrailing, rfl⟩ := parses_commaList.1 first
  obtain ⟨front', more', trailing', hFront', hMore', hTrailing', rfl⟩ := parses_commaList.1 second
  rcases hTrailing with rfl | ⟨t, kind, rfl⟩
  · rw [List.append_nil] at last
    exact absurd isComma (hFront.endsOff_of_items hMore comma last)
  · have between : Parses n (.both (.one [.comma]) (.symbol .expression)) (.leaf t :: front') :=
      .both (.one (by simp [kind])) hFront'
    refine parses_commaList.2 ⟨front, more ++ (.leaf t :: front' ++ more'), trailing', hFront,
      hMore.many_append (.again between hMore'), hTrailing', by simp⟩

end Grammar

namespace Node

mutual

theorem tokenTree_plain : ∀ node : Node, node.plain.tokenTree = node.tokenTree
  | leaf t => by simp [tokenTree]
  | branch _ [] => by simp [tokenTree]
  | branch _ [only] => by simpa [tokenTree] using tokenTree_plain only
  | branch _ (first :: second :: later) => by
    have all := tokenTrees_plain (first :: second :: later)
    simpa [tokenTree] using all

theorem tokenTrees_plain : ∀ nodes : List Node, tokenTrees (plainAll nodes) = tokenTrees nodes
  | [] => by simp
  | child :: later => by simp [tokenTrees, tokenTree_plain child, tokenTrees_plain later]

end

end Node

theorem itemsOf_append (front back : List Node) :
    itemsOf (front ++ back) = itemsOf front ++ itemsOf back :=
  List.filter_append front back

theorem itemsOf_plainAll (nodes : List Node) :
    itemsOf (Node.plainAll nodes) = Node.plainAll (itemsOf nodes) := by
  induction nodes with
  | nil => rfl
  | cons node later ih =>
    rw [Node.plainAll_cons, itemsOf, itemsOf, List.filter_cons, List.filter_cons, Node.kind?_plain]
    split
    · rw [Node.plainAll_cons]
      exact congrArg _ ih
    · exact ih

theorem stages_of_plain {items others : List Node}
    (alike : Node.plainAll others = Node.plainAll items) :
    (itemsOf others).mapM (fun e => stageOf e.tokenTree) =
      (itemsOf items).mapM fun e => stageOf e.tokenTree := by
  have trees (nodes : List Node) :
      Node.tokenTrees (itemsOf (Node.plainAll nodes)) = Node.tokenTrees (itemsOf nodes) := by
    rw [itemsOf_plainAll, Node.tokenTrees_plain]
  have same := trees others
  rw [alike, trees items, Node.tokenTrees_eq_map, Node.tokenTrees_eq_map] at same
  have stages (nodes : List Node) :
      nodes.mapM (fun e => stageOf e.tokenTree) = (nodes.map Node.tokenTree).mapM stageOf := by
    rw [List.mapM_map]
    rfl
  rw [stages, stages, same]

/-- A query is compiled if it spells a list of expressions each of which makes a stage. -/
theorem compile_of_spells {query : String} {items : List Node}
    (parses : Parses maxNesting (Form.commaList (.symbol .expression)) items)
    (spelled : Spells (query ++ ",").toList (Node.tokensOf items)) :
    compile query = ((itemsOf items).mapM fun e => stageOf e.tokenTree).map Pipeline.mk := by
  obtain ⟨others, last, hOthers, alike, tokens, kind⟩ := retoken_of_spells parses spelled
  have read : parseQuery (query ++ ",") =
      .ok (.branch .query [.branch .sequence others, .leaf last]) :=
    parseQuery_complete (by simpa using tokens) (parses_query.2 ⟨others, last, hOthers, kind, rfl⟩)
  rw [compile_expressions read, Node.expressions, stages_of_plain alike]

theorem compile_ok {query : String} {p : Pipeline} (h : compile query = .ok p) :
    ∃ items, Parses maxNesting (Form.commaList (.symbol .expression)) items ∧
      Spells (query ++ ",").toList (Node.tokensOf items) ∧
      (itemsOf items).mapM (fun e => stageOf e.tokenTree) = .ok p.stages := by
  obtain ⟨node, read⟩ : ∃ node, parseQuery (query ++ ",") = .ok node := by
    cases read : parseQuery (query ++ ",") with
    | error fault =>
      rw [compile, read] at h
      cases h
    | ok node => exact ⟨node, rfl⟩
  obtain ⟨items, last, rfl, parses, spelled⟩ := query_spelled read
  refine ⟨items, parses, spelled, ?_⟩
  rw [compile_expressions read, Node.expressions] at h
  cases stages : (itemsOf items).mapM fun e => stageOf e.tokenTree with
  | error e =>
    rw [stages] at h
    cases h
  | ok stages' =>
    rw [stages] at h
    cases h
    rfl

/-- The stages of two queries with a comma between them are the stages of the first and those of the
second. -/
theorem compile_append (first second : String) {p q : Pipeline} (hp : compile first = .ok p)
    (hq : compile second = .ok q) :
    compile (first ++ "," ++ second) = .ok ⟨p.stages ++ q.stages⟩ := by
  obtain ⟨items, parses, spelled, stages⟩ := compile_ok hp
  obtain ⟨others, parses', spelled', stages'⟩ := compile_ok hq
  have ends : (first ++ ",").toList.getLast? = some ',' := by simp
  obtain ⟨comma, last, isComma⟩ := spelled.comma_last ends
  have all : Spells (first ++ "," ++ second ++ ",").toList (Node.tokensOf (items ++ others)) := by
    have := spelled.append_of_comma ends spelled'
    simpa using this
  rw [compile_of_spells (parses.commaList_append last isComma parses') all, itemsOf_append,
    List.mapM_append, stages, stages']
  rfl

set_option maxRecDepth 2000 in
theorem compile_append_numbers :
    compile "x > 1" =
      .ok ⟨[.call ⟨"filter", ⟨.tuple [.binary .greater .record (.integer 1)], []⟩, []⟩]⟩ ∧
    compile "2, unique" =
      .ok ⟨[.call ⟨"map", ⟨.tuple [.integer 2], []⟩, []⟩, .reference "unique"]⟩ ∧
    compile ("x > 1" ++ "," ++ "2, unique") =
      .ok ⟨[.call ⟨"filter", ⟨.tuple [.binary .greater .record (.integer 1)], []⟩, []⟩] ++
        [.call ⟨"map", ⟨.tuple [.integer 2], []⟩, []⟩, .reference "unique"]⟩ := by
  have first : compile "x > 1" =
      .ok ⟨[.call ⟨"filter", ⟨.tuple [.binary .greater .record (.integer 1)], []⟩, []⟩]⟩ := by
    cbv
  have second : compile "2, unique" =
      .ok ⟨[.call ⟨"map", ⟨.tuple [.integer 2], []⟩, []⟩, .reference "unique"]⟩ := by
    cbv
  exact ⟨first, second, compile_append "x > 1" "2, unique" first second⟩

end RecordPipeline
