import RecordPipeline.Proofs.Compiler.Parameters

/-!
The trailers of an access, one at a time. Each is lowered on its own, and the draft of a stage call
that takes up its token tree comes to the same: the first call gives the invocation, and what is
behind it is kept as it was written.
-/

namespace RecordPipeline

open RecordPipeline.Compiler RecordPipeline.Grammar RecordPipeline.Parser

namespace Node

theorem tokenTree_of_two (rule : Rule) (first second : Node) (more : List Node) :
    (branch rule (first :: second :: more)).tokenTree =
      .group (first.tokenTree :: second.tokenTree :: more.map tokenTree) := by
  simp [tokenTree, tokenTrees_eq_map]

theorem tokenTree_of_more (rule : Rule) (first : Node) {more : List Node} (some : more ≠ []) :
    (branch rule (first :: more)).tokenTree = .group (first.tokenTree :: more.map tokenTree) := by
  obtain ⟨second, later, rfl⟩ := List.exists_cons_of_ne_nil some
  exact tokenTree_of_two rule first second later

end Node

theorem text_of_symbol {t : Token} {c : Char} (lexeme : Lexeme t.kind t.text.toList)
    (symbol : t.kind.symbol? = some c) : t.text = String.ofList [c] := by
  rw [← lexeme.text_of_symbol symbol, String.ofList_toList]

theorem toOption_map {ε α β : Type} (x : Except ε α) (f : α → β) :
    (x.map f).toOption = x.toOption.map f := by
  cases x <;> rfl

section Trailers

variable {n : Nat} {node : Node}

theorem parametersOf_call (le : n ≤ maxNesting)
    (h : Parses n (Form.enclosed .trailer .openParen .closeParen (.symbol .arguments)) [node])
    (joinable : Joinable node.tokens) :
    ∃ opening parts, node = .branch .trailer (.leaf opening :: parts) ∧ opening.kind = .openParen ∧
      parametersOf node.tokenTree ≠ [] ∧
      (parseParameters (parametersOf node.tokenTree)).toOption.map
        Argument.split = (Node.lowerCall parts).toOption ∧
      (Expr.parseArguments (String.intercalate ","
        (parametersOf node.tokenTree))).toOption.map Argument.split =
          (Node.lowerCall parts).toOption := by
  obtain ⟨opening, content, closing, opens, -, hContent, same⟩ := parses_enclosed.1 h
  cases same
  refine ⟨opening, content ++ [.leaf closing], rfl, opens, ?_⟩
  rcases hContent with rfl | hContent
  · have blank : parametersOf
        (Node.branch .trailer [.leaf opening, .leaf closing]).tokenTree = [""] := by
      rw [Node.tokenTree_of_two]
      rfl
    rw [List.nil_append, blank]
    have empty : Spells "".toList [] := .done
    refine ⟨by simp, rfl, ?_⟩
    rw [String.intercalate_singleton, parseArguments_of_blank empty]
    rfl
  · obtain ⟨list, hList, rfl⟩ := parses_arguments.1 hContent
    have hList := hList.mono le
    have inner : Joinable (Node.tokensOf list) := by
      refine Joinable.inside [opening] [closing] ?_
      simpa using joinable
    have parameters : parametersOf (Node.branch .trailer
        [.leaf opening, .branch .arguments list, .leaf closing]).tokenTree =
          (Node.branch .arguments list).tokenTree.parameterTexts := by
      rw [Node.tokenTree_of_two]
      rfl
    rw [List.singleton_append, parameters, parseParameters_arguments hList inner,
      parseArguments_arguments hList inner]
    have lowered : (Node.lowerCall [.branch .arguments list, .leaf closing]).toOption =
        (Node.lowerArguments list).toOption.map Argument.split := toOption_map _ _
    exact ⟨parameterTexts_ne_nil hList inner, lowered.symm, lowered.symm⟩

theorem head?_call
    (h : Parses n (Form.enclosed .trailer .openParen .closeParen (.symbol .arguments)) [node])
    (joinable : Joinable node.tokens) : node.tokenTree.head? = some "(" := by
  obtain ⟨opening, content, closing, opens, -, -, same⟩ := parses_enclosed.1 h
  cases same
  have text : opening.text = "(" :=
    text_of_symbol (joinable.lexemes opening (by simp)) (by rw [opens]; rfl)
  cases content with
  | nil =>
    rw [List.nil_append, Node.tokenTree_of_two, Node.tokenTree, text]
    rfl
  | cons first more =>
    rw [List.cons_append, Node.tokenTree_of_two, Node.tokenTree, text]
    rfl

theorem tokenTree_attribute {dot name : Token} (kind : dot.kind = .dot)
    (joinable : Joinable (Node.branch .trailer [.leaf dot, .leaf name]).tokens) :
    (Node.branch .trailer [.leaf dot, .leaf name]).tokenTree =
      .group [.leaf ".", .leaf name.text] := by
  have text : dot.text = "." :=
    text_of_symbol (joinable.lexemes dot (by simp)) (by rw [kind]; rfl)
  rw [Node.tokenTree_of_two, Node.tokenTree, text, Node.tokenTree]
  rfl

theorem Compiler.Draft.add_attribute (draft : Draft) (name : String) :
    draft.add (.group [.leaf ".", .leaf name]) =
      match draft.invocation with
      | none => .ok { draft with name := draft.name ++ "." ++ name }
      | some _ => .ok (draft.addTrailer (.attr name)) := by
  have opened : (TokenTree.group [.leaf ".", .leaf name]).head? = some "." := rfl
  rw [Draft.add, opened, if_neg (by decide), if_pos rfl]
  rfl

theorem add_first_call (le : n ≤ maxNesting)
    (h : Parses n (Form.enclosed .trailer .openParen .closeParen (.symbol .arguments)) [node])
    (joinable : Joinable node.tokens) (name : String) :
    ∃ opening parts, node = .branch .trailer (.leaf opening :: parts) ∧ opening.kind = .openParen ∧
      (Draft.add ⟨name, none, []⟩ node.tokenTree).toOption =
        (Node.lowerCall parts).toOption.map fun (args, named) =>
          ⟨name, some ⟨.tuple args, named⟩, []⟩ := by
  obtain ⟨opening, parts, same, opens, filled, texts, -⟩ := parametersOf_call le h joinable
  refine ⟨opening, parts, same, opens, ?_⟩
  rw [Draft.add, if_pos (head?_call h joinable), Draft.addCall, ← texts]
  have given : (parametersOf node.tokenTree).isEmpty = false := by
    simpa using filled
  simp only [invocationOf, given, Bool.false_eq_true, if_false]
  cases parseParameters (parametersOf node.tokenTree) <;> rfl

theorem add_trailer (le : n ≤ maxNesting) (h : Parses n (.symbol .trailer) [node])
    (joinable : Joinable node.tokens) (draft : Draft) (called : draft.invocation ≠ none) :
    (draft.add node.tokenTree).toOption =
      (Node.lowerTrailer node).toOption.map draft.addTrailer := by
  obtain ⟨invocation, called⟩ := Option.ne_none_iff_exists'.1 called
  rcases parses_trailer.1 h with call | ⟨opening, index, closing, opens, -, hIndex, same⟩ |
    ⟨dot, name, kind, word, same⟩
  · obtain ⟨opening, parts, rfl, opens, -, -, texts⟩ := parametersOf_call le call joinable
    have lowered : (Node.lowerTrailer (.branch .trailer (.leaf opening :: parts))).toOption =
        (Node.lowerCall parts).toOption.map fun (args, named) => .call args named := by
      rw [Node.lowerTrailer, opens, Node.lowerOpened, toOption_map]
    rw [lowered, Draft.add, if_pos (head?_call call joinable), Draft.addCall, called, ← texts]
    dsimp only
    cases Expr.parseArguments (String.intercalate "," _) <;> rfl
  · cases same
    have text : opening.text = "[" :=
      text_of_symbol (joinable.lexemes opening (by simp)) (by rw [opens]; rfl)
    have inner : Joinable index.tokens := by
      refine Joinable.inside [opening] [closing] ?_
      simpa using joinable
    have lowered : (Node.lowerTrailer (.branch .trailer
        [.leaf opening, index, .leaf closing])).toOption = index.lower.toOption.map .index := by
      rw [Node.lowerTrailer, opens, Node.lowerOpened, toOption_map]
    have read := parse_of_spells (hIndex.mono le) (Node.spells_joined inner)
    rw [lowered, ← read, Node.tokenTree_of_two]
    have opened : (TokenTree.group [(Node.leaf opening).tokenTree, index.tokenTree,
        (Node.leaf closing).tokenTree]).head? = some "[" := by
      rw [Node.tokenTree, text]
      rfl
    have add : draft.add (.group [(Node.leaf opening).tokenTree, index.tokenTree,
        (Node.leaf closing).tokenTree]) =
          (malformed (Expr.parse index.joined)).map fun key => draft.addTrailer (.index key) := by
      rw [Draft.add, opened, if_neg (by decide), if_neg (by decide), if_pos rfl, Draft.addIndex,
        called, Node.joined, ← Node.flatten_tokenTree]
      rfl
    rw [List.map_singleton, add]
    cases Expr.parse index.joined <;> rfl
  · cases same
    have lowered : Node.lowerTrailer (.branch .trailer [.leaf dot, .leaf name]) =
        .ok (.attr name.text) := by
      rw [Node.lowerTrailer, kind, Node.lowerOpened]
    rw [lowered, tokenTree_attribute kind joinable, Draft.add_attribute, called]
    rfl

end Trailers

theorem foldlM_add_trailers {n : Nat} (le : n ≤ maxNesting) {trailers : List Node}
    (all : ∀ node ∈ trailers, Parses n (.symbol .trailer) [node] ∧ Joinable node.tokens)
    (draft : Draft) (called : draft.invocation ≠ none) :
    ((trailers.map Node.tokenTree).foldlM Draft.add draft).toOption =
      (trailers.mapM Node.lowerTrailer).toOption.map fun written =>
        { draft with trailers := draft.trailers ++ written } := by
  induction trailers generalizing draft with
  | nil => simp [pure, Except.pure, Except.toOption]
  | cons node later ih =>
    obtain ⟨parses, joinable⟩ := all node (by simp)
    have first := add_trailer le parses joinable draft called
    rw [List.map_cons, List.foldlM_cons, List.mapM_cons, toOption_bind, toOption_bind, first]
    cases (Node.lowerTrailer node).toOption with
    | none => rfl
    | some trailer =>
      have rest := ih (fun n member => all n (List.mem_cons_of_mem node member))
        (draft.addTrailer trailer) called
      rw [Option.map_some, Option.bind_some, Option.bind_some, rest, toOption_bind]
      cases (later.mapM Node.lowerTrailer).toOption with
      | none => rfl
      | some written => simp [Draft.addTrailer, pure, Except.pure, Except.toOption]

end RecordPipeline
