import RecordPipeline.Proofs.Compiler.Appending
import RecordPipeline.Proofs.Compiler.Inference

/-!
Short-hand stages. A query of one expression without a stage is compiled as the call that it stands
for would be: an object literal as `map` of it, parentheses as the arguments of `filter`, and
anything else as `filter` or `map` of it. The call may be nested one level deeper than its argument,
so it has to be read on its own.
-/

namespace RecordPipeline

open RecordPipeline.Compiler RecordPipeline.Grammar RecordPipeline.Parser

section Single

variable {text : String} {node : Node}

theorem expression_of_read {last : Node}
    (read : parseQuery text = .ok (.branch .query [.branch .sequence [node], last])) :
    Parses maxNesting (.symbol .expression) [node] ∧ Spells text.toList node.tokens := by
  obtain ⟨items, ending, same, hItems, spelled⟩ := query_spelled read
  cases same
  obtain ⟨first, more, trailing, hFirst, -, -, all⟩ := parses_commaList.1 hItems
  obtain ⟨only, rfl⟩ := expression_single hFirst
  rw [List.singleton_append, List.cons.injEq] at all
  exact ⟨all.1 ▸ hFirst, by simpa using spelled⟩

theorem compile_single (h : Parses maxNesting (.symbol .expression) [node])
    (spelled : Spells text.toList node.tokens) :
    compile text = (stageOf node.tokenTree).map fun stage => ⟨[stage]⟩ := by
  have list : Parses maxNesting (Form.commaList (.symbol .expression)) [node, .leaf commaToken] :=
    parses_commaList.2 ⟨[node], [], [.leaf commaToken], h, .done, .inr ⟨_, rfl, rfl⟩, rfl⟩
  have ended : Spells (text ++ ",").toList (Node.tokensOf [node, .leaf commaToken]) := by
    simpa using spelled.append_comma .done
  have items : itemsOf [node, .leaf commaToken] = [node] := by
    rw [itemsOf_cons_off (expression_offComma h), itemsOf_cons_comma rfl]
    rfl
  rw [compile_of_spells list ended, items, List.mapM_cons, List.mapM_nil]
  cases stageOf node.tokenTree <;> rfl

/-- Text that can be read as a query spells no expression with more levels than a query may have. -/
theorem compile_single_of_read {n : Nat} {tree : Node}
    (h : Parses n (.symbol .expression) [node]) (spelled : Spells text.toList node.tokens)
    (read : parseQuery text = .ok tree) :
    compile text = (stageOf node.tokenTree).map fun stage => ⟨[stage]⟩ := by
  obtain ⟨others, last, parses, alike, tokens, kind⟩ :=
    retoken_of_spells h (by simpa using spelled)
  obtain ⟨other, rfl⟩ := expression_single parses
  have tokenized := tokenize_of_parseQuery read
  have deep : Parses n (.symbol .query) [.branch .query [.branch .sequence [other], .leaf last]] :=
    parses_query.2
      ⟨_, last, parses_commaList.2 ⟨_, [], [], parses, .done, .inl rfl, rfl⟩, kind, rfl⟩
  -- The tokens decide on the tree, and the parser has found it within the levels of a query.
  obtain rfl : tree = .branch .query [.branch .sequence [other], .leaf last] := by
    refine (parseQuery_sound tokenized read).1.query_unique deep ?_
    rw [tokenized, Except.ok.injEq] at tokens
    simpa using tokens
  obtain ⟨within, spelledOther⟩ := expression_of_read read
  have same : other.tokenTree = node.tokenTree := by
    simp only [Node.plainAll_cons, Node.plainAll_nil, List.cons.injEq, and_true] at alike
    rw [← Node.tokenTree_plain other, alike, Node.tokenTree_plain]
  rw [compile_single within spelledOther, same]

end Single

/-- The stages that an expression can stand for. -/
def inferredStages : List String :=
  ["map", "filter"]

theorem lexeme_of_inferred {name : String} (inferred : name ∈ inferredStages) :
    Lexeme .name name.toList ∧ isStageName name = true := by
  simp only [inferredStages, List.mem_cons, List.not_mem_nil, or_false] at inferred
  rcases inferred with rfl | rfl
  · exact ⟨⟨rfl, 'm', ['a', 'p'], rfl, rfl⟩, by decide⟩
  · exact ⟨⟨rfl, 'f', ['i', 'l', 't', 'e', 'r'], rfl, rfl⟩, by decide⟩

theorem impliedStage_inferred (node : Node) : node.impliedStage ∈ inferredStages := by
  rw [Node.impliedStage]
  split <;> decide

def callText (name arguments : String) : String :=
  name ++ "(" ++ arguments ++ ")"

def callNode (name : String) (trailer : Node) : Node :=
  .branch .access [.leaf ⟨.name, name, 0⟩, trailer]

section Calls

variable {n : Nat} {e name : String} {node : Node}

theorem parses_callNode {trailer : Node} (h : Parses n
    (Form.enclosed .trailer .openParen .closeParen (.symbol .arguments)) [trailer]) :
    Parses (n + 1) (.symbol .expression) [callNode name trailer] := by
  have atom : Parses n (.symbol .atom) [.leaf ⟨.name, name, 0⟩] :=
    parses_atom.2 (.inl ⟨_, by simp [Symbol.simpleAtoms], rfl⟩)
  have trailers : Parses n (.many (.symbol .trailer)) [trailer] :=
    .again (parses_trailer.2 (.inl h)) .done
  exact parses_expression.2 ⟨n, rfl,
    parses_disjunction_of_access (parses_access.2 ⟨_, _, atom, trailers, rfl⟩)⟩

theorem stageOf_callNode {trailer : Node} (inferred : name ∈ inferredStages)
    (head : trailer.tokenTree.head? = some "(")
    (noReference : stageReference? node.tokenTree = none)
    (call : asStageCall node.tokenTree = .group [.leaf name, trailer.tokenTree]) :
    stageOf node.tokenTree = stageOf (callNode name trailer).tokenTree := by
  have tree : (callNode name trailer).tokenTree = .group [.leaf name, trailer.tokenTree] := by
    rw [callNode, Node.tokenTree_of_two, Node.tokenTree]
    rfl
  rw [stageOf_asStageCall noReference call, tree,
    stageOf_group (lexeme_of_inferred inferred).2 ⟨_, by simp, head⟩]

theorem spells_callNode (inferred : name ∈ inferredStages) (spelled : Spells e.toList node.tokens) :
    Spells (callText name e).toList (callNode name node.argumentTrailer).tokens := by
  have closed := Close.closeParen.spells_behind spelled .done
  have opened := Close.openParen.spells closed
  have named := Spells.token (t := ⟨.name, name, 0⟩) (lexeme_of_inferred inferred).1 rfl opened
  simpa [callText, callNode, Node.argumentTrailer] using named

theorem compile_wrapped {last tree : Node}
    (read : parseQuery e = .ok (.branch .query [.branch .sequence [node], last]))
    (inferred : name ∈ inferredStages) (noReference : stageReference? node.tokenTree = none)
    (call : asStageCall node.tokenTree = wrap name node.tokenTree)
    (wrapped : parseQuery (callText name e) = .ok tree) :
    compile e = compile (callText name e) := by
  obtain ⟨parses, spelled⟩ := expression_of_read read
  have head : node.argumentTrailer.tokenTree.head? = some "(" := by
    rw [tokenTree_argumentTrailer]
    rfl
  rw [wrap_eq] at call
  rw [compile_single parses spelled, stageOf_callNode inferred head noReference call,
    compile_single_of_read (parses_callNode (parses_argumentTrailer parses))
      (spells_callNode inferred spelled) wrapped]

end Calls

theorem Grammar.Parses.many_imp {n : Nat} {f g : Form} {nodes : List Node}
    (each : ∀ {nodes}, Parses n f nodes → Parses n g nodes) (h : Parses n (.many f) nodes) :
    Parses n (.many g) nodes :=
  h.many_induction (motive := Parses n (.many g)) .done fun _ _ first _ ih => .again (each first) ih

theorem arguments_of_items {n : Nat} {items : List Node}
    (h : Parses n (Form.commaList (.symbol .expression)) items) :
    Parses n (.symbol .arguments) [.branch .arguments items] := by
  obtain ⟨first, more, trailing, hFirst, hMore, ends, rfl⟩ := parses_commaList.1 h
  refine parses_arguments.2 ⟨_, parses_commaList.2
    ⟨first, more, trailing, parses_argument.2 (.inl hFirst), ?_, ends, rfl⟩, rfl⟩
  refine hMore.many_imp fun part => ?_
  obtain ⟨comma, item, hComma, hItem, rfl⟩ := parses_both.1 part
  exact .both hComma (parses_argument.2 (.inl hItem))

theorem tokenTree_arguments (items : List Node) :
    (Node.branch .arguments items).tokenTree = (Node.collapse .sequence items).tokenTree := by
  rcases items with _ | ⟨only, _ | ⟨second, later⟩⟩
  · rw [Node.collapse, Node.tokenTree, Node.tokenTree]
    all_goals simp
  · rw [Node.collapse, Node.tokenTree]
  · rw [Node.collapse, Node.tokenTree_of_two, Node.tokenTree_of_two]
    simp

theorem trailer_of_parens {n : Nat} {atom : Node}
    (h : Parses n (Form.enclosed .parens .openParen .closeParen Form.content) [atom]) :
    ∃ trailer,
      Parses n (Form.enclosed .trailer .openParen .closeParen (.symbol .arguments)) [trailer] ∧
      trailer.tokens = atom.tokens ∧ trailer.tokenTree = atom.tokenTree := by
  obtain ⟨opening, content, closing, opens, closes, hContent, same⟩ := parses_enclosed.1 h
  cases same
  rcases hContent with rfl | hContent
  · refine ⟨.branch .trailer [.leaf opening, .leaf closing],
      parses_enclosed.2 ⟨opening, [], closing, opens, closes, .inl rfl, rfl⟩, by simp, ?_⟩
    rw [List.nil_append, Node.tokenTree_of_two, Node.tokenTree_of_two]
  · obtain ⟨items, hItems, rfl⟩ := parses_content.1 hContent
    refine ⟨.branch .trailer [.leaf opening, .branch .arguments items, .leaf closing],
      parses_enclosed.2 ⟨opening, _, closing, opens, closes, .inr (arguments_of_items hItems), rfl⟩,
      by simp, ?_⟩
    rw [List.singleton_append, Node.tokenTree_of_two, Node.tokenTree_of_two, tokenTree_arguments]

theorem parens_of_expression {n : Nat} {node : Node} (h : Parses n (.symbol .expression) [node])
    (parens : node.isAtom .parens = true) :
    ∃ m atom, n = m + 1 ∧ node = .branch .access [atom] ∧
      Parses m (Form.enclosed .parens .openParen .closeParen Form.content) [atom] := by
  obtain ⟨children, rfl⟩ : ∃ children, node = .branch .access [.branch .parens children] := by
    unfold Node.isAtom at parens
    split at parens
    · exact ⟨_, by rw [beq_iff_eq.1 parens]⟩
    · cases parens
  obtain ⟨m, rfl, access⟩ := access_of_expression h (by simp)
  obtain ⟨front, trailers, hAtom, -, same⟩ := parses_access.1 access
  obtain ⟨atom, rfl⟩ := parses_single (by simp) hAtom
  simp only [List.singleton_append, List.cons.injEq, Node.branch.injEq, and_true] at same
  obtain ⟨-, rfl, rfl⟩ := same
  refine ⟨m, _, rfl, rfl, ?_⟩
  rcases parses_atom.1 hAtom with ⟨t, -, same⟩ | ⟨dot, name, -, -, same⟩ | h | h | h
  · cases same
  · cases same
  · exact h
  all_goals
    obtain ⟨_, _, _, -, -, -, same⟩ := parses_enclosed.1 h
    cases same

theorem Spells.nameEnds {cs : List Char} {t : Token} {ts : List Token} (h : Spells cs (t :: ts))
    (opens : t.kind = .openParen) : TokenKind.nameEnds cs = true := by
  cases h with
  | @blank c cs _ isBlank =>
    have stops := Text.not_continuesName_of_isBlank isBlank
    simp [TokenKind.nameEnds, stops]
  | token lexeme =>
    rw [lexeme.text_of_symbol (c := '(') (by rw [opens]; rfl)]
    rfl

theorem compile_parens {e : String} {node last : Node}
    (read : parseQuery e = .ok (.branch .query [.branch .sequence [node], last]))
    (parens : node.isAtom .parens = true) : compile e = compile ("filter" ++ e) := by
  obtain ⟨parses, spelled⟩ := expression_of_read read
  -- The call is no deeper than the parentheses are, so it needs not be read on its own.
  obtain ⟨m, atom, levels, rfl, enclosed⟩ := parens_of_expression parses parens
  obtain ⟨trailer, hTrailer, tokens, tree⟩ := trailer_of_parens enclosed
  have inferred : "filter" ∈ inferredStages := by decide
  have same : (Node.branch .access [atom]).tokenTree = trailer.tokenTree := by
    rw [Node.tokenTree, tree]
  have head : trailer.tokenTree.head? = some "(" := by
    have head := head?_expression .parens .openParen rfl parses spelled.lexemes
    rwa [parens, beq_iff_eq, same] at head
  have noReference := stageReference?_expression parses spelled.lexemes
    (namesStage_of_isAtom parses parens)
  have call : asStageCall (Node.branch .access [atom]).tokenTree =
      .group [.leaf "filter", trailer.tokenTree] := by
    rw [asStageCall_expression parses spelled.lexemes, Node.isAtom_of_ne parens (by decide),
      if_neg (by decide), if_pos parens, same]
  have stages := stageOf_callNode inferred head noReference call
  have reads : Parses maxNesting (.symbol .expression) [callNode "filter" trailer] :=
    levels ▸ parses_callNode hTrailer
  have spells : Spells ("filter" ++ e).toList (callNode "filter" trailer).tokens := by
    obtain ⟨t, later, first, opens⟩ :
        ∃ t later, atom.tokens = t :: later ∧ t.kind = .openParen := by
      obtain ⟨opening, content, closing, opens, -, -, same⟩ := parses_enclosed.1 enclosed
      cases same
      exact ⟨opening, _, by simp; rfl, opens⟩
    have behind : Spells e.toList (t :: later) := by simpa [first] using spelled
    have named := Spells.token (t := ⟨.name, "filter", 0⟩) (lexeme_of_inferred inferred).1
      (behind.nameEnds opens) behind
    simpa [callNode, tokens, first] using named
  rw [compile_single parses spelled, stages, compile_single reads spells]

/-- An expression for which only its operators decide on a stage: no short hand of its own, no
stage, and no operation on a name, which could look like a stage. -/
structure Node.Stageless (node : Node) : Prop where
  noBraces : node.isAtom .braces = false
  noParens : node.isAtom .parens = false
  noName : node.namesStage = false
  noCall : node.callsStage = false
  noOperand : ∀ first, node.firstOperand? = some first → first.namesStage = false

/-- What stands for a stage is compiled as the call of that stage: an object literal maps,
parentheses filter, and a stageless expression does what its operators imply. -/
theorem compile_shorthands (e : String) (node last : Node)
    (read : parseQuery e = .ok (.branch .query [.branch .sequence [node], last])) :
    (node.isAtom .braces = true → ∀ tree, parseQuery (callText "map" e) = .ok tree →
      compile e = compile (callText "map" e)) ∧
    (node.isAtom .parens = true → compile e = compile ("filter" ++ e) ∧
      ∀ inner, e = "(" ++ inner ++ ")" → compile e = compile (callText "filter" inner)) ∧
    (node.Stageless → ∀ tree, parseQuery (callText node.impliedStage e) = .ok tree →
      compile e = compile (callText node.impliedStage e)) := by
  obtain ⟨parses, spelled⟩ := expression_of_read read
  have call := asStageCall_expression parses spelled.lexemes
  refine ⟨fun braces tree wrapped => ?_, fun parens => ?_, fun stageless tree wrapped => ?_⟩
  · rw [if_pos braces] at call
    have noReference := stageReference?_expression parses spelled.lexemes
      (namesStage_of_isAtom parses braces)
    exact compile_wrapped read (by decide) noReference call wrapped
  · refine ⟨compile_parens read parens, ?_⟩
    rintro inner rfl
    have text : "filter" ++ ("(" ++ inner ++ ")") = callText "filter" inner := by
      rw [callText, ← String.append_assoc, ← String.append_assoc]
    rw [compile_parens read parens, text]
  · have clear : node.mistakable = false := by
      cases operand : node.firstOperand? with
      | none => simp [Node.mistakable, operand]
      | some first => simp [Node.mistakable, operand, stageless.noOperand first operand]
    rw [stageless.noBraces, stageless.noParens, stageless.noCall, clear] at call
    have noReference := stageReference?_expression parses spelled.lexemes stageless.noName
    exact compile_wrapped read (impliedStage_inferred node) noReference call wrapped

theorem exists_of_isOk {ε α : Type} {x : Except ε α} (h : x.isOk = true) : ∃ a, x = .ok a := by
  cases x with
  | error e => cases h
  | ok a => exact ⟨a, rfl⟩

set_option maxRecDepth 2000 in
theorem compile_shorthands_texts :
    compile "\x7bk: x\x7d" = compile (callText "map" "\x7bk: x\x7d") ∧
      compile "(x, 1)" = compile (callText "filter" "x, 1") ∧
      compile "x.a > 1" = compile (callText "filter" "x.a > 1") := by
  let name (text : String) (offset : Nat) : Node := .branch .access [.leaf ⟨.name, text, offset⟩]
  let one (offset : Nat) : Node := .branch .access [.leaf ⟨.integer, "1", offset⟩]
  let object : Node := .branch .access [.branch .braces [.leaf ⟨.openBrace, "\x7b", 0⟩,
    .branch .fields [name "k" 1, .leaf ⟨.colon, ":", 2⟩, name "x" 4],
    .leaf ⟨.closeBrace, "\x7d", 5⟩]]
  let parens : Node := .branch .access [.branch .parens [.leaf ⟨.openParen, "(", 0⟩,
    .branch .sequence [name "x" 1, .leaf ⟨.comma, ",", 2⟩, one 4], .leaf ⟨.closeParen, ")", 5⟩]]
  let member : Node := .branch .access [.leaf ⟨.name, "x", 0⟩,
    .branch .trailer [.leaf ⟨.dot, ".", 1⟩, .leaf ⟨.name, "a", 2⟩]]
  let condition : Node := .branch .comparison [member, .leaf ⟨.greater, ">", 4⟩, one 6]
  have readObject : parseQuery "\x7bk: x\x7d" = .ok (.branch .query [.branch .sequence [object],
    .leaf ⟨.endOfInput, "", 6⟩]) := by cbv
  have readParens : parseQuery "(x, 1)" = .ok (.branch .query [.branch .sequence [parens],
    .leaf ⟨.endOfInput, "", 6⟩]) := by cbv
  have readCondition : parseQuery "x.a > 1" = .ok (.branch .query [.branch .sequence [condition],
    .leaf ⟨.endOfInput, "", 7⟩]) := by cbv
  obtain ⟨mapped, wrapObject⟩ : ∃ tree, parseQuery (callText "map" "\x7bk: x\x7d") = .ok tree :=
    exists_of_isOk (by cbv)
  obtain ⟨filtered, wrapCondition⟩ : ∃ tree, parseQuery (callText "filter" "x.a > 1") = .ok tree :=
    exists_of_isOk (by cbv)
  have stageless : condition.Stageless := by
    refine ⟨rfl, rfl, rfl, rfl, fun first operand => ?_⟩
    cases operand
    rfl
  exact ⟨(compile_shorthands _ _ _ readObject).1 rfl mapped wrapObject,
    ((compile_shorthands _ _ _ readParens).2.1 rfl).2 "x, 1" rfl,
    (compile_shorthands _ _ _ readCondition).2.2 stageless filtered wrapCondition⟩

set_option maxRecDepth 2000 in
/-- White space in front of parentheses does not keep them from filtering. -/
theorem compile_blank_parens :
    ∃ node last, parseQuery " (x)" = .ok (.branch .query [.branch .sequence [node], last]) ∧
      (∀ inner, " (x)" ≠ "(" ++ inner ++ ")") ∧ node.isAtom .braces = false ∧
      node.namesStage = false ∧ node.callsStage = false ∧ node.firstOperand? = none ∧
      node.impliedStage = "map" ∧ (∃ tree, parseQuery (callText "map" " (x)") = .ok tree) ∧
      compile " (x)" ≠ compile (callText "map" " (x)") := by
  have read : parseQuery " (x)" = .ok (.branch .query [.branch .sequence [.branch .access
      [.branch .parens [.leaf ⟨.openParen, "(", 1⟩, .branch .access [.leaf ⟨.name, "x", 2⟩],
        .leaf ⟨.closeParen, ")", 3⟩]]], .leaf ⟨.endOfInput, "", 4⟩]) := by cbv
  have filters : compile " (x)" = .ok ⟨[.call ⟨"filter", ⟨.tuple [.record], []⟩, []⟩]⟩ := by cbv
  have maps : compile (callText "map" " (x)") =
      .ok ⟨[.call ⟨"map", ⟨.tuple [.record], []⟩, []⟩]⟩ := by cbv
  refine ⟨_, _, read, fun inner same => ?_, rfl, rfl, rfl, rfl, rfl, exists_of_isOk (by cbv), ?_⟩
  · have first := congrArg String.toList same
    simp at first
  · rw [filters, maps]
    simp

end RecordPipeline
