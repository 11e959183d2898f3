import RecordPipeline.Proofs.Compiler.Trailers

/-!
The stages of a query that are written as calls. What the compiler makes of one through token trees
and texts is what its own tree says: the dotted name, the arguments of the call, and the trailers
behind it, lowered where they stand.
-/

namespace RecordPipeline

open RecordPipeline.Compiler RecordPipeline.Grammar RecordPipeline.Parser

def Node.expressions : Node → List Node
  | branch .query (branch .sequence items :: _) => itemsOf items
  | _ => []

theorem TokenTree.eq_leaf {tree : TokenTree} {text : String} (h : tree.leafText? = some text) :
    tree = .leaf text := by
  unfold leafText? at h
  split at h
  · cases h
    rfl
  · cases h

def EndsOff (ts : List Token) : Prop :=
  ∀ t, ts.getLast? = some t → t.kind ≠ .comma

theorem EndsOff.append {ts us : List Token} (front : EndsOff ts) (back : EndsOff us) :
    EndsOff (ts ++ us) := by
  intro t last
  rw [List.getLast?_append] at last
  cases found : us.getLast? with
  | none =>
    rw [found] at last
    exact front t last
  | some u =>
    rw [found] at last
    cases last
    exact back t found

theorem endsOff_singleton {t : Token} (notComma : t.kind ≠ .comma) (ts : List Token) :
    EndsOff (ts ++ [t]) := by
  intro u last
  rw [List.getLast?_concat, Option.some.injEq] at last
  exact last ▸ notComma

def Grammar.Form.endsOff : Form → Bool
  | .one kinds => !kinds.contains .comma
  | .symbol s => !([Symbol.query, .expressions, .arguments, .fields].contains s)
  | .both _ (.one kinds) => !kinds.contains .comma
  | .both f g | .either f g => f.endsOff && g.endsOff
  | .optional f | .many f | .deeper f | .branch _ f | .collapse _ f => f.endsOff

theorem Grammar.Symbol.rule_endsOff (s : Symbol) (off : (Form.symbol s).endsOff = true) :
    s.rule.endsOff = true := by
  cases s with
  | chain tier => cases tier <;> rfl
  | query | expressions | arguments | fields => cases off
  | _ => rfl

theorem Grammar.Parses.endsOff {n : Nat} {f : Form} {nodes : List Node} (h : Parses n f nodes)
    (off : f.endsOff = true) : EndsOff (Node.tokensOf nodes) := by
  have notComma {kinds : List TokenKind} {t : Token} (member : t.kind ∈ kinds)
      (off : (!kinds.contains .comma) = true) : t.kind ≠ .comma := by
    intro comma
    rw [comma] at member
    simp [member] at off
  induction h with
  | @one n kinds t member => simpa using endsOff_singleton (notComma member off) []
  | @symbol n s nodes _ ih => exact ih (s.rule_endsOff off)
  | @both n f g front back first second ihFirst ihSecond =>
    rw [Node.tokensOf_append]
    rw [Form.endsOff.eq_def] at off
    split at off
    case h_3 same =>
      cases same
      obtain ⟨t, member, rfl⟩ := parses_one.1 second
      simpa using endsOff_singleton (notComma member off) (Node.tokensOf front)
    case h_4 same =>
      cases same
      rw [Bool.and_eq_true] at off
      exact (ihFirst off.1).append (ihSecond off.2)
    all_goals simp_all
  | first _ ih =>
    rw [Form.endsOff, Bool.and_eq_true] at off
    exact ih off.1
  | second _ ih =>
    rw [Form.endsOff, Bool.and_eq_true] at off
    exact ih off.2
  | absent | done =>
    intro t last
    simp at last
  | again _ _ ihHead ihTail =>
    rw [Node.tokensOf_append]
    exact (ihHead off).append (ihTail off)
  | present _ ih | deeper _ ih => exact ih off
  | branch _ ih =>
    simp only [Node.tokensOf_cons, Node.tokens_branch, Node.tokensOf_nil, List.append_nil]
    exact ih off
  | collapse _ ih =>
    simp only [Node.tokensOf_cons, Node.tokens_collapse, Node.tokensOf_nil, List.append_nil]
    exact ih off

theorem leafText?_ne_comma {node : Node} (joinable : Joinable node.tokens) (off : OffComma node) :
    node.tokenTree.leafText? ≠ some "," := by
  intro comma
  refine joined_ne_comma joinable off ?_
  rw [Node.joined, ← Node.flatten_tokenTree, TokenTree.eq_leaf comma, TokenTree.flatten_leaf,
    joinTokens_singleton]

theorem malformed_ok {α : Type} (a : α) : malformed (.ok a) = .ok a := rfl

section Query

variable {query : String} {node : Node}

theorem query_items (read : parseQuery (query ++ ",") = .ok node) :
    ∃ first second more last,
      node = .branch .query [.branch .sequence (first :: second :: more), .leaf last] ∧
      Parses maxNesting (Form.commaList (.symbol .expression)) (first :: second :: more) ∧
      Joinable (Node.tokensOf (first :: second :: more)) := by
  obtain ⟨items, last, rfl, hItems, spelled⟩ := query_spelled read
  have joinable : Joinable (Node.tokensOf items) :=
    ⟨spelled.lexemes, (hItems.named (by rfl)).linked⟩
  obtain ⟨comma, ends, isComma⟩ := spelled.comma_last (by simp)
  rcases items with _ | ⟨first, _ | ⟨second, more⟩⟩
  · simp at ends
  · obtain ⟨front, rest, trailing, hFirst, -, -, all⟩ := parses_commaList.1 hItems
    obtain ⟨only, rfl⟩ := expression_single hFirst
    rw [List.singleton_append, List.cons.injEq] at all
    obtain ⟨rfl, -⟩ := all
    exact absurd isComma (hFirst.endsOff (by rfl) comma ends)
  · exact ⟨first, second, more, last, rfl, hItems, joinable⟩

/-- The compiler makes a stage of every expression between the commas of a query. -/
theorem compile_expressions (read : parseQuery (query ++ ",") = .ok node) :
    compile query = (node.expressions.mapM fun e => stageOf e.tokenTree).map Pipeline.mk := by
  obtain ⟨first, second, more, last, rfl, hItems, joinable⟩ := query_items read
  generalize list : first :: second :: more = items at hItems joinable
  have cut : ∀ item ∈ items,
      (item.tokenTree.leafText? != some ",") = (item.kind? != some .comma) := by
    intro item member
    obtain ⟨front, back, same⟩ := List.append_of_mem member
    have part : Joinable item.tokens := by
      rw [same, Node.tokensOf_append, Node.tokensOf_cons] at joinable
      exact joinable.right.left
    rcases commaList_cases expression_single hItems item member with ⟨t, comma, rfl⟩ | parses
    · have text : t.text = "," :=
        text_of_symbol (part.lexemes t (by simp)) (by rw [comma]; rfl)
      simp [Node.tokenTree, Node.kind?, text, comma]
    · have off := expression_offComma parses
      rw [bne_iff_ne.2 (leafText?_ne_comma part off), bne_iff_ne.2 off.kind?_ne]
  have trees : candidates (Node.branch .query [.branch .sequence items, .leaf last]).tokenTree =
      .ok ((itemsOf items).map Node.tokenTree) := by
    rw [Node.tokenTree_of_two, ← list, Node.tokenTree_of_two, list]
    have children : first.tokenTree :: second.tokenTree :: more.map Node.tokenTree =
        items.map Node.tokenTree := by
      rw [← list]
      rfl
    rw [candidates, TokenTree.children, children, List.filter_map, itemsOf]
    exact congrArg (fun list => Except.ok (List.map Node.tokenTree list)) (List.filter_congr cut)
  rw [compile, read, list]
  simp only [locate_ok, malformed_ok, bind, Except.bind, trees, List.mapM_map, Node.expressions]
  change _ = ((itemsOf items).mapM (stageOf ∘ Node.tokenTree)).map Pipeline.mk
  cases (itemsOf items).mapM (stageOf ∘ Node.tokenTree) <;> rfl

end Query

theorem Lexeme.isName {kind : TokenKind} {text : List Char} (h : Lexeme kind text)
    (named : kind = .name) : Compiler.isName (String.ofList text) = true := by
  cases h.classified with
  | string => cases named
  | @word c cs starts all =>
    have keywords : ∀ word ∈ keywordTexts, TokenKind.ofWord word ≠ .name := by decide
    have notKeyword : keywordTexts.contains (String.ofList (c :: cs)) = false := by
      rw [Bool.eq_false_iff]
      exact fun keyword => keywords _ (List.contains_iff_mem.1 keyword) named
    have continues : cs.all Text.continuesName = true :=
      List.all_eq_true.2 fun d member => all d (List.mem_cons_of_mem c member)
    rw [Compiler.isName, String.toList_ofList]
    dsimp only
    rw [starts, continues, notKeyword]
    rfl
  | number isNumber => rcases isNumber with rfl | rfl <;> cases named
  | symbol single =>
    have symbol := TokenKind.symbol?_of_ofSymbol single
    rw [named] at symbol
    cases symbol
  | pair pair =>
    unfold TokenKind.ofPair at pair
    split at pair <;> cases pair <;> cases named

theorem isStageName_of_lexeme {t : Token} (lexeme : Lexeme t.kind t.text.toList)
    (named : t.kind = .name) (notRecord : t.text ≠ "x") : isStageName t.text = true := by
  have name := lexeme.isName named
  rw [String.ofList_toList] at name
  simp [isStageName, name, notRecord]

theorem attributeName?_eq_some {part : TokenTree} {name : String}
    (h : attributeName? part = some name) : part = .group [.leaf ".", .leaf name] := by
  unfold attributeName? at h
  split at h
  · rename_i dot word children
    split at h
    · rename_i isDot
      cases part with
      | token text => cases children
      | group parts =>
        cases children
        rw [TokenTree.eq_leaf isDot, TokenTree.eq_leaf h]
    · cases h
  · cases h

/-- To fold a method into the name changes nothing: the draft would take it up there. -/
theorem stageCall_foldMethod (parts : List TokenTree) :
    stageCall (foldMethod parts) = stageCall parts := by
  unfold foldMethod
  split
  · rename_i object method call
    split
    · rename_i name word isObject isMethod
      rw [TokenTree.eq_leaf isObject, attributeName?_eq_some isMethod]
      simp only [stageCall, TokenTree.leafText?_leaf, List.foldlM_cons, Draft.add_attribute]
      rfl
    · rfl
  · rfl

theorem stageOf_group {name : String} {parts : List TokenTree} (named : isStageName name = true)
    (called : ∃ part ∈ parts, part.head? = some "(") :
    stageOf (.group (.leaf name :: parts)) = (stageCall (.leaf name :: parts)).map .call := by
  obtain ⟨part, member, opens⟩ := called
  obtain ⟨second, more, rfl⟩ := List.exists_cons_of_ne_nil (List.ne_nil_of_mem member)
  have noReference : stageReference? (.group (.leaf name :: second :: more)) = none := by
    rw [stageReference?]
    split <;> rfl
  have head : (TokenTree.group (.leaf name :: second :: more)).head? = some name := rfl
  have noBrace : name ≠ "\x7b" := by
    rintro rfl
    exact absurd named (by decide)
  have noParen : name ≠ "(" := by
    rintro rfl
    exact absurd named (by decide)
  have call : isStageCall (.group (.leaf name :: second :: more)) = true := by
    have any : (second :: more).any (fun part => part.head? == some "(") = true :=
      List.any_eq_true.2 ⟨part, member, by simp [opens]⟩
    simp only [isStageCall, TokenTree.children, TokenTree.leafText?_leaf, Option.map_some, named,
      Option.getD_some, any, Bool.and_self]
  have same : asStageCall (.group (.leaf name :: second :: more)) =
      .group (.leaf name :: second :: more) := by
    rw [asStageCall, head, if_neg (by simpa using noBrace), if_neg (by simpa using noParen),
      if_pos call]
  rw [stageOf, noReference]
  simp only [same, TokenTree.children, List.length_cons, stageCall_foldMethod]
  rw [if_neg (by omega)]

/-- An access that is written as a stage call: a name that is not the record's, names behind dots,
the call, and whatever is behind it. -/
structure WrittenCall where
  first : Token
  dotted : List (Token × Token)
  opening : Token
  parts : List Node
  later : List Node
  named : first.kind = .name
  notRecord : first.text ≠ "x"
  dots : ∀ part ∈ dotted, part.1.kind = .dot
  opens : opening.kind = .openParen

namespace WrittenCall

variable (w : WrittenCall)

def attributes : List Node :=
  w.dotted.map fun (dot, name) => .branch .trailer [.leaf dot, .leaf name]

def call : Node :=
  .branch .trailer (.leaf w.opening :: w.parts)

def node : Node :=
  .branch .access (.leaf w.first :: (w.attributes ++ w.call :: w.later))

def name : String :=
  String.intercalate "." (w.first.text :: w.dotted.map fun part => part.2.text)

def lower : Except Fault StageCall := do
  let (args, named) ← Node.lowerCall w.parts
  let trailers ← w.later.mapM Node.lowerTrailer
  return ⟨w.name, ⟨.tuple args, named⟩, trailers⟩

theorem trailers_of_parses {n : Nat} (h : Parses n (.symbol .expression) [w.node])
    (joinable : Joinable w.node.tokens) :
    ∃ m, m ≤ n ∧ ∀ trailer ∈ w.attributes ++ w.call :: w.later,
      Parses m (.symbol .trailer) [trailer] ∧ Joinable trailer.tokens := by
  have onlyAccess : ∀ rule first second more, rule ≠ .access →
      w.node ≠ .branch rule (first :: second :: more) := by
    intro rule first second more notAccess same
    rw [node, Node.branch.injEq] at same
    exact notAccess same.1.symm
  obtain ⟨m, rfl, access⟩ := access_of_expression h onlyAccess
  refine ⟨m, by omega, fun trailer member => ⟨?_, ?_⟩⟩
  · obtain ⟨front, trailers, hAtom, hTrailers, same⟩ := parses_access.1 access
    obtain ⟨atom, rfl⟩ := parses_single (by simp) hAtom
    rw [node, List.singleton_append, List.cons.injEq, Node.branch.injEq, List.cons.injEq] at same
    rw [same.1.2.2] at member
    exact hTrailers.mem_many (parses_single (by simp)) trailer member
  · obtain ⟨front, back, same⟩ := List.append_of_mem member
    rw [node, same, Node.tokens_branch, Node.tokensOf_cons, Node.tokensOf_append,
      Node.tokensOf_cons] at joinable
    exact joinable.right.right.left

theorem foldlM_attributes (name : String) (dotted : List (Token × Token)) :
    (dotted.map fun part => TokenTree.group [.leaf ".", .leaf part.2.text]).foldlM Draft.add
      ⟨name, none, []⟩ =
        .ok ⟨String.intercalate "." (name :: dotted.map fun part => part.2.text), none, []⟩ := by
  induction dotted generalizing name with
  | nil => simp [pure, Except.pure]
  | cons part later ih =>
    rw [List.map_cons, List.foldlM_cons, Draft.add_attribute]
    change List.foldlM Draft.add ⟨name ++ "." ++ part.2.text, none, []⟩ _ = _
    rw [ih, List.map_cons, String.intercalate_cons_cons, String.intercalate_cons_append]

theorem stageCall_dotted (name : String) (dotted : List (Token × Token))
    (parts : List TokenTree) :
    stageCall (.leaf name ::
      ((dotted.map fun part => .group [.leaf ".", .leaf part.2.text]) ++ parts)) =
        parts.foldlM Draft.add
          ⟨String.intercalate "." (name :: dotted.map fun part => part.2.text), none, []⟩ >>=
            Draft.finish := by
  rw [stageCall, TokenTree.leafText?_leaf]
  dsimp only
  rw [List.foldlM_append, foldlM_attributes]
  rfl

theorem tokenTree_attributes (joinable : ∀ trailer ∈ w.attributes, Joinable trailer.tokens) :
    w.attributes.map Node.tokenTree =
      w.dotted.map fun part => .group [.leaf ".", .leaf part.2.text] := by
  rw [attributes, List.map_map]
  refine List.map_congr_left fun part member => ?_
  exact tokenTree_attribute (w.dots part member)
    (joinable _ (List.mem_map_of_mem member))

theorem call_parses {n : Nat} (h : Parses n (.symbol .trailer) [w.call]) :
    Parses n (Form.enclosed .trailer .openParen .closeParen (.symbol .arguments)) [w.call] := by
  rcases parses_trailer.1 h with call | ⟨opening, index, closing, opens, -, -, same⟩ |
    ⟨dot, name, kind, -, same⟩
  · exact call
  · simp only [call, List.cons.injEq, Node.branch.injEq, Node.leaf.injEq] at same
    have both := w.opens
    rw [same.1.2.1, opens] at both
    cases both
  · simp only [call, List.cons.injEq, Node.branch.injEq, Node.leaf.injEq] at same
    have both := w.opens
    rw [same.1.2.1, kind] at both
    cases both

theorem stageOf_node (h : Parses maxNesting (.symbol .expression) [w.node])
    (joinable : Joinable w.node.tokens) :
    (stageOf w.node.tokenTree).toOption = w.lower.toOption.map .call := by
  obtain ⟨m, le, all⟩ := w.trailers_of_parses h joinable
  obtain ⟨hCall, joinableCall⟩ := all w.call (by simp)
  have isCall := w.call_parses hCall
  have attributes : w.attributes.map Node.tokenTree =
      w.dotted.map fun part => .group [.leaf ".", .leaf part.2.text] :=
    w.tokenTree_attributes fun trailer member => (all trailer (by simp [member])).2
  have tree : w.node.tokenTree = .group (.leaf w.first.text ::
      ((w.dotted.map fun part => .group [.leaf ".", .leaf part.2.text]) ++
        w.call.tokenTree :: w.later.map Node.tokenTree)) := by
    rw [node, Node.tokenTree_of_more _ _ (by simp), Node.tokenTree, List.map_append, List.map_cons,
      attributes]
  have named : isStageName w.first.text = true :=
    isStageName_of_lexeme (joinable.lexemes w.first (by simp [node])) w.named w.notRecord
  have laterAll : ∀ trailer ∈ w.later,
      Parses m (.symbol .trailer) [trailer] ∧ Joinable trailer.tokens :=
    fun trailer member => all trailer (by simp [member])
  obtain ⟨opening, parts, same, -, first⟩ := add_first_call le isCall joinableCall w.name
  simp only [call, Node.branch.injEq, List.cons.injEq, true_and] at same
  rw [← same.2] at first
  rw [tree, stageOf_group named ⟨w.call.tokenTree, by simp, head?_call isCall joinableCall⟩,
    toOption_map, stageCall_dotted, ← name, List.foldlM_cons, bind_assoc, toOption_bind, first,
    lower, toOption_bind]
  cases (Node.lowerCall w.parts).toOption with
  | none => rfl
  | some call =>
    have rest := foldlM_add_trailers le laterAll
      ⟨w.name, some ⟨.tuple call.1, call.2⟩, []⟩ (by simp)
    rw [Option.map_some, Option.bind_some, Option.bind_some, toOption_bind, toOption_bind, rest]
    cases (w.later.mapM Node.lowerTrailer).toOption <;> rfl

end WrittenCall

/-- Rebuilding the arguments of stages as text loses nothing: every expression of a query that is
written as a stage call becomes that stage call, and fails only where lowering it fails. -/
theorem compile_stageCalls (query : String) (node : Node)
    (read : parseQuery (query ++ ",") = .ok node) :
    compile query = (node.expressions.mapM fun e => stageOf e.tokenTree).map Pipeline.mk ∧
      ∀ w : WrittenCall, w.node ∈ node.expressions →
        (stageOf w.node.tokenTree).toOption = w.lower.toOption.map .call := by
  refine ⟨compile_expressions read, fun w member => ?_⟩
  obtain ⟨first, second, more, last, rfl, hItems, joinable⟩ := query_items read
  obtain ⟨parses, inside⟩ := itemsOf_commaList expression_single hItems joinable w.node member
  exact w.stageOf_node parses inside

theorem compile_stageCalls_keys :
    ∃ node, ∃ w : WrittenCall, parseQuery ("keys(x)" ++ ",") = .ok node ∧
      w.node ∈ node.expressions ∧
      compile "keys(x)" = (node.expressions.mapM fun e => stageOf e.tokenTree).map Pipeline.mk ∧
      (stageOf w.node.tokenTree).toOption = w.lower.toOption.map .call ∧
      w.lower = .ok ⟨"keys", ⟨.tuple [.record], []⟩, []⟩ := by
  let x : Node := .branch .access [.leaf ⟨.name, "x", 5⟩]
  let w : WrittenCall :=
    { first := ⟨.name, "keys", 0⟩
      dotted := []
      opening := ⟨.openParen, "(", 4⟩
      parts := [.branch .arguments [x], .leaf ⟨.closeParen, ")", 6⟩]
      later := []
      named := rfl
      notRecord := by decide
      dots := by simp
      opens := rfl }
  let node : Node :=
    .branch .query [.branch .sequence [w.node, .leaf ⟨.comma, ",", 7⟩], .leaf ⟨.endOfInput, "", 8⟩]
  have argument : Parses 63 (.symbol .argument) [x] :=
    parses_argument.2 (.inl (parses_expression_of_name rfl))
  have list : Parses 63 (.symbol .arguments) [.branch .arguments [x]] :=
    parses_arguments.2 ⟨_, parses_commaList.2 ⟨_, [], [], argument, .done, .inl rfl, rfl⟩, rfl⟩
  have call : Parses 63 (.symbol .trailer) [w.call] :=
    parses_trailer.2 (.inl (parses_enclosed.2 ⟨_, _, _, rfl, rfl, .inr list, rfl⟩))
  have atom : Parses 63 (.symbol .atom) [.leaf w.first] :=
    parses_atom.2 (.inl ⟨_, by decide, rfl⟩)
  have access : Parses 63 (.symbol .access) [w.node] :=
    parses_access.2 ⟨_, _, atom, .again call .done, rfl⟩
  have item : Parses maxNesting (.symbol .expression) [w.node] :=
    parses_expression.2 ⟨_, rfl, parses_disjunction_of_access access⟩
  have items : Parses maxNesting (.symbol .query) [node] :=
    parses_query.2 ⟨_, _, parses_commaList.2 ⟨_, [], _, item, .done, .inr ⟨_, rfl, rfl⟩, rfl⟩, rfl,
      rfl⟩
  have read : parseQuery ("keys(x)" ++ ",") = .ok node := parseQuery_complete (by rfl) items
  obtain ⟨stages, calls⟩ := compile_stageCalls _ _ read
  exact ⟨node, w, read, List.mem_cons_self .., stages, calls w (List.mem_cons_self ..), by rfl⟩

end RecordPipeline
