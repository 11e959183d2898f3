import RecordPipeline.Proofs.Compiler.StageCalls
import RecordPipeline.Proofs.Lexing.Words
import RecordPipeline.Proofs.Printing.Trees

/-!
How the compiler tells expressions from stages. Token trees have no kinds, but the spelling of a
token decides its kind: so a tree looks like a stage, like an object literal, like parentheses or
like a comparison only where the expression that it is cut from has the tokens for it, apart from
an operation on a name with parentheses behind it, which looks like a call of that name.
-/

namespace RecordPipeline

open RecordPipeline.Compiler RecordPipeline.Grammar RecordPipeline.Parser

theorem TokenKind.ofWord_of_not_keyword {word : String} (h : word ∉ keywordTexts) :
    ofWord word = .name := by
  have listed : ∀ pair ∈ keywords, pair.1 ∈ keywordTexts := by decide
  have none : keywords.lookup word = none := by
    rw [List.lookup_eq_none_iff]
    intro pair member
    rw [bne_iff_ne]
    rintro rfl
    exact h (listed pair member)
  rw [ofWord, none, Option.getD_none]

namespace Lexeme

variable {kind : TokenKind} {text : List Char}

theorem contains_relationalTexts (h : Lexeme kind text) :
    relationalTexts.contains (String.ofList text) = kind.isRelational := by
  rw [Bool.eq_iff_iff, List.contains_iff_mem]
  constructor
  · intro member
    have spelled {word : String} (same : String.ofList text = word) : text = word.toList := by
      rw [← same, String.toList_ofList]
    simp only [relationalTexts, List.mem_cons, List.not_mem_nil, or_false] at member
    rcases member with same | same | same | same | same | same
    all_goals
      rw [spelled same] at h
      rw [h.kind_unique rfl]
      rfl
  · intro relational
    cases h.classified with
    | string => cases relational
    | @word c cs =>
      have words : ∀ kind ∈ Symbol.words, kind.isRelational = false := by decide
      rw [words _ (ofWord_mem (String.ofList (c :: cs)))] at relational
      cases relational
    | number isNumber => rcases isNumber with rfl | rfl <;> cases relational
    | @symbol _ c single =>
      unfold TokenKind.ofSymbol at single
      split at single <;> cases single <;> first | decide | cases relational
    | @pair _ c pair =>
      unfold TokenKind.ofPair at pair
      split at pair <;> cases pair <;> decide

theorem eq_name_of_isName (h : Lexeme kind text)
    (named : Compiler.isName (String.ofList text) = true) : kind = .name := by
  rw [Compiler.isName] at named
  split at named
  · cases named
  · rename_i c cs spelled
    rw [Bool.and_eq_true, Bool.not_eq_true'] at named
    obtain ⟨word, notKeyword⟩ := named
    have isWord : Text.isWord (String.ofList text) = true := by
      rw [Text.isWord, spelled]
      exact word
    have lexeme := lexeme_of_isWord isWord
    rw [TokenKind.ofWord_of_not_keyword (by simpa using notKeyword), String.toList_ofList] at lexeme
    exact h.kind_unique lexeme.scans

end Lexeme

theorem isStageName_eq {t : Token} (lexeme : Lexeme t.kind t.text.toList) :
    isStageName t.text = (t.kind == .name && t.text != "x") := by
  rw [Bool.eq_iff_iff, Bool.and_eq_true, beq_iff_eq, bne_iff_ne]
  constructor
  · intro named
    rw [isStageName, Bool.and_eq_true, bne_iff_ne] at named
    exact ⟨lexeme.eq_name_of_isName (by rw [String.ofList_toList]; exact named.1), named.2⟩
  · rintro ⟨named, notRecord⟩
    exact isStageName_of_lexeme lexeme named notRecord

namespace Grammar

/-- How an atom of several tokens begins. -/
def opening? : Rule → Option TokenKind
  | .implicitField => some .dot
  | .parens => some .openParen
  | .list => some .openBracket
  | .braces => some .openBrace
  | _ => none

theorem opening?_injective {rule other : Rule} {kind : TokenKind}
    (first : opening? rule = some kind) (second : opening? other = some kind) : rule = other := by
  cases rule <;> cases first <;> cases other <;> first | rfl | cases second

def operators : List TokenKind :=
  [.orWord, .andWord, .notWord, .inWord, .equal, .notEqual, .less, .greater, .lessEqual,
    .greaterEqual, .plus, .minus, .star, .slash, .percent]

theorem ne_name_of_operator {kind : TokenKind} (operator : kind ∈ operators) : kind ≠ .name := by
  rintro rfl
  revert operator
  decide

def IsOperator (node : Node) : Prop :=
  StartsAmong operators node ∧ ∀ children, node ≠ .branch .access children

/-- The shape of an expression, as far as it shows in its token tree: an access of one token, of one
atom with several, or with trailers; an operator in front of its operand; or operators between
operands. -/
inductive Shape (n : Nat) : Node → Prop where
  | token {t : Token} (simple : t.kind ∈ Symbol.simpleAtoms) : Shape n (.branch .access [.leaf t])
  | atom {rule : Rule} {t : Token} {second : Node} {more : List Node}
      (opens : opening? rule = some t.kind) :
      Shape n (.branch .access [.branch rule (.leaf t :: second :: more)])
  | trailed {atom trailer : Node} {later : List Node} (parses : Parses n (.symbol .atom) [atom])
      (trailers : ∀ part ∈ trailer :: later, Parses n (.symbol .trailer) [part]) :
      Shape n (.branch .access (atom :: trailer :: later))
  | before {rule : Rule} {t : Token} {operand : Node} (operation : rule ≠ .access)
      (operator : t.kind ∈ operators) : Shape n (.branch rule [.leaf t, operand])
  | between {rule : Rule} {first symbol : Node} {more : List Node} (operation : rule ≠ .access)
      (operand : Parses n (.symbol .expression) [first]) (operator : IsOperator symbol)
      (parts : ∀ part ∈ more, IsOperator part ∨ Parses n (.symbol .expression) [part]) :
      Shape n (.branch rule (first :: symbol :: more))

theorem isOperator_of_parses {n : Nat} {tier : Tier} {nodes : List Node}
    (h : Parses n tier.operator nodes) : ∃ symbol, nodes = [symbol] ∧ IsOperator symbol := by
  rcases operator_cases h with ⟨t, member, rfl⟩ | ⟨-, t, u, isNot, -, rfl⟩
  · have known : tier.kinds ⊆ operators := by cases tier <;> decide
    exact ⟨_, rfl, ⟨t, [], by simp, known member⟩, by simp⟩
  · exact ⟨_, rfl, ⟨t, _, by simp; rfl, by rw [isNot]; decide⟩, by simp⟩

theorem shape_of_enclosed {n : Nat} {rule : Rule} {opening closing : TokenKind} {f : Form}
    {atom : Node} (h : Parses n (Form.enclosed rule opening closing f) [atom])
    (opens : opening? rule = some opening) : Shape n (.branch .access [atom]) := by
  obtain ⟨first, content, last, kind, -, -, same⟩ := parses_enclosed.1 h
  cases same
  rw [← kind] at opens
  cases content with
  | nil => exact .atom opens
  | cons inside more => exact .atom opens

theorem shape_of_access {n : Nat} {node : Node} (h : Parses n (.symbol .access) [node]) :
    Shape n node := by
  obtain ⟨front, trailers, hAtom, hTrailers, same⟩ := parses_access.1 h
  obtain ⟨atom, rfl⟩ := parses_single (by simp) hAtom
  cases same
  have all := hTrailers.mem_many (parses_single (by simp))
  cases trailers with
  | cons trailer later => exact .trailed hAtom all
  | nil =>
    rcases parses_atom.1 hAtom with ⟨t, simple, same⟩ | ⟨dot, name, kind, -, same⟩ | h | h | h
    · cases same
      exact .token simple
    · cases same
      exact .atom (by rw [kind]; rfl)
    · exact shape_of_enclosed h rfl
    · exact shape_of_enclosed h rfl
    · exact shape_of_enclosed h rfl

theorem expression_of_operand {n : Nat} {tier : Tier} {node : Node}
    (h : Parses n (.symbol tier.operand) [node]) : Parses (n + 1) (.symbol .expression) [node] := by
  rw [← Symbol.ofTightness_operand] at h
  exact parses_expression.2 ⟨n, rfl, h.loosen (Nat.zero_le _)⟩

theorem shape_of_chain {n : Nat} (tier : Tier) {node : Node}
    (h : Parses n (.symbol (.chain tier)) [node])
    (alone : Parses n (.symbol tier.operand) [node] → Shape (n + 1) node) : Shape (n + 1) node := by
  obtain ⟨first, more, hFirst, hMore, same⟩ := parses_chain.1 h
  cases same
  have parts : ∀ part ∈ more, IsOperator part ∨ Parses (n + 1) (.symbol .expression) [part] := by
    refine hMore.many_all fun {nodes} hPart part member => ?_
    obtain ⟨_, rights, hOperator, hRight, rfl⟩ := parses_both.1 hPart
    obtain ⟨symbol, rfl, operator⟩ := isOperator_of_parses hOperator
    obtain ⟨right, rfl⟩ := parses_single tier.operand_ne_expressions hRight
    rcases List.mem_cons.1 member with rfl | member
    · exact .inl operator
    · exact .inr (List.mem_singleton.1 member ▸ expression_of_operand hRight)
  have operator : more = [] ∨ ∃ symbol later, more = symbol :: later ∧ IsOperator symbol := by
    refine hMore.many_induction (motive := fun more => more = [] ∨ ∃ symbol later,
      more = symbol :: later ∧ IsOperator symbol) (.inl rfl) ?_
    intro front back hFront _ _
    obtain ⟨_, rights, hOperator, -, rfl⟩ := parses_both.1 hFront
    obtain ⟨symbol, rfl, operator⟩ := isOperator_of_parses hOperator
    exact .inr ⟨symbol, rights ++ back, rfl, operator⟩
  rcases operator with rfl | ⟨symbol, later, rfl, operator⟩
  · exact alone hFirst
  · exact .between (by cases tier <;> decide) (expression_of_operand hFirst) operator
      fun part member => parts part (List.mem_cons_of_mem symbol member)

theorem shape_of_expression {n : Nat} {node : Node} (h : Parses n (.symbol .expression) [node]) :
    Shape n node := by
  obtain ⟨m, rfl, inner⟩ := parses_expression.1 h
  -- From the loosest operators on, what has none of a tier is an operand of it.
  refine shape_of_chain .disjunction inner fun h => shape_of_chain .conjunction h fun h => ?_
  rcases parses_negation.1 h with ⟨t, operand, kind, hOperand, same⟩ | h
  · obtain ⟨operand, rfl⟩ := parses_deeper_single (by simp) hOperand
    cases same
    exact .before (by decide) (by rw [kind]; decide)
  refine shape_of_chain .comparison h fun h => shape_of_chain .sum h fun h =>
    shape_of_chain .product h fun h => ?_
  rcases parses_signed.1 h with ⟨t, operand, member, hOperand, same⟩ | h
  · obtain ⟨operand, rfl⟩ := parses_deeper_single (by simp) hOperand
    cases same
    have signs : [TokenKind.minus, .plus] ⊆ operators := by decide
    exact .before (by decide) (signs member)
  · exact shape_of_access (h.mono (Nat.le_succ m))

end Grammar

theorem Close.text_iff {kind : TokenKind} {c : Char} (close : Close kind c) {t : Token}
    (lexeme : Lexeme t.kind t.text.toList) : t.text = String.ofList [c] ↔ t.kind = kind := by
  constructor
  · intro same
    rw [same, String.toList_ofList] at lexeme
    exact lexeme.kind_unique close.lexeme.scans
  · intro same
    refine text_of_symbol lexeme ?_
    rw [same]
    cases close <;> rfl

theorem TokenTree.flatten_of_head? {tree : TokenTree} {text : String} (h : tree.head? = some text) :
    ∃ later, tree.flatten = text :: later := by
  unfold head? at h
  split at h <;> cases h <;> simp [flatten, flattenAll]

namespace Node

theorem first_of_head? {node : Node} {text : String} (h : node.tokenTree.head? = some text) :
    ∃ t later, node.tokens = t :: later ∧ t.text = text := by
  obtain ⟨later, flat⟩ := TokenTree.flatten_of_head? h
  rw [flatten_tokenTree, texts, List.map_eq_cons_iff] at flat
  obtain ⟨t, tokens, same, text, -⟩ := flat
  exact ⟨t, tokens, same, text⟩

theorem tokenTree_ne_token (node : Node) (text : String) : node.tokenTree ≠ .token text := by
  rcases node.tokenTree_parts with ⟨t, -, same⟩ | ⟨-, same⟩ <;> rw [same] <;> simp [TokenTree.leaf]

theorem leafText?_of_two (rule : Rule) (first second : Node) (more : List Node) :
    (branch rule (first :: second :: more)).tokenTree.leafText? = none := by
  rw [tokenTree_of_two]
  cases first.tokenTree <;> rfl

theorem head?_of_two (rule : Rule) (first second : Node) (more : List Node) :
    (branch rule (first :: second :: more)).tokenTree.head? = first.tokenTree.leafText? := by
  rw [tokenTree_of_two]
  rcases first.tokenTree_parts with ⟨t, -, same⟩ | ⟨many, same⟩
  · rw [same]
    rfl
  rw [same, tokenTrees_eq_map]
  -- Only leaves hold tokens, so what stands first in a group of several parts is a group itself.
  match parts : first.parts with
  | [] => rfl
  | [only] => exact absurd (by rw [parts]; rfl) many
  | part :: next :: later =>
    cases tree : part.tokenTree with
    | token text => exact absurd tree (part.tokenTree_ne_token text)
    | group children =>
      rw [List.map_cons, tree]
      rfl

def namesStage (node : Node) : Bool :=
  node.bareName?.any (· != "x")

theorem namesStage_leaf (t : Token) :
    (leaf t).namesStage = (t.kind == .name && t.text != "x") := by
  rw [namesStage, bareName?]
  by_cases named : t.kind = .name <;> simp [named]

theorem namesStage_of_two (rule : Rule) (first second : Node) (more : List Node) :
    (branch rule (first :: second :: more)).namesStage = false := by
  simp [namesStage, bareName?]

def isAtom (rule : Rule) : Node → Bool
  | branch .access [branch inner _] => inner == rule
  | _ => false

theorem isAtom_of_ne {node : Node} {rule other : Rule} (atom : node.isAtom rule = true)
    (different : rule ≠ other) : node.isAtom other = false := by
  unfold isAtom at *
  split at atom
  · rw [beq_iff_eq] at atom
    rw [atom]
    exact beq_false_of_ne different
  · cases atom

def isCall : Node → Bool
  | branch _ (leaf t :: _) => t.kind == .openParen
  | _ => false

def callsStage : Node → Bool
  | branch rule (first :: trailers) =>
    rule == .access && first.namesStage && trailers.any isCall
  | _ => false

def isOperation : Node → Bool
  | branch rule _ => rule != .access
  | leaf _ => false

def firstOperand? : Node → Option Node
  | branch rule (first :: _) => if rule = .access then none else some first
  | _ => none

/-- Operations that look like calls: a name is the first operand, and parentheses are another. -/
def mistakable (node : Node) : Bool :=
  node.firstOperand?.any namesStage && node.children.tail.any (isAtom .parens)

def impliedStage (node : Node) : String :=
  if node.tokens.any (·.kind.isRelational) then "filter" else "map"

end Node

section Expressions

variable {n : Nat} {node : Node}

theorem leafText?_expression (h : Parses n (.symbol .expression) [node]) {text : String}
    (leaf : node.tokenTree.leafText? = some text) :
    ∃ t, node = .branch .access [.leaf t] ∧ t.kind ∈ Symbol.simpleAtoms ∧ t.text = text := by
  cases shape_of_expression h with
  | @token t simple =>
    simp only [Node.tokenTree, TokenTree.leafText?_leaf, Option.some.injEq] at leaf
    exact ⟨t, rfl, simple, leaf⟩
  | atom =>
    rw [Node.tokenTree, Node.leafText?_of_two] at leaf
    cases leaf
  | trailed | before | between =>
    rw [Node.leafText?_of_two] at leaf
    cases leaf

theorem isStageName_leaf {t : Token} (lexeme : Lexeme t.kind t.text.toList) :
    isStageName t.text = (Node.leaf t).namesStage := by
  rw [isStageName_eq lexeme, Node.namesStage_leaf]

theorem isStageName_expression (h : Parses n (.symbol .expression) [node])
    (spelled : node.Spelled) :
    (node.tokenTree.leafText?.map isStageName).getD false = node.namesStage := by
  cases shape_of_expression h with
  | @token t simple =>
    have lexeme : Lexeme t.kind t.text.toList := spelled t (by simp)
    simp only [Node.tokenTree, TokenTree.leafText?_leaf, Option.map_some, Option.getD_some,
      isStageName_leaf lexeme, Node.namesStage, Node.bareName?]
  | atom =>
    rw [Node.tokenTree, Node.leafText?_of_two, Node.namesStage, Node.bareName?]
    exact (Node.namesStage_of_two ..).symm
  | trailed | before | between =>
    rw [Node.leafText?_of_two, Node.namesStage_of_two]
    rfl

theorem namesStage_of_isAtom (h : Parses n (.symbol .expression) [node]) {rule : Rule}
    (atom : node.isAtom rule = true) : node.namesStage = false := by
  cases shape_of_expression h with
  | token => cases atom
  | atom =>
    rw [Node.namesStage, Node.bareName?]
    exact Node.namesStage_of_two ..
  | trailed | before | between => exact Node.namesStage_of_two ..

theorem expression_of_atom (h : Parses n (.symbol .atom) [node]) :
    Parses (n + 1) (.symbol .expression) [.branch .access [node]] :=
  parses_expression.2
    ⟨n, rfl, parses_disjunction_of_access (parses_access.2 ⟨_, [], h, .done, rfl⟩)⟩

theorem head?_expression (rule : Rule) {kind : TokenKind} {c : Char} (close : Close kind c)
    (opens : opening? rule = some kind) (h : Parses n (.symbol .expression) [node])
    (spelled : node.Spelled) :
    (node.tokenTree.head? == some (String.ofList [c])) = node.isAtom rule := by
  have other : kind ∉ Symbol.simpleAtoms ∧ kind ∉ operators := by
    cases rule <;> cases opens <;> decide
  have leading {t : Token} (inside : t ∈ node.tokens) (text : t.text = String.ofList [c]) :
      t.kind ∉ Symbol.simpleAtoms ∧ t.kind ∉ operators :=
    (close.text_iff (spelled t inside)).1 text ▸ other
  rw [Bool.eq_iff_iff, beq_iff_eq]
  cases shape_of_expression h with
  | @token t simple =>
    have head : (Node.branch .access [.leaf t]).tokenTree.head? = some t.text := by
      simp [Node.tokenTree]
    rw [head, Option.some.injEq]
    exact ⟨fun text => absurd simple (leading (by simp) text).1, fun atom => by cases atom⟩
  | @atom rule' t second more opens' =>
    have head : (Node.branch .access [.branch rule' (.leaf t :: second :: more)]).tokenTree.head? =
        some t.text := by
      rw [Node.tokenTree, Node.head?_of_two, Node.tokenTree, TokenTree.leafText?_leaf]
    rw [head, Option.some.injEq, close.text_iff (spelled t (by simp)), Node.isAtom, beq_iff_eq]
    constructor
    · rintro rfl
      exact opening?_injective opens' opens
    · rintro rfl
      exact Option.some.inj (opens'.symm.trans opens)
  | @trailed atom trailer later parses =>
    rw [Node.head?_of_two]
    refine ⟨fun leaf => ?_, fun atom => by simp [Node.isAtom] at atom⟩
    obtain ⟨t, same, simple, text⟩ := leafText?_expression (expression_of_atom parses)
      (by rwa [Node.tokenTree])
    cases same
    exact absurd simple (leading (by simp) text).1
  | @before rule' t operand operation operator =>
    rw [Node.head?_of_two, Node.tokenTree, TokenTree.leafText?_leaf, Option.some.injEq]
    refine ⟨fun text => absurd operator (leading (by simp) text).2, fun atom => ?_⟩
    simp [Node.isAtom] at atom
  | @between rule' first symbol more operation operand =>
    rw [Node.head?_of_two]
    refine ⟨fun leaf => ?_, fun atom => ?_⟩
    · obtain ⟨t, rfl, simple, text⟩ := leafText?_expression operand leaf
      exact absurd simple (leading (by simp) text).1
    · simp [Node.isAtom] at atom

theorem head?_operator_ne {part : Node} (operator : IsOperator part) (spelled : part.Spelled)
    {kind : TokenKind} {c : Char} (symbol : Lexeme kind [c]) (other : kind ∉ operators) :
    part.tokenTree.head? ≠ some (String.ofList [c]) := by
  intro head
  obtain ⟨t, later, tokens, text⟩ := Node.first_of_head? head
  obtain ⟨u, others, tokens', member⟩ := operator.1
  rw [tokens, List.cons.injEq] at tokens'
  have lexeme := spelled t (by simp [tokens])
  rw [text, String.toList_ofList] at lexeme
  rw [← tokens'.1, lexeme.kind_unique symbol.scans] at member
  exact other member

theorem head?_operator {part : Node} (operator : IsOperator part) (spelled : part.Spelled) :
    (part.tokenTree.head? == some "(") = part.isAtom .parens := by
  have noAtom : part.isAtom .parens = false := by
    cases part with
    | leaf t => rfl
    | branch rule children =>
      cases rule <;> first | rfl | exact absurd rfl (operator.2 children)
  rw [noAtom, beq_eq_false_iff_ne]
  exact head?_operator_ne operator spelled Close.openParen.lexeme (by decide)

theorem head?_trailer (h : Parses n (.symbol .trailer) [node]) (spelled : node.Spelled) :
    (node.tokenTree.head? == some "(") = node.isCall := by
  obtain ⟨rule, t, second, more, rfl⟩ : ∃ rule t second more,
      node = .branch rule (.leaf t :: second :: more) := by
    rcases parses_trailer.1 h with call | ⟨_, _, _, -, -, -, same⟩ | ⟨_, _, -, -, same⟩
    · obtain ⟨_, content, _, -, -, -, same⟩ := parses_enclosed.1 call
      cases same
      cases content <;> exact ⟨_, _, _, _, rfl⟩
    all_goals
      cases same
      exact ⟨_, _, _, _, rfl⟩
  rw [Node.head?_of_two, Node.tokenTree, TokenTree.leafText?_leaf, Node.isCall, Bool.eq_iff_iff,
    beq_iff_eq, beq_iff_eq, Option.some.injEq]
  exact Close.openParen.text_iff (spelled t (by simp))

theorem isStageCall_of_two (rule : Rule) (first second : Node) (more : List Node) :
    isStageCall (Node.branch rule (first :: second :: more)).tokenTree =
      ((first.tokenTree.leafText?.map isStageName).getD false &&
        (second :: more).any fun part => part.tokenTree.head? == some "(") := by
  rw [Node.tokenTree_of_two, isStageCall, TokenTree.children]
  simp [List.any_map, Function.comp_def]

theorem any_congr_of_mem {α : Type} {p q : α → Bool} {xs : List α} (same : ∀ x ∈ xs, p x = q x) :
    xs.any p = xs.any q := by
  rw [Bool.eq_iff_iff, List.any_eq_true, List.any_eq_true]
  exact exists_congr fun x => and_congr_right fun member => by rw [same x member]

/-- An expression looks like a stage call if it is one, or an operation that can be mistaken for
one. -/
theorem isStageCall_expression (h : Parses n (.symbol .expression) [node])
    (spelled : node.Spelled) :
    isStageCall node.tokenTree = (node.callsStage || node.mistakable) := by
  have beginsWith {rule : Rule} {t : Token} {second : Node} {more : List Node}
      (inside : t ∈ node.tokens) (noName : t.kind ≠ .name) :
      isStageCall (Node.branch rule (.leaf t :: second :: more)).tokenTree = false := by
    rw [isStageCall_of_two, Node.tokenTree, TokenTree.leafText?_leaf, Option.map_some,
      Option.getD_some, isStageName_eq (spelled t inside), beq_false_of_ne noName]
    rfl
  cases shape_of_expression h with
  | @token t simple =>
    have noCall : isStageCall (Node.branch .access [.leaf t]).tokenTree = false := by
      rw [Node.tokenTree, Node.tokenTree]
      rfl
    rw [noCall]
    simp [Node.callsStage, Node.mistakable, Node.firstOperand?]
  | @atom rule t second more opens =>
    have noName : t.kind ≠ .name := by
      intro named
      rw [named] at opens
      cases rule <;> cases opens
    rw [Node.tokenTree, beginsWith (by simp) noName]
    simp [Node.callsStage, Node.mistakable, Node.firstOperand?]
  | @trailed atom trailer later parses trailers =>
    have name : (atom.tokenTree.leafText?.map isStageName).getD false = atom.namesStage := by
      have inside : atom.Spelled := spelled.child (by simp)
      have spelledAtom : (Node.branch .access [atom]).Spelled := fun t member =>
        inside t (by simpa using member)
      have alone := isStageName_expression (expression_of_atom parses) spelledAtom
      rwa [Node.tokenTree, Node.namesStage, Node.bareName?] at alone
    have calls : ((trailer :: later).any fun part => part.tokenTree.head? == some "(") =
        (trailer :: later).any Node.isCall :=
      any_congr_of_mem fun part member =>
        head?_trailer (trailers part member) (spelled.child (List.mem_cons_of_mem atom member))
    rw [isStageCall_of_two, name, calls]
    simp [Node.callsStage, Node.mistakable, Node.firstOperand?]
  | @before rule t operand operation operator =>
    have noName := ne_name_of_operator operator
    rw [beginsWith (by simp) noName]
    simp [Node.callsStage, Node.mistakable, Node.firstOperand?, operation, Node.namesStage_leaf,
      noName]
  | @between rule first symbol more operation operand operator parts =>
    have name := isStageName_expression operand (spelled.child (by simp))
    -- Operands and operators are told apart by their first tokens: no operator is a parenthesis.
    have atoms : ((symbol :: more).any fun part => part.tokenTree.head? == some "(") =
        (symbol :: more).any (Node.isAtom .parens) := by
      refine any_congr_of_mem fun part member => ?_
      have spelledPart := spelled.child (List.mem_cons_of_mem first member)
      have kind : IsOperator part ∨ Parses n (.symbol .expression) [part] := by
        rcases List.mem_cons.1 member with rfl | member
        · exact .inl operator
        · exact parts part member
      rcases kind with operator | expression
      · exact head?_operator operator spelledPart
      · exact head?_expression .parens .openParen rfl expression spelledPart
    rw [isStageCall_of_two, name, atoms]
    simp [Node.callsStage, Node.mistakable, Node.firstOperand?, Node.children, operation]

theorem impliedStage_tokenTree (spelled : node.Spelled) :
    Compiler.impliedStage node.tokenTree = node.impliedStage := by
  have relational : node.tokenTree.flatten.any relationalTexts.contains =
      node.tokens.any (·.kind.isRelational) := by
    rw [Node.flatten_tokenTree, Node.texts, List.any_map]
    refine any_congr_of_mem fun t member => ?_
    rw [← (spelled t member).contains_relationalTexts, String.ofList_toList]
    rfl
  rw [Compiler.impliedStage, Node.impliedStage, relational]

theorem stageReference?_expression (h : Parses n (.symbol .expression) [node])
    (spelled : node.Spelled) (noName : node.namesStage = false) :
    stageReference? node.tokenTree = none := by
  have name := isStageName_expression h spelled
  rw [stageReference?]
  split
  · cases leaf : node.tokenTree.leafText? with
    | none => rfl
    | some text =>
      rw [leaf, Option.map_some, Option.getD_some, noName] at name
      rw [Option.filter, name]
      rfl
  · rfl

/-- What the compiler makes of the token tree of an expression, in terms of the expression. -/
theorem asStageCall_expression (h : Parses n (.symbol .expression) [node])
    (spelled : node.Spelled) :
    asStageCall node.tokenTree =
      if node.isAtom .braces then wrap "map" node.tokenTree
      else if node.isAtom .parens then .group [.leaf "filter", node.tokenTree]
      else if node.callsStage || node.mistakable then node.tokenTree
      else wrap node.impliedStage node.tokenTree := by
  have braces := head?_expression .braces .openBrace rfl h spelled
  have parens := head?_expression .parens .openParen rfl h spelled
  rw [← braces, ← parens, ← isStageCall_expression h spelled, ← impliedStage_tokenTree spelled,
    asStageCall]
  simp only [beq_iff_eq]

theorem stageOf_asStageCall {tree part : TokenTree} {name : String}
    (noReference : stageReference? tree = none)
    (call : asStageCall tree = .group [.leaf name, part]) :
    stageOf tree = (stageCall [.leaf name, part]).map .call := by
  rw [stageOf, noReference]
  simp only [call, TokenTree.children, List.length_cons, List.length_nil, stageCall_foldMethod]
  rfl

def Node.argumentTrailer (node : Node) : Node :=
  .branch .trailer [.leaf (symbolToken .openParen '('), .branch .arguments [node],
    .leaf (symbolToken .closeParen ')')]

@[simp] theorem tokenTree_argumentTrailer (node : Node) :
    node.argumentTrailer.tokenTree = .group [.leaf "(", node.tokenTree, .leaf ")"] := by
  simp [Node.argumentTrailer, Node.tokenTree, Node.tokenTrees, symbolToken]

theorem wrap_eq (name : String) (node : Node) :
    wrap name node.tokenTree = .group [.leaf name, node.argumentTrailer.tokenTree] := by
  rw [wrap, tokenTree_argumentTrailer]

theorem parses_argumentTrailer (h : Parses n (.symbol .expression) [node]) :
    Parses n (Form.enclosed .trailer .openParen .closeParen (.symbol .arguments))
      [node.argumentTrailer] := by
  have arguments : Parses n (.symbol .arguments) [.branch .arguments [node]] :=
    parses_arguments.2 ⟨_, parses_commaList.2
      ⟨_, [], [], parses_argument.2 (.inl h), .done, .inl rfl, rfl⟩, rfl⟩
  exact parses_enclosed.2 ⟨_, _, _, rfl, rfl, .inr arguments, rfl⟩

theorem spelled_argumentTrailer (spelled : node.Spelled) : node.argumentTrailer.Spelled := by
  have openParen := Close.openParen.lexeme
  have closeParen := Close.closeParen.lexeme
  intro t member
  simp only [Node.argumentTrailer, Node.tokens_branch, Node.tokensOf_cons, Node.tokens_leaf,
    Node.tokensOf_nil, List.append_nil, List.mem_append, List.mem_singleton] at member
  rcases member with rfl | member | rfl
  · simpa [symbolToken] using openParen
  · exact spelled t member
  · simpa [symbolToken] using closeParen

end Expressions

end RecordPipeline
