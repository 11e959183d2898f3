import RecordPipeline.Proofs.Grammar.Completeness
import RecordPipeline.Proofs.Printing.Lists

/-!
Trees for the texts of expressions. Where an expression is written tightly enough, the tree of its
text is put together from the trees of its parts: the grammar derives it, it is lowered to the
expression, and the text spells its tokens.
-/

namespace RecordPipeline

open RecordPipeline.Grammar

namespace Grammar

def Symbol.operations : List Rule :=
  [.disjunction, .conjunction, .negation, .comparison, .sum, .product, .signed, .access]

theorem branch_of_tightness {n k : Nat} {node : Node}
    (h : Parses n (.symbol (Symbol.ofTightness k)) [node]) :
    ∃ rule ∈ Symbol.operations, ∃ children, node = .branch rule children := by
  have access {m : Nat} (h : Parses m (.symbol .access) [node]) :
      ∃ rule ∈ Symbol.operations, ∃ children, node = .branch rule children := by
    obtain ⟨first, more, -, -, same⟩ := parses_access.1 h
    exact ⟨.access, by decide, _, List.singleton_inj.1 same⟩
  have chain (tier : Tier) (h : Parses n (.symbol (.chain tier)) [node])
      (operand : Parses n (.symbol tier.operand) [node] →
        ∃ rule ∈ Symbol.operations, ∃ children, node = .branch rule children) :
      ∃ rule ∈ Symbol.operations, ∃ children, node = .branch rule children := by
    obtain ⟨first, more, hFirst, -, same⟩ := parses_chain.1 h
    cases more with
    | nil => exact operand (List.singleton_inj.1 same ▸ hFirst)
    | cons symbol more =>
      exact ⟨tier.rule, by cases tier <;> decide, _, List.singleton_inj.1 same⟩
  have signed (h : Parses n (.symbol .signed) [node]) :
      ∃ rule ∈ Symbol.operations, ∃ children, node = .branch rule children := by
    rcases parses_signed.1 h with ⟨t, operand, -, -, same⟩ | h
    · exact ⟨.signed, by decide, _, List.singleton_inj.1 same⟩
    · exact access h
  have comparison (h : Parses n (.symbol (.chain .comparison)) [node]) :
      ∃ rule ∈ Symbol.operations, ∃ children, node = .branch rule children :=
    chain .comparison h fun h => chain .sum h fun h => chain .product h signed
  have negation (h : Parses n (.symbol .negation) [node]) :
      ∃ rule ∈ Symbol.operations, ∃ children, node = .branch rule children := by
    rcases parses_negation.1 h with ⟨t, operand, -, -, same⟩ | h
    · exact ⟨.negation, by decide, _, List.singleton_inj.1 same⟩
    · exact comparison h
  have disjunction := Parses.loosen h (Nat.zero_le k)
  exact chain .disjunction disjunction fun h => chain .conjunction h negation

theorem branch_of_expression {n : Nat} {node : Node} (h : Parses n (.symbol .expression) [node]) :
    ∃ rule ∈ Symbol.operations, ∃ children, node = .branch rule children := by
  obtain ⟨m, -, h⟩ := parses_expression.1 h
  exact branch_of_tightness (k := 0) h

theorem noComma_of_expression {n : Nat} {node : Node}
    (h : Parses n (.symbol .expression) [node]) : node.kind? ≠ some .comma := by
  obtain ⟨rule, -, children, rfl⟩ := branch_of_expression h
  simp [Node.kind?]

theorem isPositional_of_expression {n : Nat} {node : Node}
    (h : Parses n (.symbol .expression) [node]) : node.IsPositional := by
  obtain ⟨rule, member, children, rfl⟩ := branch_of_expression h
  intro name sign value same
  cases same
  exact absurd member (by decide)

theorem ne_sequence_of_expression {n : Nat} {node : Node}
    (h : Parses n (.symbol .expression) [node]) (items : List Node) :
    node ≠ .branch .sequence items := by
  obtain ⟨rule, member, children, rfl⟩ := branch_of_expression h
  intro same
  cases same
  exact absurd member (by decide)

theorem parses_expression_of_deeper {n k : Nat} {nodes : List Node}
    (h : Parses n (.deeper (.symbol (.ofTightness k))) nodes) :
    ∃ node, nodes = [node] ∧ Parses n (.symbol .expression) [node] := by
  obtain ⟨m, rfl, tight⟩ := parses_deeper.1 h
  have notList : Symbol.ofTightness k ≠ .expressions := by
    unfold Symbol.ofTightness
    split <;> simp
  obtain ⟨node, rfl⟩ := parses_single notList tight
  exact ⟨node, rfl, parses_expression.2 ⟨m, rfl, tight.loosen (Nat.zero_le k)⟩⟩

theorem content_cases {n : Nat} {node : Node} (h : Parses n Form.content [node]) :
    Parses n (.symbol .expression) [node] ∨
      ∃ items, Parses n (Form.commaList (.symbol .expression)) items ∧
        node = .branch .sequence items := by
  obtain ⟨items, hItems, same⟩ := parses_content.1 h
  cases same
  rcases items with _ | ⟨only, _ | ⟨second, later⟩⟩
  · exact .inr ⟨[], hItems, rfl⟩
  · obtain ⟨first, more, trailing, hFirst, -, -, same⟩ := parses_commaList.1 hItems
    obtain ⟨e, rfl⟩ := expression_single hFirst
    rw [List.singleton_append, List.cons.injEq] at same
    exact .inl (same.1 ▸ hFirst)
  · exact .inr ⟨_, hItems, rfl⟩

end Grammar

/-- A tree of the symbol within `n` levels that is lowered to the expression and is spelled by the
text. -/
structure Shows (n : Nat) (s : Symbol) (e : Expr) (text : List Char) (node : Node) : Prop where
  parses : Parses n (.symbol s) [node]
  lowers : node.lower = .ok e
  spells : Spells text node.tokens

namespace Shows

variable {n k : Nat} {s : Symbol} {e : Expr} {text : List Char} {node : Node}

theorem loosen (h : Shows n (.ofTightness k) e text node) {l : Nat} (le : l ≤ k) :
    Shows n (.ofTightness l) e text node :=
  ⟨h.parses.loosen le, h.lowers, h.spells⟩

theorem mono (h : Shows n s e text node) {m : Nat} (le : n ≤ m) : Shows m s e text node :=
  ⟨h.parses.mono le, h.lowers, h.spells⟩

theorem expression (h : Shows n (.ofTightness k) e text node) {m : Nat} (less : n < m) :
    Shows m .expression e text node := by
  obtain ⟨levels, rfl⟩ : ∃ levels, m = levels + 1 := ⟨m - 1, by omega⟩
  refine ⟨parses_expression.2 ⟨levels, rfl, ?_⟩, h.lowers, h.spells⟩
  exact ((h.loosen (Nat.zero_le k)).mono (Nat.le_of_lt_succ less)).parses

theorem ofAtom {atom : Node} (parses : Parses n (.symbol .atom) [atom])
    (lowers : atom.lower = .ok e) (spells : Spells text atom.tokens) : Shows n .access e text (.branch .access [atom]) where
  parses := parses_access.2 ⟨[atom], [], parses, .done, rfl⟩
  lowers := by
    rw [Node.lower, lowers]
    simp [Node.lowerTrailers, bind, Except.bind]
  spells := by simpa using spells

theorem ofToken {t : Token} (simple : t.kind ∈ Symbol.simpleAtoms)
    (lexeme : Lexeme t.kind t.text.toList) (lowers : Node.literal t = .ok e) :
    Shows n .access e t.text.toList (.branch .access [.leaf t]) := by
  refine ofAtom (parses_atom.2 (.inl ⟨t, simple, rfl⟩)) ?_ ?_
  · rw [Node.lower, lowers]
  · have spelled := Spells.token lexeme (endsBefore_nil _) .done
    rw [List.append_nil] at spelled
    simpa using spelled

def enclosedNode (rule : Rule) (opening closing : Token) (inside : List Node) : Node :=
  .branch rule (.leaf opening :: (inside ++ [.leaf closing]))

theorem ofEnclosed {rule : Rule} {opening closing : TokenKind} {content : Form} {c d : Char}
    {inside : List Node} (opens : Close opening c) (closes : Close closing d)
    (atom : ∀ {nodes}, Parses n (Form.enclosed rule opening closing content) nodes →
      Parses n (.symbol .atom) nodes)
    (parses : inside = [] ∨ Parses n content inside) (spells : Spells text (Node.tokensOf inside))
    (lowers : (enclosedNode rule (symbolToken opening c) (symbolToken closing d) inside).lower =
      .ok e) :
    ∃ node, Shows n .access e (c :: (text ++ [d])) node := by
  refine ⟨_, ofAtom (atom (parses_enclosed.2 ⟨_, inside, _, rfl, rfl, parses, rfl⟩)) lowers ?_⟩
  simpa using opens.spells (closes.spells_behind spells .done)

theorem parens (h : Shows n (.ofTightness k) e text node) :
    ∃ node, Shows (n + 1) .access e ('(' :: (text ++ [')'])) node := by
  have inner := h.expression (Nat.lt_succ_self n)
  have content : Parses (n + 1) Form.content [node] :=
    parses_content.2 ⟨[node], parses_commaList.2
      ⟨[node], [], [], inner.parses, .done, .inl rfl, rfl⟩, rfl⟩
  refine ofEnclosed .openParen .closeParen (fun h => parses_atom.2 (.inr (.inr (.inl h))))
    (.inr content) (by simpa using h.spells) ?_
  rw [enclosedNode, List.singleton_append, Node.lower, h.lowers]

theorem operand (h : Shows n (.ofTightness e.tightness) e e.text.toList node) :
    ∃ node, Shows (n + if e.isBinary then 1 else 0) (.ofTightness e.operandTightness) e
      (e.operandText e.text).toList node := by
  rw [Expr.operandTightness, Expr.operandText]
  by_cases binary : e.isBinary = true
  · have enclosed : ("(" ++ e.text ++ ")").toList = '(' :: (e.text.toList ++ [')']) := by simp
    rw [if_pos binary, if_pos binary, if_pos binary, enclosed]
    exact h.parens
  · rw [if_neg binary, if_neg binary, if_neg binary]
    exact ⟨node, h⟩

theorem operator_lexeme (op : Operator) :
    ∃ kind, Operator.ofKind? kind = some op ∧ kind ∈ op.tier.kinds ∧
      Lexeme kind op.symbol.toList := by
  cases op with
  | equal => exact ⟨.equal, rfl, by decide, rfl, '=', ['='], rfl, rfl⟩
  | notEqual => exact ⟨.notEqual, rfl, by decide, rfl, '!', ['='], rfl, rfl⟩
  | less => exact ⟨.less, rfl, by decide, rfl, '<', [], rfl, rfl⟩
  | greater => exact ⟨.greater, rfl, by decide, rfl, '>', [], rfl, rfl⟩
  | lessEqual => exact ⟨.lessEqual, rfl, by decide, rfl, '<', ['='], rfl, rfl⟩
  | greaterEqual => exact ⟨.greaterEqual, rfl, by decide, rfl, '>', ['='], rfl, rfl⟩
  | member => exact ⟨.inWord, rfl, by decide, rfl, 'i', ['n'], rfl, rfl⟩
  | add => exact ⟨.plus, rfl, by decide, rfl, '+', [], rfl, rfl⟩
  | subtract => exact ⟨.minus, rfl, by decide, rfl, '-', [], rfl, rfl⟩
  | multiply => exact ⟨.star, rfl, by decide, rfl, '*', [], rfl, rfl⟩
  | divide => exact ⟨.slash, rfl, by decide, rfl, '/', [], rfl, rfl⟩
  | modulo => exact ⟨.percent, rfl, by decide, rfl, '%', [], rfl, rfl⟩
  | and => exact ⟨.andWord, rfl, by decide, rfl, 'a', ['n', 'd'], rfl, rfl⟩
  | or => exact ⟨.orWord, rfl, by decide, rfl, 'o', ['r'], rfl, rfl⟩

theorem lower_binary (op : Operator) {kind : TokenKind} (read : Operator.ofKind? kind = some op)
    {first second : Node} {left right : Expr} (lowersFirst : first.lower = .ok left)
    (lowersSecond : second.lower = .ok right) :
    (Node.branch op.tier.rule [first, .leaf ⟨kind, op.symbol, 0⟩, second]).lower =
      .ok (.binary op left right) := by
  have chained : Node.lowerChain left [.leaf ⟨kind, op.symbol, 0⟩, second] =
      .ok (.binary op left right) := by
    simp [Node.lowerChain, read, lowersSecond, bind, Except.bind]
  have compared : Node.lowerComparisons left [.leaf ⟨kind, op.symbol, 0⟩, second] =
      .ok [.binary op left right] := by
    simp [Node.lowerComparisons, Node.compared, read, lowersSecond, bind, Except.bind, pure,
      Except.pure]
  cases op with
  | equal | notEqual | less | greater | lessEqual | greaterEqual | member =>
    rw [Operator.tier, Tier.rule, Node.lower, lowersFirst]
    simp only [bind, Except.bind, compared]
    rfl
  | add | subtract | multiply | divide | modulo | and | or =>
    rw [Operator.tier, Tier.rule, Node.lower, lowersFirst]
    exact chained

theorem binary {op : Operator} {left right : Expr} {leftText rightText : List Char}
    {first second : Node}
    (hLeft : Shows n (.ofTightness (op.tier.tightness + 1)) left leftText first)
    (hRight : Shows n (.ofTightness (op.tier.tightness + 1)) right rightText second) :
    ∃ node, Shows n (.ofTightness op.tier.tightness) (.binary op left right)
      (leftText ++ ' ' :: (op.symbol.toList ++ ' ' :: rightText)) node := by
  obtain ⟨kind, read, member, lexeme⟩ := operator_lexeme op
  have operator : Parses n op.tier.operator [.leaf ⟨kind, op.symbol, 0⟩] := by
    cases op with
    | equal | notEqual | less | greater | lessEqual | greaterEqual | member =>
      exact .first (.one member)
    | add | subtract | multiply | divide | modulo | and | or => exact .one member
  have parsesLeft := hLeft.parses
  have parsesRight := hRight.parses
  rw [Symbol.ofTightness_operand] at parsesLeft parsesRight
  have symbol := Spells.token (t := ⟨kind, op.symbol, 0⟩) lexeme
    (endsBefore_blank rightText lexeme.ne_endOfInput) (.blank rfl hRight.spells)
  refine ⟨.branch op.tier.rule [first, .leaf ⟨kind, op.symbol, 0⟩, second], ?_,
    lower_binary op read hLeft.lowers hRight.lowers, ?_⟩
  · rw [Symbol.ofTightness_tier]
    exact parses_chain.2 ⟨first, _, parsesLeft, .again (.both operator parsesRight) .done, rfl⟩
  · simpa using hLeft.spells.append_blank symbol

theorem not (h : Shows n (.ofTightness 2) e text node) :
    ∃ node, Shows (n + 1) (.ofTightness 2) (.not e) ("not ".toList ++ text) node := by
  have lexeme : Lexeme .notWord "not".toList := ⟨rfl, 'n', ['o', 't'], rfl, rfl⟩
  have spelled := Spells.token (t := ⟨.notWord, "not", 0⟩) lexeme
    (endsBefore_blank text (by decide)) (.blank rfl h.spells)
  refine ⟨.branch .negation [.leaf ⟨.notWord, "not", 0⟩, node], ?_, ?_, ?_⟩
  · exact parses_negation.2 (.inl ⟨_, [node], rfl, .deeper h.parses, rfl⟩)
  · rw [Node.lower, h.lowers]
    rfl
  · simpa using spelled

theorem negate (h : Shows n (.ofTightness 6) e text node) :
    ∃ node, Shows (n + 1) (.ofTightness 6) (.negate e) ('-' :: text) node := by
  have lexeme : Lexeme .minus "-".toList := ⟨rfl, '-', [], rfl, rfl⟩
  have spelled := Spells.token (t := ⟨.minus, "-", 0⟩) lexeme rfl h.spells
  refine ⟨.branch .signed [.leaf ⟨.minus, "-", 0⟩, node], ?_, ?_, ?_⟩
  · exact parses_signed.2 (.inl ⟨_, [node], by decide, .deeper h.parses, rfl⟩)
  · rw [Node.lower, h.lowers]
    rfl
  · simpa using spelled

theorem lower_access_append {atom trailer : Node} {trailers : List Node} {base : Expr}
    {written : Trailer} (lowers : (Node.branch .access (atom :: trailers)).lower = .ok base)
    (lowersTrailer : trailer.lowerTrailer = .ok written) :
    (Node.branch .access (atom :: (trailers ++ [trailer]))).lower = .ok (written.onto base) := by
  rw [Node.lower] at lowers ⊢
  cases object : atom.lower with
  | error fault =>
    rw [object] at lowers
    cases lowers
  | ok object' =>
    rw [object] at lowers
    simp only [bind, Except.bind] at lowers ⊢
    rw [Node.lowerTrailers_eq_foldl] at lowers ⊢
    rw [List.mapM_append]
    cases front : trailers.mapM Node.lowerTrailer with
    | error fault =>
      rw [front] at lowers
      cases lowers
    | ok front' =>
      rw [front] at lowers
      cases lowers
      simp [lowersTrailer, bind, Except.bind, pure, Except.pure, Except.map]

theorem trailer {trailer : Node} {written : Trailer} {c : Char} {cs : List Char}
    (base : Shows n .access e text node) (parses : Parses n (.symbol .trailer) [trailer])
    (lowers : trailer.lowerTrailer = .ok written) (spells : Spells (c :: cs) trailer.tokens)
    (tight : isTight c = true) (named : c = '.' → startsWithDigit cs = false) :
    ∃ node, Shows n .access (written.onto e) (text ++ c :: cs) node := by
  obtain ⟨front, trailers, hAtom, hTrailers, same⟩ := parses_access.1 base.parses
  obtain ⟨atom, rfl⟩ := parses_single (by simp) hAtom
  obtain rfl := List.singleton_inj.1 same
  have one := Parses.again parses (.done (f := .symbol .trailer))
  rw [List.append_nil] at one
  have more := hTrailers.many_append one
  refine ⟨.branch .access (atom :: (trailers ++ [trailer])),
    parses_access.2 ⟨[atom], _, hAtom, more, rfl⟩, lower_access_append base.lowers lowers, ?_⟩
  simpa using base.spells.append (breaks_tight tight named) spells

theorem attr (base : Shows n .access e text node) {kind : TokenKind} {name : String}
    (word : kind ∈ Symbol.words) (lexeme : Lexeme kind name.toList) :
    ∃ node, Shows n .access (.attr e name) (text ++ '.' :: name.toList) node := by
  have noDigit : startsWithDigit name.toList = false := by
    simpa using lexeme.not_digit_of_word word []
  have dot : Lexeme .dot ".".toList := ⟨rfl, '.', [], rfl, rfl⟩
  have spelled := Spells.token (t := ⟨.dot, ".", 0⟩) dot (by simp [TokenKind.endsBefore, noDigit])
    (.token (t := ⟨kind, name, 0⟩) lexeme (endsBefore_nil _) .done)
  have lowers : (Node.branch .trailer [.leaf ⟨.dot, ".", 0⟩, .leaf ⟨kind, name, 0⟩]).lowerTrailer =
      .ok (.attr name) := rfl
  exact base.trailer (parses_trailer.2 (.inr (.inr ⟨_, _, rfl, word, rfl⟩))) lowers
    (by simpa using spelled) rfl fun _ => noDigit

theorem index (base : Shows n .access e text node) {key : Expr} {keyText : List Char}
    {keyNode : Node} (inside : Shows n .expression key keyText keyNode) :
    ∃ node, Shows n .access (.index e key) (text ++ '[' :: (keyText ++ [']'])) node := by
  have spelled := Close.openBracket.spells
    (Close.closeBracket.spells_behind inside.spells .done)
  have lowers : (Node.branch .trailer [.leaf (symbolToken .openBracket '['), keyNode,
      .leaf (symbolToken .closeBracket ']')]).lowerTrailer = .ok (.index key) := by
    rw [Node.lowerTrailer, symbolToken, Node.lowerOpened, inside.lowers]
    rfl
  exact base.trailer (parses_trailer.2 (.inr (.inl ⟨_, keyNode, _, rfl, rfl, inside.parses, rfl⟩)))
    lowers (by simpa using spelled) rfl fun same => by cases same

end Shows

end RecordPipeline
