import RecordPipeline.Proofs.Lexing.Subtrees
import RecordPipeline.Proofs.Lowering.Numbers
import RecordPipeline.Proofs.Printing.Reparsing

/-!
What lowering can fail at. Trees of the grammar have the shape that lowering asks for at each of
their branches, so from a text that is read comes a value, or the fault of the first float literal
in it that is no number. Whole numbers are digits only and can always be read.
-/

namespace RecordPipeline

open RecordPipeline.Grammar RecordPipeline.Parser

namespace Token

/-- A float literal that is no number, such as one with two exponents. -/
def unreadable (t : Token) : Bool :=
  t.kind == .float && (Number.readFloat t.text.toList).isNone

def floatFault (t : Token) : Fault :=
  ⟨.invalidFloat t.text, t.offset⟩

theorem not_unreadable {t : Token} (other : t.kind ≠ .float) : t.unreadable = false := by
  simp [unreadable, other]

end Token

/-- A value where all tokens can be read, otherwise the fault of the first that cannot. -/
inductive Settles {α : Type} (ts : List Token) : Except Fault α → Prop where
  | value {a : α} (none : ts.find? Token.unreadable = none) : Settles ts (.ok a)
  | fault {t : Token} (first : ts.find? Token.unreadable = some t) :
      Settles ts (.error t.floatFault)

namespace Settles

variable {α β : Type} {ts us : List Token} {x : Except Fault α} {f : α → Except Fault β} {t : Token}

theorem congr (h : Settles ts x)
    (same : us.find? Token.unreadable = ts.find? Token.unreadable) : Settles us x := by
  cases h with
  | value none => exact .value (same.trans none)
  | fault first => exact .fault (same.trans first)

theorem bind (h : Settles ts x) (next : ∀ a, Settles us (f a)) : Settles (ts ++ us) (x >>= f) := by
  cases h with
  | @value a none => exact (next a).congr (by rw [List.find?_append, none, Option.none_or])
  | fault first => exact .fault (by rw [List.find?_append, first, Option.some_or])

theorem bind_ok (h : Settles ts x) (next : ∀ a, ∃ b, f a = .ok b) : Settles ts (x >>= f) := by
  rw [← List.append_nil ts]
  refine h.bind fun a => ?_
  obtain ⟨b, same⟩ := next a
  rw [same]
  exact .value rfl

theorem map {g : α → β} (h : Settles ts x) : Settles ts (x.map g) := by
  cases h with
  | value none => exact .value none
  | fault first => exact .fault first

theorem cons (h : Settles ts x) (other : t.kind ≠ .float) : Settles (t :: ts) x :=
  h.congr (List.find?_cons_of_neg (by simp [Token.not_unreadable other]))

theorem concat (h : Settles ts x) (other : t.kind ≠ .float) : Settles (ts ++ [t]) x := by
  have last : [t].find? Token.unreadable = none :=
    List.find?_cons_of_neg (by simp [Token.not_unreadable other])
  exact h.congr (by rw [List.find?_append, last, Option.or_none])

end Settles

namespace Node

def Settled (node : Node) : Prop :=
  Settles node.tokens node.lower

theorem settled_literal {t : Token} (simple : t.kind ∈ Symbol.simpleAtoms)
    (lexeme : Lexeme t.kind t.text.toList) : Settles [t] (literal t) := by
  have ok {e : Expr} (readable : t.unreadable = false) : Settles [t] (.ok e) :=
    .value (List.find?_cons_of_neg (by simp [readable]))
  have other {e : Expr} (other : t.kind ≠ .float) : Settles [t] (.ok e) :=
    ok (Token.not_unreadable other)
  simp only [Symbol.simpleAtoms, List.mem_cons, List.not_mem_nil, or_false] at simple
  rw [literal]
  rcases simple with kind | kind | kind | kind | kind | kind | kind
  · rw [kind] at lexeme
    obtain ⟨x, read⟩ := readFloat_of_digits lexeme.ne_nil lexeme.digits_of_integer
    simp only [kind, integerLiteral, read]
    split <;> exact other (by simp [kind])
  · simp only [kind, floatLiteral]
    split
    · exact ok (by simp [Token.unreadable, *])
    · exact .fault (List.find?_cons_of_pos (by simp [Token.unreadable, *]))
  all_goals
    simp only [kind]
    exact other (by simp [kind])

theorem settled_leaf {t : Token} (simple : t.kind ∈ Symbol.simpleAtoms)
    (spelled : (leaf t).Spelled) : (leaf t).Settled := by
  have settles := settled_literal simple spelled.leaf
  rwa [Settled, lower, tokens_leaf]

theorem settles_items {nodes : List Node}
    (all : ∀ node ∈ nodes, (∃ t, t.kind = .comma ∧ node = leaf t) ∨
      node.kind? ≠ some .comma ∧ node.Settled) :
    Settles (tokensOf nodes) (lowerItems nodes) := by
  induction nodes with
  | nil =>
    rw [lowerItems]
    exact .value rfl
  | cons node later ih =>
    have rest := ih fun other member => all other (List.mem_cons_of_mem node member)
    rw [lowerItems, tokensOf_cons]
    rcases all node (by simp) with ⟨t, comma, rfl⟩ | ⟨noComma, settled⟩
    · rw [if_pos (by simp [kind?, comma])]
      exact rest.cons (by simp [comma])
    · rw [if_neg noComma]
      exact settled.bind fun e => rest.bind_ok fun items => ⟨_, rfl⟩

theorem settles_arguments {nodes : List Node}
    (all : ∀ node ∈ nodes, Settles node.tokens (lowerArguments [node])) :
    Settles (tokensOf nodes) (lowerArguments nodes) := by
  induction nodes with
  | nil =>
    rw [lowerArguments]
    exact .value rfl
  | cons node later ih =>
    rw [lowerArguments_cons, tokensOf_cons]
    exact (all node (by simp)).bind fun first =>
      (ih fun other member => all other (List.mem_cons_of_mem node member)).bind_ok
        fun others => ⟨_, rfl⟩

theorem settles_trailers {trailers : List Node} (object : Expr)
    (all : ∀ node ∈ trailers, Settles node.tokens node.lowerTrailer) :
    Settles (tokensOf trailers) (lowerTrailers object trailers) := by
  induction trailers generalizing object with
  | nil =>
    rw [lowerTrailers]
    exact .value rfl
  | cons trailer later ih =>
    rw [lowerTrailers_onto, tokensOf_cons]
    exact (all trailer (by simp)).bind fun first =>
      ih (first.onto object) fun other member => all other (List.mem_cons_of_mem trailer member)

end Node

namespace Node

structure Operates (tier : Tier) (symbol : Node) : Prop where
  readable : symbol.tokens.find? Token.unreadable = none
  compares : ∀ left right, ∃ e, compared symbol left right = .ok e
  joins : tier ≠ .comparison → ∃ t op, symbol = leaf t ∧ Operator.ofKind? t.kind = some op

inductive Operations (tier : Tier) : List Node → Prop where
  | none : Operations tier []
  | more {symbol right : Node} {later : List Node} (operates : symbol.Operates tier)
      (settled : right.Settled) (rest : Operations tier later) :
      Operations tier (symbol :: right :: later)

variable {tier : Tier} {nodes : List Node}

theorem settles_chain (h : Operations tier nodes) (joins : tier ≠ .comparison) (left : Expr) :
    Settles (tokensOf nodes) (lowerChain left nodes) := by
  induction h generalizing left with
  | none =>
    rw [lowerChain]
    exact .value rfl
  | more operates settled _ ih =>
    obtain ⟨t, op, rfl, isOp⟩ := operates.joins joins
    have readable := operates.readable
    rw [tokens_leaf] at readable
    have lowers := settled.bind fun right => ih (.binary op left right)
    simp only [lowerChain, isOp]
    refine lowers.congr ?_
    simp only [tokensOf_cons, tokens_leaf, List.find?_append, readable, Option.none_or]

theorem settles_comparisons (h : Operations tier nodes) (left : Expr) :
    Settles (tokensOf nodes) (lowerComparisons left nodes) := by
  induction h generalizing left with
  | none =>
    rw [lowerComparisons]
    exact .value rfl
  | @more symbol right later operates settled _ ih =>
    rw [lowerComparisons]
    refine (settled.bind fun right => (?_ : Settles (tokensOf later) _)).congr ?_
    · obtain ⟨e, compared⟩ := operates.compares left right
      rw [compared]
      exact (ih right).bind_ok fun others => ⟨e :: others, rfl⟩
    · simp only [tokensOf_cons, List.find?_append, operates.readable, Option.none_or]

theorem filled_comparisons {symbol : Node} {left : Expr} {comparisons : List Expr}
    (h : lowerComparisons left (symbol :: nodes) = .ok comparisons) : comparisons ≠ [] := by
  cases lowerComparisons_eq_ok.1 h with
  | more => exact List.cons_ne_nil _ _

theorem settles_conjunction {symbol : Node} (h : Operations tier (symbol :: nodes)) (left : Expr) :
    Settles (tokensOf (symbol :: nodes))
      (lowerComparisons left (symbol :: nodes) >>= conjoin) := by
  have settles := settles_comparisons h left
  cases lowers : lowerComparisons left (symbol :: nodes) with
  | error fault =>
    rw [lowers] at settles
    cases settles
    exact .fault ‹_›
  | ok comparisons =>
    rw [lowers] at settles
    cases settles
    obtain ⟨first, later, rfl⟩ := List.exists_cons_of_ne_nil (filled_comparisons lowers)
    exact .value ‹_›

end Node

section Level

-- As for what can be written, the operands of `not` and of a sign are expressions one level further
-- down, so `inner` covers them and the induction is on the levels alone.
variable {n : Nat} {node : Node}
  (inner : ∀ {node : Node}, Parses n (.symbol .expression) [node] → node.Spelled → node.Settled)

include inner

theorem argument_settles (parses : Parses n (.symbol .argument) [node]) (spelled : node.Spelled) :
    Settles node.tokens (Node.lowerArguments [node]) := by
  have pure (e : Expr) (named : Expr → Argument) :
      ∃ arguments, (do return named e :: (← Node.lowerArguments [])) = Except.ok arguments :=
    ⟨[named e], by rw [Node.lowerArguments]; rfl⟩
  rcases parses_argument.1 parses with expression | ⟨name, sign, bound, kind, assigns, hBound, same⟩
  · rw [Node.lowerArguments_positional (isPositional_of_expression expression),
      if_neg (noComma_of_expression expression)]
    exact (inner expression spelled).bind_ok fun e => pure e .positional
  · cases same
    rw [Node.lowerArguments]
    have settled : Settles bound.tokens bound.lower := inner hBound (spelled.child (by simp))
    have value := settled.bind_ok fun e =>
      pure e (.named ((Node.branch .access [.leaf name]).texts.headD ""))
    simpa using (value.cons (t := sign) (by simp [assigns])).cons (t := name) (by simp [kind])

theorem arguments_settle {nodes : List Node}
    (parses : Parses n (Form.commaList (.symbol .argument)) nodes)
    (spelled : ∀ node ∈ nodes, node.Spelled) :
    Settles (Node.tokensOf nodes) (Node.lowerArguments nodes) := by
  have each : ∀ node ∈ nodes, node.Spelled →
      Settles node.tokens (Node.lowerArguments [node]) := by
    refine parses.commaList_all (fun t comma _ => ?_) fun {part} hPart node member => ?_
    · rw [lowerArguments_comma comma, Node.lowerArguments]
      have none : Settles [] (Except.ok ([] : List Argument)) := .value rfl
      exact none.cons (by simp [comma])
    · obtain ⟨only, rfl⟩ := argument_single hPart
      obtain rfl := List.mem_singleton.1 member
      exact argument_settles inner hPart
  exact Node.settles_arguments fun node member => each node member (spelled node member)

theorem trailer_settles (parses : Parses n (.symbol .trailer) [node]) (spelled : node.Spelled) :
    Settles node.tokens node.lowerTrailer := by
  rcases parses_trailer.1 parses with called | ⟨first, index, last, opens, closes, hIndex, same⟩ |
    ⟨dot, name, kind, word, same⟩
  · obtain ⟨first, content, last, opens, closes, hContent, same⟩ := parses_enclosed.1 called
    cases same
    rw [Node.lowerTrailer, opens, Node.lowerOpened]
    rcases hContent with rfl | hContent
    · rw [List.nil_append, Node.lowerCall]
      exact (Settles.value (List.find?_eq_none.2 (by
        simp [Token.not_unreadable, opens, closes]))).map
    · obtain ⟨items, hItems, rfl⟩ := parses_arguments.1 hContent
      have inside : (Node.branch .arguments items).Spelled := spelled.child (by simp)
      have settles := arguments_settle inner hItems fun node => inside.child
      rw [List.singleton_append, Node.lowerCall]
      simpa using ((settles.map.map).concat (t := last) (by simp [closes])).cons (t := first)
        (by simp [opens])
  · cases same
    have settled : Settles index.tokens index.lower := inner hIndex (spelled.child (by simp))
    rw [Node.lowerTrailer, opens, Node.lowerOpened]
    simpa using (settled.map.concat (t := last) (by simp [closes])).cons (t := first)
      (by simp [opens])
  · cases same
    have noFloat : name.kind ≠ .float := by
      intro float
      rw [float] at word
      exact absurd word (by decide)
    rw [Node.lowerTrailer, kind, Node.lowerOpened]
    exact .value (List.find?_eq_none.2 (by simp [Token.not_unreadable, kind, noFloat]))

theorem items_settle {nodes : List Node}
    (parses : Parses n (Form.commaList (.symbol .expression)) nodes)
    (spelled : ∀ node ∈ nodes, node.Spelled) :
    Settles (Node.tokensOf nodes) (Node.lowerItems nodes) := by
  have each : ∀ node ∈ nodes, node.Spelled → (∃ t, t.kind = .comma ∧ node = .leaf t) ∨
      node.kind? ≠ some .comma ∧ node.Settled := by
    refine parses.commaList_all (fun t comma _ => .inl ⟨t, comma, rfl⟩)
      fun {part} hPart node member => ?_
    obtain ⟨only, rfl⟩ := expression_single hPart
    obtain rfl := List.mem_singleton.1 member
    exact fun spelled => .inr ⟨noComma_of_expression hPart, inner hPart spelled⟩
  exact Node.settles_items fun node member => each node member (spelled node member)

theorem sequence_settled {items : List Node}
    (parses : Parses n (Form.commaList (.symbol .expression)) items)
    (spelled : (Node.branch .sequence items).Spelled) : (Node.branch .sequence items).Settled := by
  rw [Node.Settled, Node.lower, Node.tokens_branch]
  exact (items_settle inner parses fun node => spelled.child).bind_ok fun items => ⟨_, rfl⟩

theorem content_settled (parses : Parses n Form.content [node]) (spelled : node.Spelled) :
    node.Settled := by
  rcases content_cases parses with expression | ⟨items, hItems, rfl⟩
  · exact inner expression spelled
  · exact sequence_settled inner hItems spelled

theorem key_settles (parses : Parses n (.symbol .expression) [node]) (spelled : node.Spelled) :
    Settles node.tokens (Node.lowerKey node) := by
  rw [Node.lowerKey]
  split
  · rename_i text name
    obtain ⟨t, kind, rfl⟩ := name_of_expression parses name
    exact .value (List.find?_eq_none.2 (by simp [Token.not_unreadable, kind]))
  · exact inner parses spelled

theorem fields_settle {nodes : List Node} (parses : Parses n (Form.commaList Form.field) nodes)
    (spelled : ∀ node ∈ nodes, node.Spelled) :
    Settles (Node.tokensOf nodes) (Node.lowerFields nodes) := by
  obtain ⟨first, more, trailing, hFirst, hMore, hTrailing, rfl⟩ := parses_commaList.1 parses
  clear parses
  -- the fields behind the first are read with their commas, so the field in front of them varies
  refine hMore.many_induction (motive := fun more => ∀ first, Parses n Form.field first →
    (∀ node ∈ first ++ (more ++ trailing), node.Spelled) →
    Settles (Node.tokensOf (first ++ (more ++ trailing)))
      (Node.lowerFields (first ++ (more ++ trailing)))) ?_ ?_ first hFirst spelled
  · intro first hFirst spelled
    obtain ⟨key, colon, value, hKey, kind, hValue, rfl⟩ := parses_field.1 hFirst
    have settlesKey := key_settles inner hKey (spelled key (by simp))
    have settlesValue : Settles value.tokens value.lower := inner hValue (spelled value (by simp))
    have pair := settlesKey.bind fun k => (settlesValue.bind_ok fun v =>
      ⟨[(k, v)], rfl⟩).cons (t := colon) (by simp [kind])
    rcases hTrailing with rfl | ⟨comma, isComma, rfl⟩
    · rw [List.nil_append, List.append_nil, Node.lowerFields_last]
      exact pair.congr (by simp)
    · have empty : Node.lowerFields [] = .ok [] := by simp [Node.lowerFields]
      have more := Node.lowerFields_more key (.leaf colon) value (.leaf comma) []
      rw [List.nil_append, List.cons_append, List.cons_append, List.singleton_append, more, empty]
      exact (pair.concat (t := comma) (by simp [isComma])).congr (by simp)
  · intro front back hFront _ ih first hFirst spelled
    obtain ⟨_, next, hComma, hNext, rfl⟩ := parses_both.1 hFront
    obtain ⟨comma, isComma, rfl⟩ := parses_one.1 hComma
    obtain ⟨key, colon, value, hKey, kind, hValue, rfl⟩ := parses_field.1 hFirst
    have settlesKey := key_settles inner hKey (spelled key (by simp))
    have settlesValue : Settles value.tokens value.lower := inner hValue (spelled value (by simp))
    have rest := ih next hNext fun node member => spelled node (by
      rw [List.append_assoc, List.append_assoc]
      exact List.mem_append_right _ (List.mem_append_right _ member))
    have whole := settlesKey.bind fun k => (settlesValue.bind fun v =>
      (rest.bind_ok fun later => ⟨(k, v) :: later, rfl⟩).cons (t := comma)
        (by simpa using List.mem_singleton.1 isComma ▸ by decide)).cons (t := colon) (by simp [kind])
    have more := Node.lowerFields_more key (.leaf colon) value (.leaf comma)
      (next ++ (back ++ trailing))
    simp only [List.cons_append, List.nil_append, List.append_assoc] at more ⊢
    rw [more]
    exact whole.congr (by simp)

theorem list_settled {opening closing : Token} (opens : opening.kind = .openBracket)
    (closes : closing.kind = .closeBracket) (parses : Parses n Form.content [node])
    (spelled : node.Spelled) :
    (Node.branch .list [.leaf opening, node, .leaf closing]).Settled := by
  have settles : Settles node.tokens
      (Node.branch .list [.leaf opening, node, .leaf closing]).lower := by
    rcases content_cases parses with expression | ⟨items, hItems, rfl⟩
    · rw [Node.lower]
      · exact (inner expression spelled).bind_ok fun item => ⟨_, rfl⟩
      · exact ne_sequence_of_expression expression
    · rw [Node.lower, Node.tokens_branch]
      exact (items_settle inner hItems fun node => spelled.child).bind_ok fun items => ⟨_, rfl⟩
  simpa [Node.Settled] using (settles.concat (t := closing) (by simp [closes])).cons (t := opening)
    (by simp [opens])

theorem braces_settled {opening closing : Token} (opens : opening.kind = .openBrace)
    (closes : closing.kind = .closeBrace) (parses : Parses n (.symbol .fields) [node])
    (spelled : node.Spelled) :
    (Node.branch .braces [.leaf opening, node, .leaf closing]).Settled := by
  obtain ⟨parts, hParts, same⟩ := parses_fields.1 parses
  cases same
  have settles := (fields_settle inner hParts fun node => spelled.child).bind_ok
    fun fields => ⟨Expr.object fields, rfl⟩
  rw [Node.Settled, Node.lower]
  exact ((settles.concat (t := closing) (by simp [closes])).cons (t := opening)
    (by simp [opens])).congr (by simp)

theorem atom_settled (parses : Parses n (.symbol .atom) [node]) (spelled : node.Spelled) :
    node.Settled := by
  have empty {rule : Rule} {opening closing : Token} {e : Expr} (opens : opening.kind ≠ .float)
      (closes : closing.kind ≠ .float)
      (lowers : (Node.branch rule [.leaf opening, .leaf closing]).lower = .ok e) :
      (Node.branch rule [.leaf opening, .leaf closing]).Settled := by
    rw [Node.Settled, lowers]
    exact .value (List.find?_eq_none.2 (by simp [Token.not_unreadable, opens, closes]))
  rcases parses_atom.1 parses with ⟨t, simple, same⟩ | ⟨dot, name, kind, word, same⟩ | parens |
    list | braces
  · cases same
    exact Node.settled_leaf simple spelled
  · cases same
    have noFloat : name.kind ≠ .float := by
      intro float
      rw [float] at word
      exact absurd word (by decide)
    exact empty (by simp [kind]) noFloat (by rw [Node.lower])
  · obtain ⟨first, content, last, opens, closes, rfl | hContent, same⟩ := parses_enclosed.1 parens
    · cases same
      exact empty (e := .tuple []) (by simp [opens]) (by simp [closes]) (by simp [Node.lower])
    · obtain ⟨items, -, rfl⟩ := parses_content.1 hContent
      cases same
      have settled := content_settled inner hContent (spelled.child (by simp))
      rw [Node.Settled, List.singleton_append, Node.lower]
      simpa using (settled.concat (t := last) (by simp [closes])).cons (t := first)
        (by simp [opens])
  · obtain ⟨first, content, last, opens, closes, rfl | hContent, same⟩ := parses_enclosed.1 list
    · cases same
      exact empty (e := .array []) (by simp [opens]) (by simp [closes]) (by simp [Node.lower])
    · obtain ⟨items, -, rfl⟩ := parses_content.1 hContent
      cases same
      exact list_settled inner opens closes hContent (spelled.child (by simp))
  · obtain ⟨first, content, last, opens, closes, rfl | hContent, same⟩ := parses_enclosed.1 braces
    · cases same
      exact empty (e := .object []) (by simp [opens]) (by simp [closes]) (by simp [Node.lower])
    · obtain ⟨parts, -, rfl⟩ := parses_fields.1 hContent
      cases same
      exact braces_settled inner opens closes hContent (spelled.child (by simp))

theorem access_settled (parses : Parses n (.symbol .access) [node]) (spelled : node.Spelled) :
    node.Settled := by
  obtain ⟨front, trailers, hAtom, hTrailers, same⟩ := parses_access.1 parses
  obtain ⟨atom, rfl⟩ := parses_single (by simp) hAtom
  cases same
  have settled : Settles atom.tokens atom.lower :=
    atom_settled inner hAtom (spelled.child (by simp))
  have all := hTrailers.mem_many (parses_single (by simp))
  rw [Node.Settled, List.singleton_append, Node.lower, Node.tokens_branch, Node.tokensOf_cons]
  exact settled.bind fun object => Node.settles_trailers object fun trailer member =>
    trailer_settles inner (all trailer member) (spelled.child (by simp [member]))

theorem signed_settled (parses : Parses n (.symbol .signed) [node]) (spelled : node.Spelled) :
    node.Settled := by
  rcases parses_signed.1 parses with ⟨t, nodes, kind, hOperand, same⟩ | access
  · obtain ⟨operand, rfl, expression⟩ := parses_expression_of_deeper (k := 6) hOperand
    cases same
    have settled : Settles operand.tokens operand.lower :=
      inner expression (spelled.child (by simp))
    have noFloat : t.kind ≠ .float := by
      intro float
      rw [float] at kind
      exact absurd kind (by decide)
    rw [Node.Settled, Node.lower]
    exact ((settled.bind_ok fun e => ⟨_, rfl⟩).cons noFloat).congr (by simp)
  · exact access_settled inner access spelled

omit inner in
theorem operator_operates {tier : Tier} {operators : List Node}
    (parses : Parses n tier.operator operators) :
    ∃ symbol, operators = [symbol] ∧ symbol.Operates tier := by
  rcases operator_cases parses with ⟨t, member, rfl⟩ | ⟨comparison, t, u, isNot, isIn, rfl⟩
  · have known : (Operator.ofKind? t.kind).isSome ∧ t.kind ≠ .float := by
      revert member
      cases tier <;> cases t.kind <;> decide
    obtain ⟨op, isOp⟩ := Option.isSome_iff_exists.1 known.1
    refine ⟨_, rfl, ?_, fun left right => ⟨.binary op left right, ?_⟩, fun _ => ⟨t, op, rfl, isOp⟩⟩
    · exact List.find?_eq_none.2 (by simp [Token.not_unreadable known.2])
    · rw [Node.compared, isOp]
  · refine ⟨_, rfl, ?_, fun left right => ⟨.not (.binary .member left right), ?_⟩,
      fun other => absurd comparison other⟩
    · exact List.find?_eq_none.2 (by simp [Token.not_unreadable, isNot, isIn])
    · rw [Node.compared]

omit inner in
theorem operations_of_more {tier : Tier} {nodes : List Node}
    (operand : ∀ {node : Node}, Parses n (.symbol tier.operand) [node] → node.Spelled →
      node.Settled)
    (parses : Parses n tier.more nodes) (spelled : ∀ node ∈ nodes, node.Spelled) :
    Node.Operations tier nodes := by
  revert spelled
  refine parses.many_induction (motive := fun nodes => (∀ node ∈ nodes, node.Spelled) →
    Node.Operations tier nodes) (fun _ => .none) ?_
  intro front back hFront _ ih spelled
  obtain ⟨operators, right, hOperator, hRight, rfl⟩ := parses_both.1 hFront
  obtain ⟨symbol, rfl, operates⟩ := operator_operates hOperator
  obtain ⟨right, rfl⟩ := parses_single tier.operand_ne_expressions hRight
  exact .more operates (operand hRight (spelled right (by simp))) (ih fun node member =>
    spelled node (by simp [member]))

omit inner in
theorem chain_settled {tier : Tier}
    (operand : ∀ {node : Node}, Parses n (.symbol tier.operand) [node] → node.Spelled →
      node.Settled)
    (parses : Parses n (.symbol (.chain tier)) [node]) (spelled : node.Spelled) :
    node.Settled := by
  obtain ⟨first, more, hFirst, hMore, same⟩ := parses_chain.1 parses
  cases same
  cases more with
  -- without an operator the operand stands for itself
  | nil => exact operand hFirst spelled
  | cons symbol more =>
    have left : Settles first.tokens first.lower := operand hFirst (spelled.child (by simp))
    have operations := operations_of_more operand hMore fun node member =>
      spelled.child (List.mem_cons_of_mem first member)
    change (Node.branch tier.rule (first :: symbol :: more)).Settled
    rw [Node.Settled, Node.tokens_branch, Node.tokensOf_cons]
    cases tier with
    | comparison =>
      rw [Tier.rule, Node.lower]
      exact left.bind fun object => Node.settles_conjunction operations object
    | disjunction | conjunction | sum | product =>
      rw [Tier.rule, Node.lower]
      exact left.bind fun object => Node.settles_chain operations (by decide) object

theorem negation_settled (parses : Parses n (.symbol .negation) [node]) (spelled : node.Spelled) :
    node.Settled := by
  rcases parses_negation.1 parses with ⟨t, nodes, kind, hOperand, same⟩ | comparison
  · obtain ⟨operand, rfl, expression⟩ := parses_expression_of_deeper (k := 2) hOperand
    cases same
    have settled : Settles operand.tokens operand.lower :=
      inner expression (spelled.child (by simp))
    rw [Node.Settled, Node.lower]
    exact ((settled.bind_ok fun e => ⟨Expr.not e, rfl⟩).cons (t := t) (by simp [kind])).congr (by simp)
  · exact chain_settled (chain_settled (chain_settled (signed_settled inner))) comparison spelled

theorem disjunction_settled (parses : Parses n (.symbol (.chain .disjunction)) [node])
    (spelled : node.Spelled) : node.Settled :=
  chain_settled (chain_settled (negation_settled inner)) parses spelled

end Level

theorem expression_settled {n : Nat} {node : Node} (parses : Parses n (.symbol .expression) [node])
    (spelled : node.Spelled) : node.Settled := by
  induction n generalizing node with
  | zero =>
    obtain ⟨m, levels, -⟩ := parses_expression.1 parses
    cases levels
  | succ n ih =>
    obtain ⟨m, levels, disjunction⟩ := parses_expression.1 parses
    cases levels
    exact disjunction_settled ih disjunction spelled

def Node.BindsNames (tree : Node) : Prop :=
  ∀ children, (Node.branch .binding children).Within tree →
    ∃ t later, t.kind = .name ∧ children = .branch .access [.leaf t] :: later

theorem Node.bindsNames_leaf (t : Token) : (leaf t).BindsNames := by
  intro children inside
  cases inside

theorem Node.bindsNames_branch {rule : Rule} {children : List Node}
    (own : rule = .binding →
      ∃ t later, t.kind = .name ∧ children = .branch .access [.leaf t] :: later)
    (all : ∀ child ∈ children, child.BindsNames) : (branch rule children).BindsNames := by
  intro parts inside
  cases inside with
  | root => exact own rfl
  | child member inside => exact all _ member parts inside

theorem Node.bindsNames_collapse {rule : Rule} (other : rule ≠ .binding) {children : List Node}
    (all : ∀ child ∈ children, child.BindsNames) : (collapse rule children).BindsNames := by
  match children, all with
  | [only], all => exact all only (by simp)
  | [], all | _ :: _ :: _, all => exact bindsNames_branch (fun same => absurd same other) all

namespace Grammar

def Form.bindsNames : Form → Bool
  | .one _ | .symbol _ => true
  | .both f g | .either f g => f.bindsNames && g.bindsNames
  | .optional f | .many f | .deeper f => f.bindsNames
  | .branch .binding (.both (.branch .access (.one [.name])) g) => g.bindsNames
  | .branch .binding _ => false
  | .branch _ f => f.bindsNames
  | .collapse rule f => rule != .binding && f.bindsNames

theorem Symbol.rule_bindsNames (s : Symbol) : s.rule.bindsNames = true := by
  cases s with
  | chain tier => cases tier <;> rfl
  | _ => rfl

theorem Parses.bindsNames {n : Nat} {f : Form} {nodes : List Node} (h : Parses n f nodes)
    (binds : f.bindsNames = true) : ∀ node ∈ nodes, node.BindsNames := by
  induction h with
  | one _ => exact List.forall_mem_singleton.2 (Node.bindsNames_leaf _)
  | symbol _ ih => exact ih (Symbol.rule_bindsNames _)
  | both _ _ ihFront ihBack =>
    rw [Form.bindsNames, Bool.and_eq_true] at binds
    exact List.forall_mem_append.2 ⟨ihFront binds.1, ihBack binds.2⟩
  | first _ ih =>
    rw [Form.bindsNames, Bool.and_eq_true] at binds
    exact ih binds.1
  | second _ ih =>
    rw [Form.bindsNames, Bool.and_eq_true] at binds
    exact ih binds.2
  | absent | done => simp
  | again _ _ ihHead ihTail => exact List.forall_mem_append.2 ⟨ihHead binds, ihTail binds⟩
  | present _ ih | deeper _ ih => exact ih binds
  | @branch n rule f nodes parses ih =>
    rw [List.forall_mem_singleton]
    rw [Form.bindsNames.eq_def] at binds
    split at binds
    case h_8 same =>
      cases same
      obtain ⟨_, back, hAccess, -, rfl⟩ := parses_both.1 parses
      obtain ⟨_, hName, rfl⟩ := parses_branch.1 hAccess
      obtain ⟨t, kind, rfl⟩ := parses_one.1 hName
      refine Node.bindsNames_branch (fun _ => ⟨t, back, List.mem_singleton.1 kind, rfl⟩) (ih ?_)
      rw [Form.bindsNames, Bool.and_eq_true]
      exact ⟨rfl, binds⟩
    case h_10 other same =>
      cases same
      exact Node.bindsNames_branch (fun same => absurd same other) (ih binds)
    all_goals simp_all
  | collapse _ ih =>
    rw [Form.bindsNames, Bool.and_eq_true, bne_iff_ne] at binds
    exact List.forall_mem_singleton.2 (Node.bindsNames_collapse binds.1 (ih binds.2))

end Grammar

theorem Node.lowerQuery_eq (items : List Node) (last : Node) :
    (branch .query [branch .sequence items, last]).lowerQuery = (collapse .sequence items).lower := by
  rcases items with _ | ⟨only, _ | ⟨second, later⟩⟩ <;> rw [lowerQuery] <;> simp [collapse]

theorem query_settles {source : String} {tree : Node} (read : parseQuery source = .ok tree) :
    Settles tree.tokens tree.lowerQuery := by
  obtain ⟨items, last, rfl, hItems, spells⟩ := query_spelled read
  obtain ⟨parses, -⟩ := parseQuery_sound (tokenize_of_parseQuery read) read
  obtain ⟨_, _, -, kind, same⟩ := parses_query.1 parses
  cases same
  have settled : (Node.collapse .sequence items).Settled :=
    content_settled expression_settled (parses_content.2 ⟨items, hItems, rfl⟩) fun t member =>
      spells.lexemes t (by simpa using member)
  rw [Node.lowerQuery_eq]
  exact (settled.concat (t := last) (by simp [kind])).congr (by simp)

theorem argumentList_settles {source : String} {tree : Node}
    (read : parseArguments source = .ok tree) :
    Settles tree.tokens tree.lowerArgumentList := by
  obtain ⟨rfl | parses, last, kind, tokenized⟩ := parseArguments_sound read
  · rw [Node.lowerArgumentList, Node.children, Node.lowerArguments]
    exact .value rfl
  · obtain ⟨items, hItems, same⟩ := parses_arguments.1 parses
    cases same
    obtain ⟨body, ending, same, spelled, -⟩ := spells_of_tokenize tokenized
    obtain ⟨rfl, -⟩ := List.append_inj' same rfl
    have all : (Node.branch .arguments items).Spelled := spelled.lexemes
    rw [Node.tokens_branch]
    exact arguments_settle expression_settled hItems fun node => all.child

theorem bindsNames_of_parseQuery {source : String} {tree : Node}
    (read : parseQuery source = .ok tree) : tree.BindsNames := by
  obtain ⟨parses, -⟩ := parseQuery_sound (tokenize_of_parseQuery read) read
  exact parses.bindsNames (f := .symbol .query) rfl tree (by simp)

theorem bindsNames_of_parseArguments {source : String} {tree : Node}
    (read : parseArguments source = .ok tree) : tree.BindsNames := by
  obtain ⟨rfl | parses, -⟩ := parseArguments_sound read
  · exact Node.bindsNames_branch (fun same => by cases same) (by simp)
  · exact parses.bindsNames (f := .symbol .arguments) rfl tree (by simp)

namespace Settles

variable {α : Type} {ts : List Token} {x : Except Fault α}

theorem located (h : Settles ts x) (source : String) (last : List Token)
    (readable : last.find? Token.unreadable = none) :
    match (ts ++ last).find? Token.unreadable with
    | none => ∃ a, locate source x = .ok a
    | some t => locate source x = .error (t.floatFault.within source) := by
  rw [List.find?_append, readable, Option.or_none]
  cases h with
  | value none =>
    rw [none]
    exact ⟨_, rfl⟩
  | fault first =>
    rw [first]
    rfl

end Settles

/-- A text that is read is lowered, unless a float literal in it is no number; then the first such
literal is the fault. Named arguments never lack their name. -/
theorem lowering_fails_only_at_float (source : String) :
    (∀ tree, parseQuery source = .ok tree → tree.BindsNames ∧
      ∃ tokens, tokenize source = .ok tokens ∧
        match tokens.find? Token.unreadable with
        | none => ∃ e, Expr.parse source = .ok e
        | some t => Expr.parse source = .error (t.floatFault.within source)) ∧
    (∀ tree, parseArguments source = .ok tree → tree.BindsNames ∧
      ∃ tokens, tokenize source = .ok tokens ∧
        match tokens.find? Token.unreadable with
        | none => ∃ arguments, Expr.parseArguments source = .ok arguments
        | some t => Expr.parseArguments source = .error (t.floatFault.within source)) := by
  constructor
  · intro tree read
    have settles := (query_settles read).located source [] rfl
    rw [List.append_nil] at settles
    refine ⟨bindsNames_of_parseQuery read, tree.tokens, tokenize_of_parseQuery read, ?_⟩
    rw [Expr.parse, read]
    exact settles
  · intro tree read
    obtain ⟨-, last, kind, tokenized⟩ := parseArguments_sound read
    have settles := (argumentList_settles read).located source [last]
      (List.find?_eq_none.2 (by simp [Token.not_unreadable, kind]))
    refine ⟨bindsNames_of_parseArguments read, _, tokenized, ?_⟩
    rw [Expr.parseArguments, read]
    exact settles

/-- An exponent behind an exponent is scanned with the same literal. -/
theorem lowering_fails_only_at_float_exponents :
    (∃ tree, parseQuery "-1e5e5" = .ok tree ∧ tree.BindsNames) ∧
      Expr.parse "-1e5e5" = .error ⟨.invalidFloat "1e5e5", 1, ⟨1, 2⟩⟩ ∧
      (∃ tree, parseArguments "k=1" = .ok tree ∧ tree.BindsNames) ∧
      ∃ arguments, Expr.parseArguments "k=1" = .ok arguments := by
  have read : parseQuery "-1e5e5" = .ok (.branch .query [.branch .sequence [.branch .signed
      [.leaf ⟨.minus, "-", 0⟩, .branch .access [.leaf ⟨.float, "1e5e5", 1⟩]]],
      .leaf ⟨.endOfInput, "", 6⟩]) := by cbv
  have readNamed : parseArguments "k=1" = .ok (.branch .arguments [.branch .binding
      [.branch .access [.leaf ⟨.name, "k", 0⟩], .leaf ⟨.assign, "=", 1⟩,
        .branch .access [.leaf ⟨.integer, "1", 2⟩]]]) := by rfl
  obtain ⟨binds, tokens, tokenized, outcome⟩ := (lowering_fails_only_at_float _).1 _ read
  obtain ⟨bindsNamed, others, tokenizedNamed, outcomeNamed⟩ :=
    (lowering_fails_only_at_float _).2 _ readNamed
  rw [tokenize_of_parseQuery read, Except.ok.injEq] at tokenized
  have unreadable : (⟨.float, "1e5e5", 1⟩ : Token).unreadable = true := by rfl
  have named : tokenize "k=1" = .ok [⟨.name, "k", 0⟩, ⟨.assign, "=", 1⟩, ⟨.integer, "1", 2⟩,
    ⟨.endOfInput, "", 3⟩] := by rfl
  rw [named, Except.ok.injEq] at tokenizedNamed
  subst tokenized tokenizedNamed
  refine ⟨⟨_, read, binds⟩, ?_, ⟨_, readNamed, bindsNamed⟩, outcomeNamed⟩
  simp only [Node.tokens_branch, Node.tokens_leaf, Node.tokensOf_cons, Node.tokensOf_nil,
    List.cons_append, List.nil_append] at outcome
  rw [List.find?_cons_of_neg (by simp [Token.not_unreadable]),
    List.find?_cons_of_pos unreadable] at outcome
  exact outcome

end RecordPipeline
