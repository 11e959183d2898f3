import RecordPipeline.Proofs.Grammar
import RecordPipeline.Proofs.Grammar.Steps

/-!
The parser reads every tree of the grammar back from the tokens that the tree spells, whatever comes
behind them, as long as it cannot belong to the tree. What can belong to what is measured by the
looseness of a token: a trailer binds an atom, an operator everything that is tighter.
-/

namespace RecordPipeline

/-- From what binds an atom, over the operators from the tightest on and the sign behind the name of
an argument, to what ends an item of a list. -/
def TokenKind.looseness : TokenKind → Nat
  | openParen | openBracket | dot => 0
  | star | slash | percent => 1
  | plus | minus => 2
  | equal | notEqual | less | greater | lessEqual | greaterEqual | inWord | notWord => 3
  | andWord => 4
  | orWord => 5
  | assign => 6
  | _ => 7

namespace Grammar

open RecordPipeline.TokenStream RecordPipeline.Parser

def Tier.looseness : Tier → Nat
  | product => 1
  | sum => 2
  | comparison => 3
  | conjunction => 4
  | disjunction => 5

/-- What follows is too loose to belong to a phrase of looseness `k`. -/
def Stops (k : Nat) (rest : List Token) : Prop :=
  ∃ t later, rest = t :: later ∧ k < t.kind.looseness

theorem Stops.ne_nil {k : Nat} {rest : List Token} (h : Stops k rest) : rest ≠ [] := by
  obtain ⟨t, later, rfl, _⟩ := h
  exact List.cons_ne_nil t later

theorem Stops.mono {k l : Nat} {rest : List Token} (h : Stops l rest) (le : k ≤ l) :
    Stops k rest := by
  obtain ⟨t, later, same, lt⟩ := h
  exact ⟨t, later, same, by omega⟩

theorem stops_of_kind {k : Nat} {kind : TokenKind} {t : Token} {later : List Token}
    (same : t.kind = kind) (lt : k < kind.looseness) : Stops k (t :: later) :=
  ⟨t, later, rfl, by rw [same]; exact lt⟩

def StartsAmong (kinds : List TokenKind) (node : Node) : Prop :=
  ∃ t later, node.tokens = t :: later ∧ t.kind ∈ kinds

namespace Symbol

def atomStarts : List TokenKind :=
  simpleAtoms ++ [.dot, .openParen, .openBracket, .openBrace]

def signedStarts : List TokenKind :=
  [.minus, .plus] ++ atomStarts

def negationStarts : List TokenKind :=
  .notWord :: signedStarts

end Symbol

open RecordPipeline.Grammar.Symbol (atomStarts signedStarts negationStarts)

theorem StartsAmong.mono {kinds more : List TokenKind} {node : Node}
    (h : StartsAmong kinds node) (sub : kinds ⊆ more) : StartsAmong more node := by
  obtain ⟨t, later, spelled, member⟩ := h
  exact ⟨t, later, spelled, sub member⟩

variable {n : Nat} {node : Node}

theorem atom_starts (h : Parses n (.symbol .atom) [node]) : StartsAmong atomStarts node := by
  rw [parses_symbol, Symbol.rule] at h
  simp only [Form.enclosed, parses_either, parses_branch, parses_both, parses_one] at h
  rcases h with h | h | h | h | h
  · obtain ⟨t, member, same⟩ := h
    cases same
    exact ⟨t, [], by simp, List.mem_append_left _ member⟩
  all_goals
    obtain ⟨_, ⟨_, _, ⟨t, kind, rfl⟩, _, rfl⟩, same⟩ := h
    cases same
    refine ⟨t, _, by simp; rfl, ?_⟩
    simp only [List.mem_singleton] at kind
    simp [Symbol.atomStarts, kind]

theorem access_starts (h : Parses n (.symbol .access) [node]) : StartsAmong atomStarts node := by
  obtain ⟨first, more, hFirst, -, same⟩ := parses_access.1 h
  obtain ⟨atom, rfl⟩ := parses_single (by simp) hFirst
  obtain ⟨t, later, spelled, member⟩ := atom_starts hFirst
  cases same
  exact ⟨t, _, by simp [spelled]; rfl, member⟩

theorem signed_starts (h : Parses n (.symbol .signed) [node]) : StartsAmong signedStarts node := by
  rcases parses_signed.1 h with ⟨t, operand, member, -, same⟩ | h
  · cases same
    exact ⟨t, _, by simp; rfl, List.mem_append_left _ member⟩
  · exact (access_starts h).mono (List.subset_append_right _ _)

theorem chain_starts {tier : Tier} {kinds : List TokenKind}
    (operand : ∀ node, Parses n (.symbol tier.operand) [node] → StartsAmong kinds node)
    (h : Parses n (.symbol (.chain tier)) [node]) : StartsAmong kinds node := by
  obtain ⟨first, more, hFirst, -, same⟩ := parses_chain.1 h
  obtain ⟨t, later, spelled, member⟩ := operand first hFirst
  cases same
  exact ⟨t, _, by simp [spelled]; rfl, member⟩

theorem comparison_starts (h : Parses n (.symbol (.chain .comparison)) [node]) :
    StartsAmong signedStarts node :=
  chain_starts (fun _ => chain_starts fun _ => chain_starts fun _ => signed_starts) h

theorem negation_starts (h : Parses n (.symbol .negation) [node]) :
    StartsAmong negationStarts node := by
  rcases parses_negation.1 h with ⟨t, operand, kind, -, same⟩ | h
  · cases same
    exact ⟨t, _, by simp; rfl, by simp [Symbol.negationStarts, kind]⟩
  · exact (comparison_starts h).mono (List.subset_cons_self _ _)

theorem disjunction_starts (h : Parses n (.symbol (.chain .disjunction)) [node]) :
    StartsAmong negationStarts node :=
  chain_starts (fun _ => chain_starts fun _ => negation_starts) h

theorem expression_starts (h : Parses n (.symbol .expression) [node]) :
    StartsAmong negationStarts node := by
  obtain ⟨m, rfl, inner⟩ := parses_expression.1 h
  exact disjunction_starts inner

/-- The parser gives back every tree of the form in front of what stops it. -/
def Completes (p : Parser Node) (n : Nat) (f : Form) (k : Nat) : Prop :=
  ∀ ⦃node rest⦄, Parses n f [node] → Stops k rest →
    p (ofTokens (node.tokens ++ rest)) = (.ok node, ofTokens rest)

structure CompletesOperator (operator : Parser (Option Node)) (tier : Tier) : Prop where
  reads : ∀ ⦃n nodes rest⦄, Parses n tier.operator nodes → rest ≠ [] →
    ∃ symbol, nodes = [symbol] ∧
      operator (ofTokens (symbol.tokens ++ rest)) = (.ok (some symbol), ofTokens rest)
  stops : ∀ ⦃rest⦄, Stops tier.looseness rest →
    operator (ofTokens rest) = (.ok none, ofTokens rest)

theorem operator_starts {tier : Tier} {nodes : List Node} (h : Parses n tier.operator nodes) :
    ∃ t later, Node.tokensOf nodes = t :: later ∧ t.kind.looseness = tier.looseness := by
  rcases operator_cases h with ⟨t, member, rfl⟩ | ⟨rfl, t, u, isNot, -, rfl⟩
  · have same : ∀ kind ∈ tier.kinds, kind.looseness = tier.looseness := by cases tier <;> decide
    exact ⟨t, [], by simp, same _ member⟩
  · exact ⟨t, _, by simp; rfl, by simp [isNot, TokenKind.looseness, Tier.looseness]⟩

theorem stops_more {tier : Tier} {nodes : List Node} {rest : List Token}
    (h : Parses n tier.more nodes) (stops : Stops tier.looseness rest) :
    Stops (tier.looseness - 1) (Node.tokensOf nodes ++ rest) := by
  refine h.many_induction
    (motive := fun nodes => Stops (tier.looseness - 1) (Node.tokensOf nodes ++ rest)) ?_ ?_
  · simpa using stops.mono (Nat.sub_le _ _)
  · intro front back hFront _ _
    obtain ⟨symbol, right, hSymbol, -, rfl⟩ := parses_both.1 hFront
    obtain ⟨t, later, spelled, looseness⟩ := operator_starts hSymbol
    refine ⟨t, _, by simp [spelled]; rfl, ?_⟩
    have positive : 0 < tier.looseness := by cases tier <;> decide
    omega

theorem chainMore_completes {tier : Tier} {operator : Parser (Option Node)} {operand : Parser Node}
    (operators : CompletesOperator operator tier)
    (operands : Completes operand n (.symbol tier.operand) (tier.looseness - 1))
    {nodes : List Node} (h : Parses n tier.more nodes) {rest : List Token}
    (stops : Stops tier.looseness rest) (bound : List Token)
    (enough : (Node.tokensOf nodes).length ≤ bound.length) :
    chainMore operator operand bound (ofTokens (Node.tokensOf nodes ++ rest)) =
      (.ok nodes, ofTokens rest) := by
  revert bound
  refine h.many_induction
    (motive := fun nodes => ∀ bound : List Token, (Node.tokensOf nodes).length ≤ bound.length →
      chainMore operator operand bound (ofTokens (Node.tokensOf nodes ++ rest)) =
        (.ok nodes, ofTokens rest)) ?_ ?_
  · intro bound _
    cases bound with
    | nil => rfl
    | cons _ bound =>
      simp only [Node.tokensOf_nil, List.nil_append, chainMore]
      rw [bind_of_ok (operators.stops stops)]
      rfl
  · intro front back hFront hBack ih bound enough
    obtain ⟨_, rights, hSymbol, hRight, rfl⟩ := parses_both.1 hFront
    obtain ⟨right, rfl⟩ := parses_single tier.operand_ne_expressions hRight
    obtain ⟨t, later, spelled, -⟩ := operator_starts hSymbol
    have behind := stops_more hBack stops
    have more : right.tokens ++ (Node.tokensOf back ++ rest) ≠ [] := by simp [behind.ne_nil]
    obtain ⟨symbol, rfl, reads⟩ := operators.reads hSymbol more
    simp only [Node.tokensOf_cons, Node.tokensOf_nil, List.append_nil] at spelled
    cases bound with
    | nil => simp [spelled] at enough
    | cons _ bound =>
      have fewer : (Node.tokensOf back).length ≤ bound.length := by
        simp [spelled] at enough
        omega
      simp only [List.cons_append, List.nil_append, Node.tokensOf_cons, List.append_assoc,
        chainMore]
      rw [bind_of_ok reads]
      dsimp only
      rw [bind_of_ok (operands hRight behind), bind_of_ok (ih bound fewer)]
      rfl

theorem enough_later {front rest : List Token} (more : rest ≠ []) :
    front.length ≤ (ofTokens (front ++ rest)).later.length := by
  cases front with
  | nil => simp
  | cons t front =>
    have := List.length_pos_iff.2 more
    simp only [List.cons_append, later_ofTokens, List.length_append, List.length_cons]
    omega

theorem chain_completes {tier : Tier} {operator : Parser (Option Node)} {operand : Parser Node}
    (operators : CompletesOperator operator tier)
    (operands : Completes operand n (.symbol tier.operand) (tier.looseness - 1)) :
    Completes (chain tier.rule operator operand) n (.symbol (.chain tier)) tier.looseness := by
  intro node rest h stops
  obtain ⟨first, more, hFirst, hMore, same⟩ := parses_chain.1 h
  cases same
  simp only [Node.tokens_collapse, Node.tokensOf_cons, List.append_assoc, chain]
  rw [bind_of_ok (operands hFirst (stops_more hMore stops)), bounded_bind,
    bind_of_ok (chainMore_completes operators operands hMore stops _ (enough_later stops.ne_nil))]
  rfl

def closings : List TokenKind :=
  [.endOfInput, .closeParen, .closeBracket, .closeBrace]

def ClosedBy (closing : TokenKind) (rest : List Token) : Prop :=
  ∃ t later, rest = t :: later ∧ t.kind = closing

theorem ClosedBy.stops {closing : TokenKind} {rest : List Token} (h : ClosedBy closing rest)
    (closes : closing ∈ closings) : Stops 6 rest := by
  obtain ⟨t, later, rfl, kind⟩ := h
  have loosest : ∀ kind ∈ closings, 6 < kind.looseness := by decide
  exact stops_of_kind kind (loosest closing closes)

/-- The rest of a list with commas: commas and items, and then a comma or none. -/
structure ListRest (n : Nat) (f : Form) (nodes : List Node) : Prop where
  split : ∃ more trailing, Parses n (.many (.both (.one [.comma]) f)) more ∧
    (trailing = [] ∨ ∃ t, t.kind = .comma ∧ trailing = [.leaf t]) ∧ nodes = more ++ trailing

theorem listRest_cases {f : Form} {nodes : List Node} (h : ListRest n f nodes) :
    nodes = [] ∨ (∃ t, t.kind = .comma ∧ nodes = [.leaf t]) ∨
      ∃ t item back, t.kind = .comma ∧ Parses n f item ∧ ListRest n f back ∧
        nodes = .leaf t :: item ++ back := by
  obtain ⟨more, trailing, hMore, hTrailing, rfl⟩ := h.split
  cases hMore with
  | done => exact hTrailing.imp id .inl
  | again head tail =>
    obtain ⟨_, item, hComma, hItem, rfl⟩ := parses_both.1 head
    obtain ⟨t, kind, rfl⟩ := parses_one.1 hComma
    exact .inr (.inr ⟨t, item, _, by simpa using kind, hItem, ⟨_, trailing, tail, hTrailing, rfl⟩,
      by simp⟩)

theorem ListRest.stops {f : Form} {nodes : List Node} (h : ListRest n f nodes)
    {closing : TokenKind} {rest : List Token} (closed : ClosedBy closing rest)
    (closes : closing ∈ closings) : Stops 6 (Node.tokensOf nodes ++ rest) := by
  rcases listRest_cases h with rfl | ⟨t, comma, rfl⟩ | ⟨t, item, back, comma, -, -, rfl⟩
  · simpa using closed.stops closes
  all_goals exact stops_of_kind comma (by decide)

theorem take_comma {t : Token} (kind : t.kind = .comma) {rest : List Token} (more : rest ≠ []) :
    take (ofTokens (t :: rest)) = (.ok (.leaf t), ofTokens rest) :=
  take_ofTokens (by simp [kind]) more

theorem itemsMore_completes {item : Parser Node} {f : Form} {closing : TokenKind}
    (closes : closing ∈ closings) (items : Completes item n f 6)
    (single : ∀ {nodes}, Parses n f nodes → ∃ node, nodes = [node])
    (starts : ∀ {node}, Parses n f [node] → StartsAmong negationStarts node)
    {rest : List Token} (closed : ClosedBy closing rest) (bound : List Token) {nodes : List Node}
    (h : ListRest n f nodes) (enough : (Node.tokensOf nodes).length ≤ bound.length) :
    itemsMore closing item bound (ofTokens (Node.tokensOf nodes ++ rest)) =
      (.ok nodes, ofTokens rest) := by
  have noComma : ∀ kind ∈ closings, kind ≠ .comma := by decide
  have noStart : ∀ kind ∈ negationStarts, kind ∉ closings := by decide
  induction bound generalizing nodes with
  | nil =>
    have empty : Node.tokensOf nodes = [] := List.length_eq_zero_iff.1 (Nat.le_zero.1 enough)
    rcases listRest_cases h with rfl | ⟨t, -, rfl⟩ | ⟨t, item, back, -, -, -, rfl⟩
    · rfl
    · simp at empty
    · simp at empty
  | cons _ bound ih =>
    obtain ⟨close, later, same, kind⟩ := closed
    rcases listRest_cases h with rfl | ⟨t, comma, rfl⟩ | ⟨t, item, back, comma, hItem, hBack, rfl⟩
    · simp [same, itemsMore, kind, noComma closing closes, pure_apply]
    · simp only [Node.tokensOf_cons, Node.tokens_leaf, Node.tokensOf_nil, List.append_nil,
        List.cons_append, List.nil_append, itemsMore, peek_bind, kind_ofTokens, comma, if_true]
      rw [bind_of_ok (take_comma comma (by simp [same]))]
      simp [same, kind, pure_apply]
    · obtain ⟨node, rfl⟩ := single hItem
      obtain ⟨first, after, spelled, member⟩ := starts hItem
      have notClosing : first.kind ≠ closing := by
        rintro rfl
        exact noStart _ member closes
      have stops : Stops 6 (Node.tokensOf back ++ rest) :=
        hBack.stops ⟨close, later, same, kind⟩ closes
      have fewer : (Node.tokensOf back).length ≤ bound.length := by
        simp at enough
        omega
      simp only [List.cons_append, List.nil_append, Node.tokensOf_cons, Node.tokens_leaf,
        List.append_assoc, itemsMore, peek_bind, kind_ofTokens, comma, if_true]
      rw [bind_of_ok (take_comma comma (by simp [same])), peek_bind]
      have front : (ofTokens (node.tokens ++ (Node.tokensOf back ++ rest))).kind = first.kind := by
        rw [spelled]
        rfl
      rw [front, if_neg notClosing, bind_of_ok (items hItem stops), bind_of_ok (ih hBack fewer)]
      rfl

theorem items_completes {item : Parser Node} {f : Form} {closing : TokenKind}
    (closes : closing ∈ closings) (complete : Completes item n f 6)
    (single : ∀ {nodes}, Parses n f nodes → ∃ node, nodes = [node])
    (starts : ∀ {node}, Parses n f [node] → StartsAmong negationStarts node)
    {rest : List Token} (closed : ClosedBy closing rest) {nodes : List Node}
    (h : Parses n (Form.commaList f) nodes) :
    items closing item (ofTokens (Node.tokensOf nodes ++ rest)) = (.ok nodes, ofTokens rest) := by
  obtain ⟨firsts, more, trailing, hFirst, hMore, hTrailing, rfl⟩ := parses_commaList.1 h
  obtain ⟨first, rfl⟩ := single hFirst
  have back : ListRest n f (more ++ trailing) := ⟨more, trailing, hMore, hTrailing, rfl⟩
  have stops : Stops 6 (Node.tokensOf (more ++ trailing) ++ rest) := back.stops closed closes
  simp only [List.singleton_append, Node.tokensOf_cons, List.append_assoc, items]
  rw [bind_of_ok (complete hFirst stops), bounded_bind, bind_of_ok (itemsMore_completes closes
    complete single starts closed _ back (enough_later (closed.stops closes).ne_nil))]
  rfl

theorem commaList_starts {f : Form} {kinds : List TokenKind}
    (single : ∀ {nodes}, Parses n f nodes → ∃ node, nodes = [node])
    (starts : ∀ {node}, Parses n f [node] → StartsAmong kinds node) {nodes : List Node}
    (h : Parses n (Form.commaList f) nodes) :
    ∃ t later, Node.tokensOf nodes = t :: later ∧ t.kind ∈ kinds := by
  obtain ⟨firsts, more, trailing, hFirst, -, -, rfl⟩ := parses_commaList.1 h
  obtain ⟨first, rfl⟩ := single hFirst
  obtain ⟨t, later, spelled, member⟩ := starts hFirst
  exact ⟨t, _, by simp [spelled]; rfl, member⟩

theorem items_not_closed {f : Form} {closing : TokenKind} (closes : closing ∈ closings)
    (single : ∀ {nodes}, Parses n f nodes → ∃ node, nodes = [node])
    (starts : ∀ {node}, Parses n f [node] → StartsAmong negationStarts node) {nodes : List Node}
    (h : Parses n (Form.commaList f) nodes) (rest : List Token) :
    (ofTokens (Node.tokensOf nodes ++ rest)).kind ≠ closing := by
  obtain ⟨t, later, spelled, member⟩ := commaList_starts single starts h
  have noStart : ∀ kind ∈ negationStarts, kind ∉ closings := by decide
  rw [spelled]
  rintro rfl
  exact noStart _ member closes

theorem Completes.mono {p : Parser Node} {f : Form} {k l : Nat} (h : Completes p n f k)
    (le : k ≤ l) : Completes p n f l :=
  fun _ _ parses stops => h parses (stops.mono le)

structure CompleteLevel (inner : Level) (n : Nat) : Prop where
  expression : Completes inner.expression n (.symbol .expression) 5
  negation : Completes inner.negation n (.deeper (.symbol .negation)) 3
  signed : Completes inner.signed n (.deeper (.symbol .signed)) 0

theorem expression_single {nodes : List Node} (h : Parses n (.symbol .expression) nodes) :
    ∃ node, nodes = [node] :=
  parses_single (by simp) h

theorem argument_single {nodes : List Node} (h : Parses n (.symbol .argument) nodes) :
    ∃ node, nodes = [node] :=
  parses_single (by simp) h

theorem argument_starts (h : Parses n (.symbol .argument) [node]) :
    StartsAmong negationStarts node := by
  rcases parses_argument.1 h with h | ⟨name, sign, bound, kind, -, -, same⟩
  · exact expression_starts h
  · cases same
    refine ⟨name, _, by simp; rfl, ?_⟩
    rw [kind]
    decide

theorem symbolAmong_completes (tier : Tier) (simple : tier.operator = .one tier.kinds)
    (looseness : ∀ kind, kind ∈ tier.kinds → kind.looseness = tier.looseness) :
    CompletesOperator (symbolAmong tier.kinds) tier where
  reads n nodes rest h more := by
    rw [simple] at h
    obtain ⟨t, member, rfl⟩ := parses_one.1 h
    have notEnd : t.kind ≠ .endOfInput := by
      intro same
      have := looseness _ member
      rw [same] at this
      cases tier <;> simp [TokenKind.looseness, Tier.looseness] at this
    refine ⟨_, rfl, ?_⟩
    rw [Node.tokens_leaf]
    exact symbolAmong_of_mem member notEnd more
  stops rest h := by
    obtain ⟨t, later, rfl, looser⟩ := h
    refine symbolAmong_of_not_mem fun member => ?_
    have := looseness _ member
    omega

theorem comparisonSymbol_completes : CompletesOperator comparisonSymbol .comparison where
  reads n nodes rest h more := by
    rcases operator_cases h with ⟨t, member, rfl⟩ | ⟨-, first, second, isNot, isIn, rfl⟩
    · have known : ∀ kind ∈ Tier.comparison.kinds,
          (kind.isRelational || kind == .inWord) = true ∧ kind ≠ .endOfInput := by decide
      obtain ⟨accepted, notEnd⟩ := known _ member
      refine ⟨_, rfl, ?_⟩
      simp only [Node.tokens_leaf, List.cons_append, List.nil_append, comparisonSymbol, peek_bind,
        kind_ofTokens, accepted, if_true]
      rw [bind_of_ok (take_ofTokens notEnd more)]
      rfl
    · refine ⟨_, rfl, ?_⟩
      have pair : peekPair .notWord .inWord (ofTokens (first :: second :: rest)) =
          (.ok true, ofTokens (first :: second :: rest)) := by
        simp [peekPair, nextKind?, isNot, isIn]
      simp only [List.cons_append, List.nil_append, Node.tokens_branch, Node.tokensOf_cons,
        Node.tokens_leaf, Node.tokensOf_nil, comparisonSymbol, peek_bind]
      rw [if_neg (by simp [isNot, TokenKind.isRelational]), bind_of_ok pair, if_pos rfl,
        bind_of_ok (take_ofTokens (by simp [isNot]) (List.cons_ne_nil _ _)),
        bind_of_ok (take_ofTokens (by simp [isIn]) more)]
      rfl
  stops rest h := by
    obtain ⟨t, later, rfl, looser⟩ := h
    have tight : ∀ kind : TokenKind, (kind.isRelational || kind == .inWord) = true ∨
        kind = .notWord → kind.looseness ≤ 3 := by
      intro kind
      cases kind <;> decide
    have refused : ¬((ofTokens (t :: later)).kind.isRelational ||
        (ofTokens (t :: later)).kind == .inWord) = true := by
      intro accepted
      have := tight t.kind (.inl accepted)
      simp only [Tier.looseness] at looser
      omega
    have notPair : t.kind ≠ .notWord := by
      intro same
      have := tight t.kind (.inr same)
      simp only [Tier.looseness] at looser
      omega
    have pair : peekPair .notWord .inWord (ofTokens (t :: later)) =
        (.ok false, ofTokens (t :: later)) := by
      simp [peekPair, notPair]
    simp only [comparisonSymbol, peek_bind]
    rw [if_neg refused, bind_of_ok pair]
    rfl

section Rules

variable {inner : Level} (complete : CompleteLevel inner n)
include complete

theorem argument_completes : Completes (argument inner) n (.symbol .argument) 6 := by
  intro node rest h stops
  have skipOffset {β : Type} (g : Nat → Parser β) (s : TokenStream) :
      (offset >>= g) s = g s.current.offset s := rfl
  rcases parses_argument.1 h with h | ⟨name, sign, bound, isName, assigns, hBound, same⟩
  · obtain ⟨t, later, rfl, looser⟩ := stops
    have notAssign : t.kind ≠ .assign := by
      intro same
      simp [same, TokenKind.looseness] at looser
    simp only [argument, skipOffset]
    rw [bind_of_ok (complete.expression h ⟨t, later, rfl, by omega⟩), peek_bind,
      kind_ofTokens, if_neg notAssign]
    rfl
  · cases same
    obtain ⟨m, rfl, -⟩ := parses_expression.1 hBound
    have behind : Stops 5 (sign :: (bound.tokens ++ rest)) := stops_of_kind assigns (by decide)
    have value := complete.expression (parses_expression_of_name (n := m) isName) behind
    have name? : (Node.branch .access [.leaf name]).bareName? = some name.text := by
      simp [Node.bareName?, isName]
    have after : bound.tokens ++ rest ≠ [] := by simp [stops.ne_nil]
    simp only [Node.tokens_branch, Node.tokensOf_cons, Node.tokens_leaf, Node.tokensOf_nil,
      List.append_nil, List.cons_append, List.nil_append, argument, skipOffset] at value ⊢
    rw [bind_of_ok value, peek_bind, kind_ofTokens, if_pos assigns, name?, if_neg (by simp),
      bind_of_ok (take_ofTokens (by simp [assigns]) after),
      bind_of_ok (complete.expression hBound (stops.mono (by decide)))]
    rfl

theorem argumentList_completes {closing : TokenKind} (closes : closing ∈ closings)
    {rest : List Token} (closed : ClosedBy closing rest) {node : Node}
    (h : Parses n (.symbol .arguments) [node]) :
    argumentList inner closing (ofTokens (node.tokens ++ rest)) = (.ok node, ofTokens rest) := by
  obtain ⟨content, hContent, same⟩ := parses_arguments.1 h
  cases same
  rw [argumentList, Node.tokens_branch, bind_of_ok (items_completes closes
    (argument_completes complete) argument_single argument_starts closed hContent)]
  rfl

theorem callTrailer_completes {node : Node} {rest : List Token} (more : rest ≠ [])
    (h : Parses n (Form.enclosed .trailer .openParen .closeParen (.symbol .arguments)) [node]) :
    callTrailer inner (ofTokens (node.tokens ++ rest)) = (.ok node, ofTokens rest) := by
  obtain ⟨first, content, last, opens, closes, hContent, same⟩ := parses_enclosed.1 h
  cases same
  rcases hContent with rfl | hContent
  · simp only [List.nil_append, Node.tokens_branch, Node.tokensOf_cons, Node.tokens_leaf,
      Node.tokensOf_nil, List.cons_append, callTrailer]
    rw [bind_of_ok (take_ofTokens (by simp [opens]) (List.cons_ne_nil _ _)), peek_bind,
      kind_ofTokens, if_pos closes, bind_of_ok (take_ofTokens (by simp [closes]) more)]
    rfl
  · obtain ⟨arguments, rfl⟩ := parses_single (by simp) hContent
    obtain ⟨items, hItems, same⟩ := parses_arguments.1 hContent
    cases same
    have closed : ClosedBy .closeParen (last :: rest) := ⟨last, rest, rfl, closes⟩
    have notClosed := items_not_closed (by decide : .closeParen ∈ closings) argument_single
      argument_starts hItems (last :: rest)
    have list := argumentList_completes complete (by decide) closed hContent
    simp only [Node.tokens_branch, Node.tokensOf_cons, Node.tokens_leaf, Node.tokensOf_nil,
      List.append_nil, List.cons_append, List.nil_append, List.append_assoc, callTrailer] at list ⊢
    rw [bind_of_ok (take_ofTokens (by simp [opens]) (by simp)), peek_bind, if_neg notClosed,
      bind_of_ok list,
      bind_of_ok (require_ofTokens _ closes (by decide) more)]
    rfl

theorem indexTrailer_completes {first last : Token} {index : Node} {rest : List Token}
    (more : rest ≠ []) (opens : first.kind = .openBracket) (closes : last.kind = .closeBracket)
    (h : Parses n (.symbol .expression) [index]) :
    indexTrailer inner (ofTokens (first :: (index.tokens ++ last :: rest))) =
      (.ok (.branch .trailer [.leaf first, index, .leaf last]), ofTokens rest) := by
  rw [indexTrailer, bind_of_ok (take_ofTokens (by simp [opens]) (by simp)),
    bind_of_ok (complete.expression h (stops_of_kind closes (by decide))),
    bind_of_ok (require_ofTokens _ closes (by decide) more)]
  rfl

omit complete in
theorem attributeName_completes {t : Token} {rest : List Token} (more : rest ≠ [])
    (word : t.kind ∈ Symbol.words) :
    attributeName (ofTokens (t :: rest)) = (.ok (.leaf t), ofTokens rest) := by
  have notEnd : t.kind ≠ .endOfInput := by
    intro same
    rw [same] at word
    revert word
    decide
  have known : [TokenKind.name, .andWord, .orWord, .notWord, .inWord, .trueWord, .falseWord,
      .nullWord].contains t.kind = true := List.contains_iff_mem.2 word
  rw [attributeName, peek_bind, kind_ofTokens, if_pos known, take_ofTokens notEnd more]

omit complete in
theorem attributeTrailer_completes {dot name : Token} {rest : List Token} (more : rest ≠ [])
    (kind : dot.kind = .dot) (word : name.kind ∈ Symbol.words) :
    attributeTrailer (ofTokens (dot :: name :: rest)) =
      (.ok (.branch .trailer [.leaf dot, .leaf name]), ofTokens rest) := by
  rw [attributeTrailer, bind_of_ok (take_ofTokens (by simp [kind]) (List.cons_ne_nil _ _)),
    bind_of_ok (attributeName_completes more word)]
  rfl

theorem trailers_completes {rest : List Token} (stops : Stops 0 rest) {nodes : List Node}
    (h : Parses n (.many (.symbol .trailer)) nodes) (bound : List Token)
    (enough : (Node.tokensOf nodes).length ≤ bound.length) :
    trailers inner bound (ofTokens (Node.tokensOf nodes ++ rest)) = (.ok nodes, ofTokens rest) := by
  revert bound
  refine h.many_induction
    (motive := fun nodes => ∀ bound : List Token, (Node.tokensOf nodes).length ≤ bound.length →
      trailers inner bound (ofTokens (Node.tokensOf nodes ++ rest)) =
        (.ok nodes, ofTokens rest)) ?_ ?_
  · intro bound _
    cases bound with
    | nil => rfl
    | cons _ bound =>
      obtain ⟨t, later, rfl, looser⟩ := stops
      simp only [Node.tokensOf_nil, List.nil_append, trailers, peek_bind, kind_ofTokens]
      generalize t.kind = kind at looser
      cases kind with
      | openParen | openBracket | dot => simp [TokenKind.looseness] at looser
      | _ => rfl
  · intro front back hFront _ ih bound enough
    have more : Node.tokensOf back ++ rest ≠ [] := by simp [stops.ne_nil]
    cases bound with
    | nil =>
      rcases parses_trailer.1 hFront with hCall | ⟨_, _, _, _, _, _, rfl⟩ | ⟨_, _, _, _, rfl⟩
      · obtain ⟨_, _, _, _, _, _, rfl⟩ := parses_enclosed.1 hCall
        simp at enough
      all_goals simp at enough
    | cons _ bound =>
      rcases parses_trailer.1 hFront with hCall |
        ⟨first, index, last, opens, closes, hIndex, rfl⟩ | ⟨dot, name, kind, word, rfl⟩
      · obtain ⟨first, content, last, opens, closes, hContent, rfl⟩ := parses_enclosed.1 hCall
        have call := callTrailer_completes complete more hCall
        simp only [Node.tokens_branch, Node.tokensOf_cons, Node.tokens_leaf, List.cons_append,
          List.nil_append, List.append_assoc, trailers, peek_bind, kind_ofTokens, opens] at call ⊢
        rw [bind_of_ok call, bind_of_ok (ih bound (by simp at enough; omega))]
        rfl
      · simp only [Node.tokens_branch, Node.tokensOf_cons, Node.tokens_leaf, Node.tokensOf_nil,
          List.cons_append, List.nil_append, List.append_assoc, trailers, peek_bind, kind_ofTokens,
          opens]
        rw [bind_of_ok (indexTrailer_completes complete more opens closes hIndex),
          bind_of_ok (ih bound (by simp at enough; omega))]
        rfl
      · simp only [Node.tokens_branch, Node.tokensOf_cons, Node.tokens_leaf, Node.tokensOf_nil,
          List.cons_append, List.nil_append, trailers, peek_bind, kind_ofTokens, kind]
        rw [bind_of_ok (attributeTrailer_completes more kind word),
          bind_of_ok (ih bound (by simp at enough; omega))]
        rfl

theorem delimited_completes {rule : Rule} {opening closing : TokenKind} (wanted : String)
    (opens : opening ≠ .endOfInput) (closes : closing ∈ [TokenKind.closeParen, .closeBracket])
    {rest : List Token} (more : rest ≠ []) {node : Node}
    (h : Parses n (Form.enclosed rule opening closing Form.content) [node]) :
    delimited inner rule closing wanted (ofTokens (node.tokens ++ rest)) =
      (.ok node, ofTokens rest) := by
  have known : ∀ kind ∈ [TokenKind.closeParen, .closeBracket],
      kind ∈ closings ∧ kind ≠ .endOfInput := by decide
  obtain ⟨listed, notEnd⟩ := known closing closes
  obtain ⟨first, content, last, firstKind, lastKind, hContent, same⟩ := parses_enclosed.1 h
  cases same
  rcases hContent with rfl | hContent
  · simp only [List.nil_append, Node.tokens_branch, Node.tokensOf_cons, Node.tokens_leaf,
      Node.tokensOf_nil, List.cons_append, delimited]
    rw [bind_of_ok (take_ofTokens (by rwa [firstKind]) (List.cons_ne_nil _ _)), peek_bind,
      kind_ofTokens, if_pos lastKind, bind_of_ok (take_ofTokens (by rwa [lastKind]) more)]
    rfl
  · obtain ⟨items, hItems, rfl⟩ := parses_content.1 hContent
    have notClosed := items_not_closed listed expression_single expression_starts hItems
      (last :: rest)
    have closed : ClosedBy closing (last :: rest) := ⟨last, rest, rfl, lastKind⟩
    have list := items_completes listed (complete.expression.mono (by decide)) expression_single
      expression_starts closed hItems
    simp only [Node.tokens_branch, Node.tokensOf_cons, Node.tokens_leaf, Node.tokens_collapse,
      Node.tokensOf_nil, List.append_nil, List.cons_append, List.nil_append,
      List.append_assoc, delimited]
    rw [bind_of_ok (take_ofTokens (by rwa [firstKind]) (by simp)), peek_bind, if_neg notClosed,
      bind_of_ok list, bind_of_ok (require_ofTokens _ lastKind notEnd more)]
    rfl

theorem field_completes {rest : List Token} (stops : Stops 6 rest) {nodes : List Node}
    (h : Parses n Form.field nodes) :
    field inner (ofTokens (Node.tokensOf nodes ++ rest)) = (.ok nodes, ofTokens rest) := by
  obtain ⟨key, colon, value, hKey, kind, hValue, rfl⟩ := parses_field.1 h
  simp only [Node.tokensOf_cons, Node.tokens_leaf, Node.tokensOf_nil, List.append_nil,
    List.cons_append, List.nil_append, List.append_assoc, field]
  rw [bind_of_ok (complete.expression hKey (stops_of_kind kind (by decide))),
    bind_of_ok (require_ofTokens _ kind (by decide) (by simp [stops.ne_nil])),
    bind_of_ok (complete.expression hValue (stops.mono (by decide)))]
  rfl

omit complete in
theorem field_starts {nodes : List Node} (h : Parses n Form.field nodes) :
    ∃ t later, Node.tokensOf nodes = t :: later ∧ t.kind ∈ negationStarts := by
  obtain ⟨key, colon, value, hKey, -, -, rfl⟩ := parses_field.1 h
  obtain ⟨t, later, spelled, member⟩ := expression_starts hKey
  exact ⟨t, _, by simp [spelled]; rfl, member⟩

omit complete in
theorem field_not_closed {nodes : List Node} (h : Parses n Form.field nodes)
    (rest : List Token) : (ofTokens (Node.tokensOf nodes ++ rest)).kind ≠ .closeBrace := by
  obtain ⟨t, later, spelled, member⟩ := field_starts h
  have noStart : ∀ kind ∈ negationStarts, kind ≠ .closeBrace := by decide
  rw [spelled]
  exact noStart _ member

theorem fieldsMore_completes {rest : List Token} (closed : ClosedBy .closeBrace rest)
    (bound : List Token) {nodes : List Node} (h : ListRest n Form.field nodes)
    (enough : (Node.tokensOf nodes).length ≤ bound.length) :
    fieldsMore inner bound (ofTokens (Node.tokensOf nodes ++ rest)) =
      (.ok nodes, ofTokens rest) := by
  induction bound generalizing nodes with
  | nil =>
    have empty : Node.tokensOf nodes = [] := List.length_eq_zero_iff.1 (Nat.le_zero.1 enough)
    rcases listRest_cases h with rfl | ⟨t, -, rfl⟩ | ⟨t, item, back, -, -, -, rfl⟩
    · rfl
    · simp at empty
    · simp at empty
  | cons _ bound ih =>
    obtain ⟨close, later, same, kind⟩ := closed
    rcases listRest_cases h with rfl | ⟨t, comma, rfl⟩ | ⟨t, item, back, comma, hItem, hBack, rfl⟩
    · simp [same, fieldsMore, kind, pure_apply]
    · simp only [Node.tokensOf_cons, Node.tokens_leaf, Node.tokensOf_nil, List.append_nil,
        List.cons_append, List.nil_append, fieldsMore, peek_bind, kind_ofTokens, comma, if_true]
      rw [bind_of_ok (take_comma comma (by simp [same]))]
      simp [same, kind, pure_apply]
    · have notClosed := field_not_closed hItem (Node.tokensOf back ++ rest)
      have stops : Stops 6 (Node.tokensOf back ++ rest) :=
        hBack.stops ⟨close, later, same, kind⟩ (by decide)
      have fewer : (Node.tokensOf back).length ≤ bound.length := by
        simp at enough
        omega
      simp only [List.cons_append, Node.tokensOf_cons, Node.tokensOf_append, Node.tokens_leaf,
        List.nil_append, List.append_assoc, fieldsMore, peek_bind, kind_ofTokens, comma, if_true]
      rw [bind_of_ok (take_comma comma (by simp [same])), peek_bind, if_neg notClosed,
        bind_of_ok (field_completes complete stops hItem), bind_of_ok (ih hBack fewer)]
      rfl

theorem braces_completes {rest : List Token} (more : rest ≠ []) {node : Node}
    (h : Parses n (Form.enclosed .braces .openBrace .closeBrace (.symbol .fields)) [node]) :
    braces inner (ofTokens (node.tokens ++ rest)) = (.ok node, ofTokens rest) := by
  obtain ⟨first, content, last, opens, closes, hContent, same⟩ := parses_enclosed.1 h
  cases same
  rcases hContent with rfl | hContent
  · simp only [List.nil_append, Node.tokens_branch, Node.tokensOf_cons, Node.tokens_leaf,
      Node.tokensOf_nil, List.cons_append, braces]
    rw [bind_of_ok (take_ofTokens (by simp [opens]) (List.cons_ne_nil _ _)), peek_bind,
      kind_ofTokens, if_pos closes, bind_of_ok (take_ofTokens (by simp [closes]) more)]
    rfl
  · obtain ⟨parts, hParts, rfl⟩ := parses_fields.1 hContent
    obtain ⟨front, fields, trailing, hFront, hFields, hTrailing, rfl⟩ := parses_commaList.1 hParts
    have closed : ClosedBy .closeBrace (last :: rest) := ⟨last, rest, rfl, closes⟩
    have back : ListRest n Form.field (fields ++ trailing) :=
      ⟨fields, trailing, hFields, hTrailing, rfl⟩
    have stops : Stops 6 (Node.tokensOf (fields ++ trailing) ++ last :: rest) :=
      back.stops closed (by decide)
    have notClosed := field_not_closed hFront
      (Node.tokensOf (fields ++ trailing) ++ last :: rest)
    simp only [Node.tokens_branch, Node.tokensOf_cons, Node.tokensOf_append front,
      Node.tokens_leaf, Node.tokensOf_nil, List.append_nil,
      List.cons_append, List.nil_append, List.append_assoc, braces]
    rw [bind_of_ok (take_ofTokens (by simp [opens]) (by simp)), peek_bind, if_neg notClosed,
      bind_of_ok (field_completes complete stops hFront), bounded_bind,
      bind_of_ok (fieldsMore_completes complete closed _ back (enough_later (by simp))),
      bind_of_ok (require_ofTokens _ closes (by decide) more)]
    rfl

theorem atom_completes {rest : List Token} (more : rest ≠ []) {node : Node}
    (h : Parses n (.symbol .atom) [node]) :
    atom inner (ofTokens (node.tokens ++ rest)) = (.ok node, ofTokens rest) := by
  rcases parses_atom.1 h with ⟨t, member, same⟩ | ⟨dot, name, kind, word, same⟩ | h | h | h
  · cases same
    have notEnd : t.kind ≠ .endOfInput := by
      intro same
      rw [same] at member
      revert member
      decide
    have taken := take_ofTokens (t := t) notEnd more
    simp only [Node.tokens_leaf, List.cons_append, List.nil_append, atom, peek_bind, kind_ofTokens]
    simp only [Symbol.simpleAtoms, List.mem_cons, List.not_mem_nil, or_false] at member
    rcases member with kind | kind | kind | kind | kind | kind | kind
    all_goals
      rw [kind]
      exact taken
  · cases same
    simp only [Node.tokens_branch, Node.tokensOf_cons, Node.tokens_leaf, Node.tokensOf_nil,
      List.cons_append, List.nil_append, atom, peek_bind, kind_ofTokens, kind]
    rw [bind_of_ok (take_ofTokens (by simp [kind]) (List.cons_ne_nil _ _)),
      bind_of_ok (attributeName_completes more word)]
    rfl
  · have read := delimited_completes complete "')'" (by decide) (by decide) more h
    obtain ⟨first, content, last, opens, -, -, same⟩ := parses_enclosed.1 h
    cases same
    simp only [Node.tokens_branch, Node.tokensOf_cons, Node.tokens_leaf, List.cons_append,
      List.nil_append, atom, peek_bind, kind_ofTokens, opens] at read ⊢
    exact read
  · have read := delimited_completes complete "']'" (by decide) (by decide) more h
    obtain ⟨first, content, last, opens, -, -, same⟩ := parses_enclosed.1 h
    cases same
    simp only [Node.tokens_branch, Node.tokensOf_cons, Node.tokens_leaf, List.cons_append,
      List.nil_append, atom, peek_bind, kind_ofTokens, opens] at read ⊢
    exact read
  · have read := braces_completes complete more h
    obtain ⟨first, content, last, opens, -, -, same⟩ := parses_enclosed.1 h
    cases same
    simp only [Node.tokens_branch, Node.tokensOf_cons, Node.tokens_leaf, List.cons_append,
      List.nil_append, atom, peek_bind, kind_ofTokens, opens] at read ⊢
    exact read

theorem access_completes : Completes (access inner) n (.symbol .access) 0 := by
  intro node rest h stops
  obtain ⟨first, nodes, hFirst, hNodes, same⟩ := parses_access.1 h
  obtain ⟨atom, rfl⟩ := parses_single (by simp) hFirst
  cases same
  simp only [List.singleton_append, Node.tokens_branch, Node.tokensOf_cons, List.append_assoc,
    access]
  rw [bind_of_ok (atom_completes complete (by simp [stops.ne_nil]) hFirst), bounded_bind,
    bind_of_ok (trailers_completes complete stops hNodes _ (enough_later stops.ne_nil))]
  rfl

theorem signed_completes : Completes (signed inner) n (.symbol .signed) 0 := by
  intro node rest h stops
  rcases parses_signed.1 h with ⟨t, operand, member, hOperand, same⟩ | h
  · obtain ⟨right, rfl⟩ := parses_deeper_single (by simp) hOperand
    cases same
    have notEnd : t.kind ≠ .endOfInput := by
      intro same
      simp [same] at member
    simp only [Node.tokens_branch, Node.tokensOf_cons, Node.tokens_leaf, Node.tokensOf_nil,
      List.append_nil, List.cons_append, List.nil_append, signed]
    rw [peek_bind, kind_ofTokens, if_pos (List.contains_iff_mem.2 member),
      bind_of_ok (take_ofTokens notEnd (by simp [stops.ne_nil])),
      bind_of_ok (complete.signed hOperand stops)]
    rfl
  · obtain ⟨t, later, spelled, member⟩ := access_starts h
    have noSign : ∀ kind ∈ atomStarts, ¬[TokenKind.minus, .plus].contains kind = true := by decide
    have front : (ofTokens (node.tokens ++ rest)).kind = t.kind := by
      rw [spelled]
      rfl
    rw [signed, peek_bind, front, if_neg (noSign _ member)]
    exact access_completes complete h stops

theorem product_completes : Completes (product inner) n (.symbol (.chain .product)) 1 :=
  chain_completes (symbolAmong_completes .product rfl (by decide))
    (signed_completes complete)

theorem sum_completes : Completes (sum inner) n (.symbol (.chain .sum)) 2 :=
  chain_completes (symbolAmong_completes .sum rfl (by decide))
    (product_completes complete)

theorem comparison_completes : Completes (comparison inner) n (.symbol (.chain .comparison)) 3 :=
  chain_completes comparisonSymbol_completes (sum_completes complete)

theorem negation_completes : Completes (negation inner) n (.symbol .negation) 3 := by
  intro node rest h stops
  rcases parses_negation.1 h with ⟨t, operand, kind, hOperand, same⟩ | h
  · obtain ⟨right, rfl⟩ := parses_deeper_single (by simp) hOperand
    cases same
    simp only [Node.tokens_branch, Node.tokensOf_cons, Node.tokens_leaf, Node.tokensOf_nil,
      List.append_nil, List.cons_append, List.nil_append, negation]
    rw [peek_bind, kind_ofTokens, if_pos kind,
      bind_of_ok (take_ofTokens (by simp [kind]) (by simp [stops.ne_nil])),
      bind_of_ok (complete.negation hOperand stops)]
    rfl
  · obtain ⟨t, later, spelled, member⟩ := comparison_starts h
    have noNot : ∀ kind ∈ signedStarts, kind ≠ .notWord := by decide
    have front : (ofTokens (node.tokens ++ rest)).kind = t.kind := by
      rw [spelled]
      rfl
    rw [negation, peek_bind, front, if_neg (noNot _ member)]
    exact comparison_completes complete h stops

theorem conjunction_completes : Completes (conjunction inner) n (.symbol (.chain .conjunction)) 4 :=
  chain_completes (symbolAmong_completes .conjunction rfl (by decide))
    (negation_completes complete)

theorem disjunction_completes : Completes (disjunction inner) n (.symbol (.chain .disjunction)) 5 :=
  chain_completes (symbolAmong_completes .disjunction rfl (by decide))
    (conjunction_completes complete)

end Rules

theorem level_completes (levels : Nat) : CompleteLevel (level levels) levels := by
  induction levels with
  | zero =>
    have none {s : Symbol} {p : Parser Node} {k : Nat} : Completes p 0 (.deeper (.symbol s)) k := by
      intro node rest h _
      obtain ⟨m, impossible, _⟩ := parses_deeper.1 h
      omega
    refine ⟨?_, none, none⟩
    intro node rest h _
    obtain ⟨m, impossible, _⟩ := parses_expression.1 h
    omega
  | succ levels inner =>
    have deeper {s : Symbol} {p : Parser Node} {k : Nat} (h : Completes p levels (.symbol s) k) :
        Completes p (levels + 1) (.deeper (.symbol s)) k := by
      intro node rest parses stops
      obtain ⟨m, same, below⟩ := parses_deeper.1 parses
      cases same
      exact h below stops
    refine ⟨?_, deeper (negation_completes inner), deeper (signed_completes inner)⟩
    intro node rest h stops
    obtain ⟨m, same, below⟩ := parses_expression.1 h
    cases same
    exact disjunction_completes inner below stops

end Grammar

def Parser.queryWithin (levels : Nat) : Parser Node :=
  queryOver (level levels)

namespace Grammar

open RecordPipeline.TokenStream RecordPipeline.Parser

theorem queryWithin_completes {levels : Nat} {node : Node}
    (h : Parses levels (.symbol .query) [node]) :
    (queryWithin levels (ofTokens node.tokens)).1 = .ok node := by
  obtain ⟨content, last, hContent, kind, same⟩ := parses_query.1 h
  cases same
  have closed : ClosedBy .endOfInput [last] := ⟨last, [], rfl, kind⟩
  have list := items_completes (by decide)
    ((level_completes levels).expression.mono (by decide)) expression_single expression_starts
    closed hContent
  simp only [Node.tokens_branch, Node.tokensOf_cons, Node.tokens_leaf, Node.tokensOf_nil,
    List.append_nil, queryWithin, queryOver]
  have closed : require .endOfInput "',' or end of input" (ofTokens [last]) =
      (.ok (.leaf last), (ofTokens [last]).advance) := by
    rw [require, peek_bind, kind_ofTokens, if_pos kind]
    rfl
  rw [bind_of_ok list, bind_of_ok closed]
  rfl

theorem query_completes {node : Node} (h : Parses maxNesting (.symbol .query) [node]) :
    (query (ofTokens node.tokens)).1 = .ok node :=
  queryWithin_completes h

/-- The tree of a query is decided by its tokens, however many levels it may have. -/
theorem Parses.query_unique {n m : Nat} {node other : Node} (first : Parses n (.symbol .query) [node])
    (second : Parses m (.symbol .query) [other]) (same : node.tokens = other.tokens) :
    node = other := by
  have read := queryWithin_completes (first.mono (Nat.le_max_left n m))
  rw [same, queryWithin_completes (second.mono (Nat.le_max_right n m))] at read
  exact (Except.ok.inj read).symm

end Grammar

end RecordPipeline
