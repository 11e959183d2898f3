import RecordPipeline.Proofs.Lowering.Relations
import RecordPipeline.Proofs.Printing.Written

/-!
Printed expressions read back. What is read from a text can be written, so it is read back from its
own text wherever that is legible and not nested too deeply.
-/

namespace RecordPipeline

open RecordPipeline.Grammar RecordPipeline.Parser

def Node.LowersToWritten (node : Node) : Prop :=
  ∀ e, node.lower = .ok e → e.Written

def Argument.Written : Argument → Prop
  | positional e => e.Written
  | named name e => Lexeme .name name.toList ∧ e.Written

def Trailer.Written : Trailer → Prop
  | attr name => ∃ kind ∈ Symbol.words, Lexeme kind name.toList
  | index key => key.Written
  | call args named => (∀ e ∈ args, e.Written) ∧
    ∀ part ∈ named, Lexeme .name part.1.toList ∧ part.2.Written

theorem Trailer.Written.onto {written : Trailer} (h : written.Written) {object : Expr}
    (base : object.Written) : (written.onto object).Written := by
  cases written with
  | attr name =>
    obtain ⟨kind, word, lexeme⟩ := h
    exact .attr word lexeme base
  | index key => exact .index base h
  | call args named =>
    exact .call base h.1 (fun part member => (h.2 part member).1) fun part member =>
      (h.2 part member).2

theorem Argument.written_split {arguments : List Argument} (all : ∀ a ∈ arguments, a.Written) :
    (∀ e ∈ (split arguments).1, e.Written) ∧
      ∀ part ∈ (split arguments).2, Lexeme .name part.1.toList ∧ part.2.Written := by
  induction arguments with
  | nil => simp
  | cons a later ih =>
    have rest := ih fun b member => all b (List.mem_cons_of_mem a member)
    have first := all a (by simp)
    cases a with
    | positional e => exact ⟨List.forall_mem_cons.2 ⟨first, rest.1⟩, rest.2⟩
    | named name e => exact ⟨rest.1, List.forall_mem_cons.2 ⟨first, rest.2⟩⟩

namespace Node

theorem lowersToWritten_leaf {t : Token} (spelled : (leaf t).Spelled) :
    LowersToWritten (.leaf t) := by
  have lexeme := spelled.leaf
  intro e h
  rw [lower, literal] at h
  split at h
  · rename_i kind
    have starts := lexeme.startsWithDigit_of_number (.inl kind)
    rw [integerLiteral] at h
    split at h
    · rename_i read
      cases h
      exact .integer (readInt_nonneg starts read)
    · split at h
      · rename_i read
        cases h
        obtain ⟨bits, bounded, rfl⟩ := readFloat_unsigned starts read
        exact .float bounded
      · cases h
  · rename_i kind
    have starts := lexeme.startsWithDigit_of_number (.inr kind)
    rw [floatLiteral] at h
    split at h
    · rename_i read
      cases h
      obtain ⟨bits, bounded, rfl⟩ := readFloat_unsigned starts read
      exact .float bounded
    · cases h
  · cases h
    exact .string _
  · cases h
    exact .boolean true
  · cases h
    exact .boolean false
  · cases h
    exact .null
  · rename_i kind
    cases h
    split
    · exact .record
    · rename_i other
      exact .bare (kind ▸ lexeme) other
  · cases h

section Lists

variable {nodes : List Node}

theorem written_items {items : List Expr} (h : LowersItems nodes items)
    (all : ∀ node ∈ nodes, LowersToWritten node) : ∀ e ∈ items, e.Written := by
  induction h with
  | none => simp
  | comma _ _ ih => exact ih fun node member => all node (List.mem_cons_of_mem _ member)
  | item _ lowers _ ih =>
    have rest := ih fun node member => all node (List.mem_cons_of_mem _ member)
    exact List.forall_mem_cons.2 ⟨all _ (by simp) _ lowers, rest⟩

theorem written_sequence (all : ∀ node ∈ nodes, LowersToWritten node) :
    LowersToWritten (branch .sequence nodes) := by
  intro e h
  cases lower_eq_ok.1 h with
  | sequence lowers => exact .tuple (written_items lowers all)
  | chain joins _ _ => simp at joins

theorem written_chain {left e : Expr} (h : LowersChain left nodes e)
    (all : ∀ node ∈ nodes, LowersToWritten node) (first : left.Written) : e.Written := by
  induction h with
  | none => exact first
  | more _ lowers _ ih =>
    have second := all _ (by simp) _ lowers
    exact ih (fun node member => all node (by simp [member])) (.binary _ first second)

theorem Compares.written {symbol : Node} {left right e : Expr} (h : Compares left right symbol e)
    (first : left.Written) (second : right.Written) : e.Written := by
  cases h with
  | notIn => exact .not (.binary .member first second)
  | operator _ => exact .binary _ first second

theorem written_comparisons {left : Expr} {comparisons : List Expr}
    (h : LowersComparisons left nodes comparisons)
    (all : ∀ node ∈ nodes, LowersToWritten node) (first : left.Written) :
    ∀ e ∈ comparisons, e.Written := by
  induction h with
  | none => simp
  | more lowers compares _ ih =>
    have second := all _ (by simp) _ lowers
    have rest := ih (fun node member => all node (by simp [member])) second
    exact List.forall_mem_cons.2 ⟨compares.written first second, rest⟩

theorem written_conjunction {comparison : Expr} {later : List Expr}
    (all : ∀ e ∈ comparison :: later, e.Written) :
    (later.foldl (.binary .and) comparison).Written := by
  induction later generalizing comparison with
  | nil => exact all comparison (by simp)
  | cons second later ih =>
    have both := Expr.Written.binary .and (all comparison (by simp)) (all second (by simp))
    exact ih (List.forall_mem_cons.2 ⟨both, fun e member => all e (by simp [member])⟩)

theorem written_key {key : Node} (all : LowersToWritten key) {k : Expr}
    (h : lowerKey key = .ok k) : k.Written := by
  rw [lowerKey] at h
  split at h
  · cases h
    exact .string _
  · exact all k h

theorem written_fields {fields : List (Expr × Expr)} (h : LowersFields nodes fields)
    (all : ∀ node ∈ nodes, LowersToWritten node) :
    ∀ field ∈ fields, field.1.Written ∧ field.2.Written := by
  induction h with
  | none _ => simp
  | last lowersKey lowers =>
    exact List.forall_mem_singleton.2
      ⟨written_key (all _ (by simp)) lowersKey, all _ (by simp) _ lowers⟩
  | more lowersKey lowers _ ih =>
    have rest := ih fun node member => all node (by simp [member])
    exact List.forall_mem_cons.2
      ⟨⟨written_key (all _ (by simp)) lowersKey, all _ (by simp) _ lowers⟩, rest⟩

end Lists

theorem written_arguments {nodes : List Node}
    (all : ∀ node ∈ nodes, ∀ arguments, lowerArguments [node] = .ok arguments →
      ∀ a ∈ arguments, a.Written)
    {arguments : List Argument} (h : lowerArguments nodes = .ok arguments) :
    ∀ a ∈ arguments, a.Written := by
  induction nodes generalizing arguments with
  | nil =>
    rw [lowerArguments] at h
    cases h
    simp
  | cons node later ih =>
    rw [lowerArguments_cons] at h
    obtain ⟨first, lowers, h⟩ := except_bind_ok.1 h
    obtain ⟨others, lowersLater, h⟩ := except_bind_ok.1 h
    cases h
    exact List.forall_mem_append.2 ⟨all node (by simp) first lowers,
      ih (fun other member => all other (by simp [member])) lowersLater⟩

theorem written_trailers {trailers : List Node} {object e : Expr}
    (h : LowersTrailers object trailers e) (base : object.Written)
    (all : ∀ node ∈ trailers, ∀ written, lowerTrailer node = .ok written → written.Written) :
    e.Written := by
  induction h with
  | none => exact base
  | more lowers _ ih =>
    have first := all _ (by simp) _ (lowerTrailer_eq_ok.2 lowers)
    exact ih (first.onto base) fun node member => all node (List.mem_cons_of_mem _ member)

end Node

section Level

-- The operands of `not` and of a sign are one level further down, so as expressions they are covered
-- by `inner` like what stands between parentheses, and no symbol needs an induction of its own.
variable {n : Nat} {node : Node}
  (inner : ∀ {node : Node}, Parses n (.symbol .expression) [node] → node.Spelled →
    node.LowersToWritten)

include inner

theorem argument_written (parses : Parses n (.symbol .argument) [node]) (spelled : node.Spelled)
    {arguments : List Argument} (h : Node.lowerArguments [node] = .ok arguments) :
    ∀ a ∈ arguments, a.Written := by
  rcases parses_argument.1 parses with expression | ⟨name, sign, bound, kind, -, hBound, same⟩
  · rw [Node.lowerArguments_positional (isPositional_of_expression expression),
      if_neg (noComma_of_expression expression)] at h
    obtain ⟨e, lowers, h⟩ := except_bind_ok.1 h
    cases h
    exact List.forall_mem_singleton.2 (inner expression spelled e lowers)
  · cases same
    rw [Node.lowerArguments] at h
    obtain ⟨e, lowers, h⟩ := except_bind_ok.1 h
    cases h
    have lexeme : Lexeme name.kind name.text.toList := spelled name (by simp)
    refine List.forall_mem_singleton.2 ⟨?_, inner hBound (spelled.child (by simp)) e lowers⟩
    rw [kind] at lexeme
    simpa [Node.texts] using lexeme

theorem arguments_written {nodes : List Node}
    (parses : Parses n (Form.commaList (.symbol .argument)) nodes)
    (spelled : ∀ node ∈ nodes, node.Spelled) :
    ∀ node ∈ nodes, ∀ arguments, Node.lowerArguments [node] = .ok arguments →
      ∀ a ∈ arguments, a.Written := by
  have each : ∀ node ∈ nodes, node.Spelled → ∀ arguments,
      Node.lowerArguments [node] = .ok arguments → ∀ a ∈ arguments, a.Written := by
    refine parses.commaList_all (fun t comma _ arguments h => ?_) fun {part} hPart node member => ?_
    · rw [lowerArguments_comma comma, Node.lowerArguments] at h
      cases h
      simp
    · obtain ⟨only, rfl⟩ := argument_single hPart
      obtain rfl := List.mem_singleton.1 member
      exact fun spelled arguments => argument_written inner hPart spelled
  exact fun node member => each node member (spelled node member)

theorem trailer_written (parses : Parses n (.symbol .trailer) [node]) (spelled : node.Spelled)
    {written : Trailer} (h : node.lowerTrailer = .ok written) : written.Written := by
  rcases parses_trailer.1 parses with called | ⟨first, index, last, opens, -, hIndex, same⟩ |
    ⟨dot, name, kind, word, same⟩
  · obtain ⟨first, content, last, opens, -, hContent, same⟩ := parses_enclosed.1 called
    cases same
    rw [Node.lowerTrailer, opens] at h
    rcases hContent with rfl | hContent
    · cases h
      simp [Trailer.Written]
    · obtain ⟨items, hItems, rfl⟩ := parses_arguments.1 hContent
      obtain ⟨parts, lowersCall, rfl⟩ := except_map_ok.1 h
      obtain ⟨arguments, lowers, rfl⟩ := except_map_ok.1 lowersCall
      have inside : (Node.branch .arguments items).Spelled := spelled.child (by simp)
      exact Argument.written_split (Node.written_arguments
        (arguments_written inner hItems fun node => inside.child) lowers)
  · cases same
    rw [Node.lowerTrailer, opens] at h
    obtain ⟨key, lowers, rfl⟩ := except_map_ok.1 h
    exact inner hIndex (spelled.child (by simp)) key lowers
  · cases same
    rw [Node.lowerTrailer, kind] at h
    cases h
    exact ⟨name.kind, word, (spelled.child (by simp)).leaf⟩

theorem items_written {nodes : List Node}
    (parses : Parses n (Form.commaList (.symbol .expression)) nodes)
    (spelled : ∀ node ∈ nodes, node.Spelled) : ∀ node ∈ nodes, node.LowersToWritten := by
  have each : ∀ node ∈ nodes, node.Spelled → node.LowersToWritten := by
    refine parses.commaList_all (fun t _ => Node.lowersToWritten_leaf)
      fun {part} hPart node member => ?_
    obtain ⟨only, rfl⟩ := expression_single hPart
    exact List.mem_singleton.1 member ▸ inner hPart
  exact fun node member => each node member (spelled node member)

theorem content_written (parses : Parses n Form.content [node]) (spelled : node.Spelled) :
    node.LowersToWritten := by
  rcases content_cases parses with expression | ⟨items, hItems, rfl⟩
  · exact inner expression spelled
  · exact Node.written_sequence (items_written inner hItems fun node => spelled.child)

theorem fields_written {nodes : List Node} (parses : Parses n (Form.commaList Form.field) nodes)
    (spelled : ∀ node ∈ nodes, node.Spelled) : ∀ node ∈ nodes, node.LowersToWritten := by
  have each : ∀ node ∈ nodes, node.Spelled → node.LowersToWritten := by
    refine parses.commaList_all (fun t _ => Node.lowersToWritten_leaf)
      fun {part} hPart node member => ?_
    obtain ⟨key, colon, value, hKey, -, hValue, rfl⟩ := parses_field.1 hPart
    simp only [List.mem_cons, List.not_mem_nil, or_false] at member
    rcases member with rfl | rfl | rfl
    · exact inner hKey
    · exact Node.lowersToWritten_leaf
    · exact inner hValue
  exact fun node member => each node member (spelled node member)

theorem list_written {opening closing : Node} (parses : Parses n Form.content [node])
    (spelled : node.Spelled) :
    (Node.branch .list [opening, node, closing]).LowersToWritten := by
  intro e h
  rcases content_cases parses with expression | ⟨items, hItems, rfl⟩
  · rw [Node.lower] at h
    · obtain ⟨item, lowers, h⟩ := except_bind_ok.1 h
      cases h
      exact .array (List.forall_mem_singleton.2 (inner expression spelled item lowers))
    · exact ne_sequence_of_expression expression
  · rw [Node.lower] at h
    obtain ⟨written, lowers, h⟩ := except_bind_ok.1 h
    cases h
    exact .array (Node.written_items (Node.lowerItems_eq_ok.1 lowers)
      (items_written inner hItems fun node => spelled.child))

theorem braces_written {opening closing : Node} (parses : Parses n (.symbol .fields) [node])
    (spelled : node.Spelled) :
    (Node.branch .braces [opening, node, closing]).LowersToWritten := by
  intro e h
  obtain ⟨parts, hParts, same⟩ := parses_fields.1 parses
  cases same
  rw [Node.lower] at h
  obtain ⟨fields, lowers, h⟩ := except_bind_ok.1 h
  cases h
  have written := Node.written_fields (Node.lowerFields_eq_ok.1 lowers)
    (fields_written inner hParts fun node => spelled.child)
  exact .object (fun field member => (written field member).1) fun field member =>
    (written field member).2

theorem atom_written (parses : Parses n (.symbol .atom) [node]) (spelled : node.Spelled) :
    node.LowersToWritten := by
  rcases parses_atom.1 parses with ⟨t, -, same⟩ | ⟨dot, name, -, word, same⟩ | parens | list |
    braces
  · cases same
    exact Node.lowersToWritten_leaf spelled
  · cases same
    intro e h
    rw [Node.lower] at h
    cases h
    exact .attr word (spelled.child (by simp)).leaf .record
  · obtain ⟨first, content, last, -, -, rfl | hContent, same⟩ := parses_enclosed.1 parens
    · cases same
      intro e h
      cases h
      exact .tuple (by simp)
    · obtain ⟨items, -, rfl⟩ := parses_content.1 hContent
      cases same
      intro e h
      rw [List.singleton_append, Node.lower] at h
      exact content_written inner hContent (spelled.child (by simp)) e h
  · obtain ⟨first, content, last, -, -, rfl | hContent, same⟩ := parses_enclosed.1 list
    · cases same
      intro e h
      cases h
      exact .array (by simp)
    · obtain ⟨items, -, rfl⟩ := parses_content.1 hContent
      cases same
      exact list_written inner hContent (spelled.child (by simp))
  · obtain ⟨first, content, last, -, -, rfl | hContent, same⟩ := parses_enclosed.1 braces
    · cases same
      intro e h
      cases h
      exact .object (by simp) (by simp)
    · obtain ⟨parts, -, rfl⟩ := parses_fields.1 hContent
      cases same
      exact braces_written inner hContent (spelled.child (by simp))

theorem access_written (parses : Parses n (.symbol .access) [node]) (spelled : node.Spelled) :
    node.LowersToWritten := by
  obtain ⟨front, trailers, hAtom, hTrailers, same⟩ := parses_access.1 parses
  obtain ⟨atom, rfl⟩ := parses_single (by simp) hAtom
  cases same
  intro e h
  rw [List.singleton_append, Node.lower] at h
  obtain ⟨object, lowers, h⟩ := except_bind_ok.1 h
  have base := atom_written inner hAtom (spelled.child (by simp)) object lowers
  have all := hTrailers.mem_many (parses_single (by simp))
  exact Node.written_trailers (Node.lowerTrailers_eq_ok.1 h) base fun trailer member written =>
    trailer_written inner (all trailer member) (spelled.child (by simp [member]))

theorem signed_written (parses : Parses n (.symbol .signed) [node]) (spelled : node.Spelled) :
    node.LowersToWritten := by
  rcases parses_signed.1 parses with ⟨t, nodes, -, hOperand, same⟩ | access
  · obtain ⟨operand, rfl, expression⟩ := parses_expression_of_deeper (k := 6) hOperand
    cases same
    intro e h
    rw [Node.lower] at h
    obtain ⟨e, lowers, h⟩ := except_bind_ok.1 h
    cases h
    have written := inner expression (spelled.child (by simp)) e lowers
    split
    · exact .negate written
    · exact written
  · exact access_written inner access spelled

omit inner in
theorem operator_written {tier : Tier} {operators : List Node}
    (parses : Parses n tier.operator operators) (member : node ∈ operators)
    (spelled : node.Spelled) : node.LowersToWritten := by
  rcases operator_cases parses with ⟨t, -, rfl⟩ | ⟨-, t, u, -, -, rfl⟩
  · obtain rfl := List.mem_singleton.1 member
    exact Node.lowersToWritten_leaf spelled
  · obtain rfl := List.mem_singleton.1 member
    intro e h
    cases h

omit inner in
theorem chain_written {tier : Tier}
    (operand : ∀ {node : Node}, Parses n (.symbol tier.operand) [node] → node.Spelled →
      node.LowersToWritten)
    (parses : Parses n (.symbol (.chain tier)) [node]) (spelled : node.Spelled) :
    node.LowersToWritten := by
  obtain ⟨first, more, hFirst, hMore, same⟩ := parses_chain.1 parses
  cases same
  cases more with
  -- without an operator the operand stands for itself
  | nil => exact operand hFirst spelled
  | cons symbol more =>
    have left := operand hFirst (spelled.child (by simp))
    have all : ∀ node ∈ symbol :: more, node.Spelled → node.LowersToWritten := by
      refine hMore.many_all fun {part} hPart node member => ?_
      obtain ⟨operators, right, hOperator, hRight, rfl⟩ := parses_both.1 hPart
      obtain ⟨only, rfl⟩ := parses_single tier.operand_ne_expressions hRight
      rcases List.mem_append.1 member with member | member
      · exact fun spelled => operator_written hOperator member spelled
      · exact List.mem_singleton.1 member ▸ operand hRight
    have right : ∀ node ∈ symbol :: more, node.LowersToWritten := fun node member =>
      all node member (spelled.child (by simp [member]))
    intro e h
    change (Node.branch tier.rule (first :: symbol :: more)).lower = .ok e at h
    cases tier with
    | comparison =>
      cases Node.lower_eq_ok.1 h with
      | chain joins _ _ => simp [Tier.rule] at joins
      | comparison lowers rest =>
        exact Node.written_conjunction (Node.written_comparisons rest right (left _ lowers))
    | disjunction | conjunction | sum | product =>
      cases Node.lower_eq_ok.1 h with
      | chain _ lowers rest => exact Node.written_chain rest right (left _ lowers)

theorem negation_written (parses : Parses n (.symbol .negation) [node]) (spelled : node.Spelled) :
    node.LowersToWritten := by
  rcases parses_negation.1 parses with ⟨t, nodes, -, hOperand, same⟩ | comparison
  · obtain ⟨operand, rfl, expression⟩ := parses_expression_of_deeper (k := 2) hOperand
    cases same
    intro e h
    rw [Node.lower] at h
    obtain ⟨e, lowers, h⟩ := except_bind_ok.1 h
    cases h
    exact .not (inner expression (spelled.child (by simp)) e lowers)
  · exact chain_written (chain_written (chain_written (signed_written inner))) comparison spelled

theorem disjunction_written (parses : Parses n (.symbol (.chain .disjunction)) [node])
    (spelled : node.Spelled) : node.LowersToWritten :=
  chain_written (chain_written (negation_written inner)) parses spelled

end Level

theorem expression_written {n : Nat} {node : Node} (parses : Parses n (.symbol .expression) [node])
    (spelled : node.Spelled) : node.LowersToWritten := by
  induction n generalizing node with
  | zero =>
    obtain ⟨m, levels, -⟩ := parses_expression.1 parses
    cases levels
  | succ n ih =>
    obtain ⟨m, levels, disjunction⟩ := parses_expression.1 parses
    cases levels
    exact disjunction_written ih disjunction spelled

theorem query_written {source : String} {node : Node} {e : Expr}
    (read : parseQuery source = .ok node) (lowers : node.lowerQuery = .ok e) : e.Written := by
  obtain ⟨items, last, rfl, hItems, spells⟩ := query_spelled read
  have spelled : (Node.branch .sequence items).Spelled := fun t member =>
    spells.lexemes t (by simpa using member)
  have each := items_written (expression_written (n := maxNesting)) hItems fun node => spelled.child
  rw [Node.lowerQuery.eq_def] at lowers
  split at lowers
  · rename_i same
    cases same
    exact each _ (by simp) e lowers
  · rename_i same
    cases same
    exact Node.written_sequence each e lowers
  · cases lowers

namespace Expr

/-- What is read from a text can be written. -/
theorem written_of_parse {source : String} {e : Expr} (h : parse source = .ok e) : e.Written := by
  rw [parse] at h
  cases read : parseQuery source with
  | error fault =>
    rw [read] at h
    cases h
  | ok node =>
    rw [read] at h
    change locate source node.lowerQuery = .ok e at h
    cases lowers : node.lowerQuery with
    | error fault =>
      rw [lowers] at h
      cases h
    | ok other =>
      rw [lowers] at h
      cases h
      exact query_written read lowers

/-- What is read from a text is read back from its own text, if that is legible and not nested too
deeply. -/
theorem parse_text_of_parse {source : String} {e : Expr} (read : parse source = .ok e)
    (legible : e.legible = true) (shallow : e.nesting < maxNesting) :
    parse e.text = .ok e :=
  (written_of_parse read).parse_text legible shallow

theorem parse_text_of_parse_conjunction :
    parse "(not x) and .a" = .ok (binary .and (not record) (attr record "a")) ∧
      (binary .and (not record) (attr record "a")).legible = true ∧
      (binary .and (not record) (attr record "a")).nesting < maxNesting ∧
      (binary .and (not record) (attr record "a")).text = "not x and x.a" ∧
      parse "not x and x.a" = .ok (binary .and (not record) (attr record "a")) := by
  have read : parse "(not x) and .a" = .ok (binary .and (not record) (attr record "a")) := by cbv
  have legible : (binary .and (not record) (attr record "a")).legible = true := by decide
  have shallow : (binary .and (not record) (attr record "a")).nesting < maxNesting := by
    decide
  have text : (binary .and (not record) (attr record "a")).text = "not x and x.a" := rfl
  have again := parse_text_of_parse read legible shallow
  rw [text] at again
  exact ⟨read, legible, shallow, text, again⟩

/-- An operand that is no binary operation loses its parentheses, also where they are needed. -/
theorem text_drops_parens_of_not :
    ∃ e, parse "x == (not x)" = .ok e ∧ e.text = "x == not x" ∧
      parse e.text = .error ⟨.expected "expression" (some "not"), 5, ⟨1, 6⟩⟩ := by
  have text : (binary .equal record (not record)).text = "x == not x" := rfl
  refine ⟨binary .equal record (not record), by cbv, text, ?_⟩
  rw [text]
  cbv

end Expr

end RecordPipeline
