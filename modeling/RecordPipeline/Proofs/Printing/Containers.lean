import RecordPipeline.Proofs.Grammar.Completeness
import RecordPipeline.Proofs.Printing.Trees

/-!
Trees for the texts of arrays, tuples, objects and calls, put together from trees of what is listed
in them.
-/

namespace RecordPipeline

open RecordPipeline.Grammar

theorem Expr.texts_eq_map (items : List Expr) : Expr.texts items = items.map Expr.text := by
  induction items with
  | nil => rfl
  | cons e later ih => rw [Expr.texts, ih, List.map_cons]

theorem Expr.fieldTexts_eq_map (fields : List (Expr × Expr)) :
    Expr.fieldTexts fields = fields.map fun field => field.1.text ++ ": " ++ field.2.text := by
  induction fields with
  | nil => rfl
  | cons field later ih => rw [Expr.fieldTexts, ih, List.map_cons]

namespace Argument

def text : Argument → String
  | positional e => e.text
  | named name e => name ++ "=" ++ e.text

def inOrder (args : List Expr) (named : List (String × Expr)) : List Argument :=
  args.map positional ++ named.map fun part => .named part.1 part.2

theorem split_inOrder (args : List Expr) (named : List (String × Expr)) :
    split (inOrder args named) = (args, named) := by
  simp [split, inOrder, List.filterMap_map, Function.comp_def, positional?, named?]

theorem map_text_inOrder (args : List Expr) (named : List (String × Expr)) :
    (inOrder args named).map text = Expr.texts args ++ Expr.namedTexts named := by
  have names : Expr.namedTexts named = named.map fun part => part.1 ++ "=" ++ part.2.text := by
    induction named with
    | nil => rfl
    | cons part later ih => rw [Expr.namedTexts, ih, List.map_cons]
  rw [inOrder, List.map_append, List.map_map, List.map_map, names, Expr.texts_eq_map]
  rfl

end Argument

structure ShowsArgument (n : Nat) (a : Argument) (node : Node) : Prop where
  parses : Parses n (.symbol .argument) [node]
  lowers : Node.lowerArguments [node] = .ok [a]
  spells : Spells a.text.toList node.tokens

theorem Lexeme.kind_of_assign {kind : TokenKind} {cs : List Char} (h : Lexeme kind ('=' :: cs)) :
    kind = .assign ∨ kind = .equal := by
  have scans := h.scans
  rw [scan_cons, if_neg (by decide), if_neg (by decide), if_neg (by decide)] at scans
  rcases (scanned_symbol (by decide) (by decide) (by decide) scans).1 with
    ⟨-, single⟩ | ⟨-, pair⟩
  · cases single
    exact .inl rfl
  · cases pair
    exact .inr rfl

theorem Shows.head_ne_assign {n : Nat} {e : Expr} {text : List Char} {node : Node}
    (h : Shows n .expression e text node) : text.head? ≠ some '=' := by
  obtain ⟨t, later, tokens, start⟩ := expression_starts h.parses
  have spells := h.spells
  generalize node.tokens = ts at tokens spells
  intro assign
  cases spells with
  | done => cases assign
  | blank isBlank =>
    cases assign
    exact absurd isBlank (by decide)
  | token lexeme =>
    obtain ⟨c, cs, spelled, -⟩ := lexeme.starts
    rw [spelled] at assign lexeme
    cases assign
    cases tokens
    rcases lexeme.kind_of_assign with kind | kind <;> exact absurd (kind ▸ start) (by decide)

namespace ShowsArgument

variable {n : Nat} {e : Expr} {node : Node}

theorem positional (h : Shows n .expression e e.text.toList node) :
    ShowsArgument n (.positional e) node where
  parses := parses_argument.2 (.inl h.parses)
  lowers := by
    rw [Node.lowerArguments_positional (isPositional_of_expression h.parses),
      if_neg (noComma_of_expression h.parses), h.lowers]
    simp [Node.lowerArguments, bind, Except.bind, pure, Except.pure]
  spells := h.spells

theorem named (h : Shows n .expression e e.text.toList node) {name : String}
    (lexeme : Lexeme .name name.toList) :
    ∃ node, ShowsArgument n (.named name e) node := by
  have sign : Lexeme .assign "=".toList := ⟨rfl, '=', [], rfl, rfl⟩
  have ends : TokenKind.endsBefore .assign e.text.toList = true := by
    simp [TokenKind.endsBefore, h.head_ne_assign]
  have spelled := Spells.token (t := ⟨.name, name, 0⟩) lexeme rfl
    (.token (t := ⟨.assign, "=", 0⟩) sign ends h.spells)
  refine ⟨.branch .binding
      [.branch .access [.leaf ⟨.name, name, 0⟩], .leaf ⟨.assign, "=", 0⟩, node],
    parses_argument.2 (.inr ⟨_, _, node, rfl, rfl, h.parses, rfl⟩), ?_, ?_⟩
  · rw [Node.lowerArguments, h.lowers]
    simp [Node.lowerArguments, Node.texts, bind, Except.bind, pure, Except.pure]
  · simpa [Argument.text] using spelled

end ShowsArgument

namespace Shows

variable {n : Nat} {e : Expr} {text : List Char} {node : Node}

theorem exists_arguments {args : List Expr} {named : List (String × Expr)}
    (each : ∀ a ∈ Argument.inOrder args named, ∃ node, ShowsArgument n a node) :
    ∃ inside, (inside = [] ∨ Parses n (.symbol .arguments) inside) ∧
      Spells (Expr.commaJoin (Expr.texts args ++ Expr.namedTexts named)).toList
        (Node.tokensOf inside) ∧
      ∀ last, Node.lowerCall (inside ++ [last]) = .ok (args, named) := by
  obtain ⟨pairs, same, all⟩ := exists_pairs each
  have parts : ∀ pair ∈ pairs, Part n (.symbol .argument) pair.1.text [pair.2] := fun pair inside =>
    ⟨(all pair inside).parses, by simpa using (all pair inside).spells⟩
  have spelled := spells_commaJoin Argument.text (fun node => [node]) parts
  have split := Argument.split_inOrder args named
  rw [same, Argument.map_text_inOrder] at spelled
  cases pairs with
  | nil =>
    rw [← same] at split
    cases split
    exact ⟨[], .inl rfl, spelled, fun last => rfl⟩
  | cons pair later =>
    have content := parses_commaNodes Argument.text (fun node => [node]) (by simp) parts
    have lowers := Node.lowerArguments_commaNodes fun pair inside => (all pair inside).lowers
    refine ⟨[.branch .arguments _], .inr (parses_arguments.2 ⟨_, content, rfl⟩),
      by simpa using spelled, fun last => ?_⟩
    rw [List.singleton_append, Node.lowerCall, lowers, same]
    exact congrArg Except.ok split

theorem call {args : List Expr} {named : List (String × Expr)} (base : Shows n .access e text node)
    (each : ∀ a ∈ Argument.inOrder args named, ∃ node, ShowsArgument n a node) :
    ∃ node, Shows n .access (.call e args named)
      (text ++ '(' ::
        ((Expr.commaJoin (Expr.texts args ++ Expr.namedTexts named)).toList ++ [')'])) node := by
  obtain ⟨inside, parses, spells, lowers⟩ := exists_arguments each
  have spelled := Close.openParen.spells (Close.closeParen.spells_behind spells .done)
  have lowersTrailer : (enclosedNode .trailer (symbolToken .openParen '(')
      (symbolToken .closeParen ')') inside).lowerTrailer = .ok (.call args named) := by
    rw [enclosedNode, Node.lowerTrailer, symbolToken, Node.lowerOpened, lowers]
    rfl
  exact base.trailer
    (parses_trailer.2 (.inl (parses_enclosed.2 ⟨_, inside, _, rfl, rfl, parses, rfl⟩)))
    lowersTrailer (by simpa [enclosedNode] using spelled) rfl fun same => by cases same

theorem exists_sequence {first second : Expr} {later : List Expr}
    (each : ∀ e ∈ first :: second :: later, ∃ node, Shows n .expression e e.text.toList node) :
    ∃ nodes, Parses n Form.content [.branch .sequence nodes] ∧
      Spells (Expr.commaJoin (Expr.texts (first :: second :: later))).toList
        (Node.tokensOf nodes) ∧
      Node.lowerItems nodes = .ok (first :: second :: later) := by
  obtain ⟨pairs, same, all⟩ := exists_pairs each
  have parts : ∀ pair ∈ pairs, Part n (.symbol .expression) pair.1.text [pair.2] :=
    fun pair inside => ⟨(all pair inside).parses, by simpa using (all pair inside).spells⟩
  have spelled := spells_commaJoin Expr.text (fun node => [node]) parts
  have lowers := Node.lowerItems_commaNodes fun pair inside =>
    ⟨(all pair inside).lowers, noComma_of_expression (all pair inside).parses⟩
  rw [same, ← Expr.texts_eq_map] at spelled
  rw [same] at lowers
  refine ⟨_, ?_, spelled, lowers⟩
  rcases pairs with _ | ⟨pair, _ | ⟨next, rest⟩⟩
  · cases same
  · cases same
  · have list := parses_commaNodes Expr.text (fun node => [node]) (by simp) parts
    exact parses_content.2 ⟨_, list, rfl⟩

theorem array {items : List Expr}
    (each : ∀ e ∈ items, ∃ node, Shows n .expression e e.text.toList node) :
    ∃ node, Shows n .access (.array items)
      ('[' :: ((Expr.commaJoin (Expr.texts items)).toList ++ [']'])) node := by
  have atom {nodes : List Node}
      (h : Parses n (Form.enclosed .list .openBracket .closeBracket Form.content) nodes) :
      Parses n (.symbol .atom) nodes := parses_atom.2 (.inr (.inr (.inr (.inl h))))
  match items, each with
  | [], _ => exact ofEnclosed .openBracket .closeBracket atom (.inl rfl) .done rfl
  | [e], each =>
    obtain ⟨node, shows⟩ := each e (by simp)
    have content : Parses n Form.content [node] := parses_content.2
      ⟨[node], parses_commaList.2 ⟨[node], [], [], shows.parses, .done, .inl rfl, rfl⟩, rfl⟩
    refine ofEnclosed .openBracket .closeBracket atom (.inr content) ?_ ?_
    · simpa [Expr.commaJoin, Expr.texts] using shows.spells
    · rw [enclosedNode, List.singleton_append, Node.lower, shows.lowers]
      · rfl
      · exact ne_sequence_of_expression shows.parses
  | first :: second :: later, each =>
    obtain ⟨nodes, content, spells, lowers⟩ := exists_sequence each
    refine ofEnclosed .openBracket .closeBracket atom (.inr content) (by simpa using spells) ?_
    rw [enclosedNode, List.singleton_append, Node.lower, lowers]
    rfl

theorem tuple {items : List Expr}
    (each : ∀ e ∈ items, ∃ node, Shows n .expression e e.text.toList node) :
    ∃ node, Shows n .access (.tuple items) (Expr.tuple items).text.toList node := by
  have atom {nodes : List Node}
      (h : Parses n (Form.enclosed .parens .openParen .closeParen Form.content) nodes) :
      Parses n (.symbol .atom) nodes := parses_atom.2 (.inr (.inr (.inl h)))
  match items, each with
  | [], _ => exact ofEnclosed .openParen .closeParen atom (.inl rfl) .done rfl
  | [e], each =>
    obtain ⟨node, shows⟩ := each e (by simp)
    have content : Parses n Form.content [.branch .sequence [node, .leaf commaToken]] :=
      parses_content.2 ⟨[node, .leaf commaToken], parses_commaList.2
        ⟨[node], [], [.leaf commaToken], shows.parses, .done, .inr ⟨_, rfl, rfl⟩, rfl⟩, rfl⟩
    have spelled : Spells (e.text.toList ++ [',']) (node.tokens ++ [commaToken]) :=
      shows.spells.append_comma .done
    have text : (Expr.tuple [e]).text.toList = '(' :: ((e.text.toList ++ [',']) ++ [')']) := by
      simp [Expr.text]
    rw [text]
    refine ofEnclosed .openParen .closeParen atom (.inr content) (by simpa using spelled) ?_
    rw [enclosedNode, List.singleton_append, Node.lower, Node.lower,
      Node.lowerItems_cons shows.lowers (noComma_of_expression shows.parses), Node.lowerItems_comma,
      Node.lowerItems]
    rfl
  | first :: second :: later, each =>
    obtain ⟨nodes, content, spells, lowers⟩ := exists_sequence each
    have text : (Expr.tuple (first :: second :: later)).text.toList =
        '(' :: ((Expr.commaJoin (Expr.texts (first :: second :: later))).toList ++ [')']) := by
      simp [Expr.text]
    rw [text]
    refine ofEnclosed .openParen .closeParen atom (.inr content) (by simpa using spells) ?_
    rw [enclosedNode, List.singleton_append, Node.lower, Node.lower, lowers]
    rfl

theorem field {key value : Expr} {keyNode valueNode : Node}
    (hKey : Shows n .expression key key.text.toList keyNode) (noWord : key.isWord = false)
    (hValue : Shows n .expression value value.text.toList valueNode) :
    ∃ nodes, Part n Form.field (key.text ++ ": " ++ value.text) nodes ∧
      Node.LowersField (key, value) nodes := by
  have noName : keyNode.bareName? = none := by
    rw [Option.eq_none_iff_forall_ne_some]
    intro text found
    obtain ⟨t, name, rfl⟩ := name_of_expression hKey.parses found
    have lowers := hKey.lowers
    rw [Node.lower, Node.lower, Node.literal, name] at lowers
    simp only [bind, Except.bind, Node.lowerTrailers, Except.ok.injEq] at lowers
    rw [← lowers] at noWord
    split at noWord <;> cases noWord
  have spelled := Close.colon.spells_behind hKey.spells (.blank (c := ' ') rfl hValue.spells)
  refine ⟨[keyNode, .leaf (symbolToken .colon ':'), valueNode], ⟨?_, by simpa using spelled⟩,
    keyNode, _, valueNode, rfl, noName, hKey.lowers, hValue.lowers⟩
  exact parses_field.2 ⟨keyNode, _, valueNode, hKey.parses, rfl, hValue.parses, rfl⟩

theorem object {fields : List (Expr × Expr)}
    (each : ∀ field ∈ fields, ∃ nodes,
      Part n Form.field (field.1.text ++ ": " ++ field.2.text) nodes ∧
        Node.LowersField field nodes) :
    ∃ node, Shows n .access (.object fields)
      ('\x7b' :: ((Expr.commaJoin (Expr.fieldTexts fields)).toList ++ ['\x7d'])) node := by
  have atom {nodes : List Node}
      (h : Parses n (Form.enclosed .braces .openBrace .closeBrace (.symbol .fields)) nodes) :
      Parses n (.symbol .atom) nodes := parses_atom.2 (.inr (.inr (.inr (.inr h))))
  obtain ⟨pairs, same, all⟩ := exists_pairs each
  let text (field : Expr × Expr) : String := field.1.text ++ ": " ++ field.2.text
  have parts : ∀ pair ∈ pairs, Part n Form.field (text pair.1) pair.2 :=
    fun pair inside => (all pair inside).1
  have spelled := spells_commaJoin text id parts
  have lowers := Node.lowerFields_commaNodes fun pair inside => (all pair inside).2
  rw [same, ← Expr.fieldTexts_eq_map] at spelled
  rw [same] at lowers
  cases pairs with
  | nil =>
    cases same
    exact ofEnclosed .openBrace .closeBrace atom (.inl rfl) spelled rfl
  | cons pair later =>
    have content := parses_fields.2 ⟨_, parses_commaNodes text id (by simp) parts, rfl⟩
    refine ofEnclosed .openBrace .closeBrace atom (.inr content) (by simpa using spelled) ?_
    rw [enclosedNode, List.singleton_append, Node.lower]
    exact congrArg (· >>= fun fields => pure (Expr.object fields)) lowers

end Shows

end RecordPipeline
