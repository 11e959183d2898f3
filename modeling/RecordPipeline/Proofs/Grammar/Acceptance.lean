import RecordPipeline.Proofs.Grammar.Completeness
import RecordPipeline.Proofs.Grammar.Soundness
import RecordPipeline.Proofs.Lexing.Spelling

/-!
Which texts the parser takes, and that the tree it makes keeps every token of the text. Whether the
tokens of a text belong to the grammar is all that the parser asks.
-/

namespace RecordPipeline

open RecordPipeline.Grammar RecordPipeline.Parser

theorem ended_of_tokenize {source : String} {tokens : List Token}
    (h : tokenize source = .ok tokens) :
    (TokenStream.ofTokens tokens).Ended ∧ (TokenStream.ofTokens tokens).toList = tokens := by
  obtain ⟨body, last, rfl, spelled, kind⟩ := spells_of_tokenize h
  have same : (TokenStream.ofTokens (body ++ [last])).toList = body ++ [last] := by
    cases body <;> rfl
  refine ⟨⟨body, last, same, kind, fun t member => ?_⟩, same⟩
  exact (spelled.lexemes t member).ne_endOfInput

theorem parse_ok {α : Type} {p : Parser α} {source : String} {tokens : List Token} {a : α}
    (read : tokenize source = .ok tokens) :
    p.parse source = .ok a ↔ (p (.ofTokens tokens)).1 = .ok a := by
  rw [Parser.parse, read]
  rfl

theorem parseQuery_sound {source : String} {tokens : List Token} {node : Node}
    (read : tokenize source = .ok tokens) (h : parseQuery source = .ok node) :
    Parses maxNesting (.symbol .query) [node] ∧ node.tokens = tokens := by
  obtain ⟨ended, same⟩ := ended_of_tokenize read
  obtain ⟨parses, spelled⟩ := query_sound ended ((parse_ok read).1 h)
  exact ⟨parses, spelled.symm.trans same⟩

theorem parseQuery_complete {source : String} {node : Node}
    (read : tokenize source = .ok node.tokens) (h : Parses maxNesting (.symbol .query) [node]) :
    parseQuery source = .ok node :=
  (parse_ok read).2 (query_completes h)

theorem parseArguments_sound {source : String} {node : Node}
    (h : parseArguments source = .ok node) :
    (node = .branch .arguments [] ∨ Parses maxNesting (.symbol .arguments) [node]) ∧
      ∃ last, last.kind = .endOfInput ∧ tokenize source = .ok (node.tokens ++ [last]) := by
  have read := h
  rw [parseArguments, Parser.parse, except_bind_ok] at read
  obtain ⟨tokens, tokenized, -⟩ := read
  obtain ⟨ended, same⟩ := ended_of_tokenize tokenized
  obtain ⟨parses, last, kind, spelled⟩ := arguments_sound ended ((parse_ok tokenized).1 h)
  exact ⟨parses, last, kind, by rw [tokenized, ← spelled, same]⟩

theorem tokenize_of_parseQuery {source : String} {node : Node}
    (read : parseQuery source = .ok node) : tokenize source = .ok node.tokens := by
  have read' := read
  rw [parseQuery, Parser.parse, except_bind_ok] at read'
  obtain ⟨tokens, tokenized, -⟩ := read'
  rwa [(parseQuery_sound tokenized read).2]

theorem query_spelled {source : String} {node : Node} (read : parseQuery source = .ok node) :
    ∃ items last, node = .branch .query [.branch .sequence items, .leaf last] ∧
      Parses maxNesting (Form.commaList (.symbol .expression)) items ∧
      Spells source.toList (Node.tokensOf items) := by
  have tokenized := tokenize_of_parseQuery read
  obtain ⟨body, ending, same, spelled, -⟩ := spells_of_tokenize tokenized
  obtain ⟨parses, -⟩ := parseQuery_sound tokenized read
  obtain ⟨items, last, hItems, -, form⟩ := parses_query.1 parses
  cases form
  have bodies : Node.tokensOf items = body := by
    have := congrArg List.dropLast same
    simpa using this
  exact ⟨items, last, rfl, hItems, bodies ▸ spelled⟩

/-- The parser takes the texts of the grammar and no others, and loses no token. -/
theorem parseQuery_ok_iff_derives (source : String) (tokens : List Token)
    (read : tokenize source = .ok tokens) :
    ((∃ node, parseQuery source = .ok node) ↔ Derives maxNesting (.symbol .query) tokens) ∧
      ∀ node, parseQuery source = .ok node → node.tokens = tokens := by
  refine ⟨⟨?_, ?_⟩, fun node h => (parseQuery_sound read h).2⟩
  · rintro ⟨node, h⟩
    obtain ⟨parses, rfl⟩ := parseQuery_sound read h
    simpa using parses.derives
  · intro h
    obtain ⟨nodes, parses, rfl⟩ := h.parses
    obtain ⟨node, rfl⟩ := parses_single (by simp) parses
    exact ⟨node, parseQuery_complete (by simpa using read) parses⟩

theorem parseQuery_ok_iff_derives_membership :
    tokenize "x not in y" = .ok [⟨.name, "x", 0⟩, ⟨.notWord, "not", 2⟩, ⟨.inWord, "in", 6⟩,
      ⟨.name, "y", 9⟩, ⟨.endOfInput, "", 10⟩] ∧
    ((∃ node, parseQuery "x not in y" = .ok node) ↔
      Derives maxNesting (.symbol .query) [⟨.name, "x", 0⟩, ⟨.notWord, "not", 2⟩,
        ⟨.inWord, "in", 6⟩, ⟨.name, "y", 9⟩, ⟨.endOfInput, "", 10⟩]) :=
  ⟨by rfl, (parseQuery_ok_iff_derives "x not in y" _ (by rfl)).1⟩

end RecordPipeline
