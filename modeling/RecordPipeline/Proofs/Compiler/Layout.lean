import RecordPipeline.Proofs.Compiler.Appending
import RecordPipeline.Proofs.Grammar.Layout
import RecordPipeline.Proofs.Lexing.Subtrees

/-!
White space and line breaks mean nothing. Texts of the same tokens are read alike by everything that
reads a text, and as queries they are compiled to the same pipeline or refused with the same message,
the place in it aside: the comma that is put behind a query is one more token on both sides, and from
its trees on the compiler knows spellings only.
-/

namespace RecordPipeline

open RecordPipeline.Compiler RecordPipeline.Parser

namespace CompileError

/-- The message up to the place in the text, which only syntax errors have. -/
def withoutPlace : CompileError → String
  | malformed e => "Syntax error: " ++ e.message
  | ambiguous fragment => (ambiguous fragment).message

end CompileError

theorem tokenize_comma {query : String} {tokens : List Token} (read : tokenize query = .ok tokens) :
    ∃ others, tokenize (query ++ ",") = .ok others ∧
      others.map Token.plain =
        (tokens.map Token.plain).dropLast ++ [commaToken, ⟨.endOfInput, "", 0⟩] := by
  obtain ⟨body, ending, rfl, spelled, -⟩ := spells_of_tokenize read
  have longer : Spells (query ++ ",").toList (body ++ [commaToken]) := by
    rw [String.toList_append]
    exact spelled.append_comma .done
  obtain ⟨others, last, read', same, kind⟩ := tokenize_of_spells longer
  have text : last.text = "" := text_of_endOfInput read' last (by simp) kind
  have ending' : last.plain = ⟨.endOfInput, "", 0⟩ := by
    rw [Token.plain, kind, text]
  refine ⟨others ++ [last], read', ?_⟩
  rw [List.map_append, same, List.map_append, List.map_append, List.map_singleton, List.map_singleton,
    List.map_singleton, ending', List.dropLast_concat, List.append_assoc]
  rfl

def assembled (tree : TokenTree) : Except CompileError Pipeline := do
  let trees ← candidates tree
  return ⟨← trees.mapM stageOf⟩

/-- What the compiler makes of what the parser gives, of which it needs no places. -/
theorem compile_withoutPlaces (query : String) :
    (compile query).mapError CompileError.withoutPlace =
      (((parseQuery (query ++ ",")).map Node.plain).mapError Fault.plain).mapError
          (fun fault => "Syntax error: " ++ fault.cause.message) >>= fun node =>
        (assembled node.tokenTree).mapError CompileError.withoutPlace := by
  have unfolded : compile query =
      malformed (locate (query ++ ",") (parseQuery (query ++ ","))) >>= fun node =>
        assembled node.tokenTree := rfl
  rw [unfolded]
  cases parseQuery (query ++ ",") with
  | error fault => rfl
  | ok node =>
    exact congrArg (fun tree => (assembled tree).mapError CompileError.withoutPlace)
      node.tokenTree_plain.symm

/-- Two texts that all readers of texts take for the same: with the same trees up to places, the same
expressions, arguments and pipelines, or else with the same messages. -/
structure ReadAlike (first second : String) : Prop where
  query : ((parseQuery first).map Node.plain).mapError (·.cause.message) =
    ((parseQuery second).map Node.plain).mapError (·.cause.message)
  arguments : ((parseArguments first).map Node.plain).mapError (·.cause.message) =
    ((parseArguments second).map Node.plain).mapError (·.cause.message)
  expression : (Expr.parse first).mapError SyntaxError.message =
    (Expr.parse second).mapError SyntaxError.message
  argumentList : (Expr.parseArguments first).mapError SyntaxError.message =
    (Expr.parseArguments second).mapError SyntaxError.message
  pipeline : (compile first).mapError CompileError.withoutPlace =
    (compile second).mapError CompileError.withoutPlace

/-- However they are laid out, texts of the same tokens are read alike. -/
theorem readAlike_of_tokens {first second : String} {ts us : List Token}
    (readFirst : tokenize first = .ok ts) (readSecond : tokenize second = .ok us)
    (same : ts.map Token.plain = us.map Token.plain) : ReadAlike first second := by
  have queries : AlikeResults (parseQuery first) (parseQuery second) :=
    parse_of_alike query_withoutPlaces readFirst readSecond same
  have lists : AlikeResults (parseArguments first) (parseArguments second) :=
    parse_of_alike arguments_withoutPlaces readFirst readSecond same
  refine ⟨queries.messages, lists.messages, ?_, ?_, ?_⟩
  · rw [Expr.parse, Expr.parse, message_locate, message_locate]
    exact congrArg _ (queries.bind Node.lowerQuery_plain)
  · rw [Expr.parseArguments, Expr.parseArguments, message_locate, message_locate]
    exact congrArg _ (lists.bind Node.lowerArgumentList_plain)
  · obtain ⟨ts', longerFirst, plainFirst⟩ := tokenize_comma readFirst
    obtain ⟨us', longerSecond, plainSecond⟩ := tokenize_comma readSecond
    have compiled : AlikeResults (parseQuery (first ++ ",")) (parseQuery (second ++ ",")) :=
      parse_of_alike query_withoutPlaces longerFirst longerSecond
        (by rw [plainFirst, plainSecond, same])
    rw [compile_withoutPlaces, compile_withoutPlaces, compiled]

/-- A call over two lines whose argument is refused by lowering. -/
theorem readAlike_of_tokens_lines :
    tokenize "f(1e5e5 ,x)" = .ok [⟨.name, "f", 0⟩, ⟨.openParen, "(", 1⟩, ⟨.float, "1e5e5", 2⟩,
        ⟨.comma, ",", 8⟩, ⟨.name, "x", 9⟩, ⟨.closeParen, ")", 10⟩, ⟨.endOfInput, "", 11⟩] ∧
      tokenize "f (1e5e5,\n\tx ) " = .ok [⟨.name, "f", 0⟩, ⟨.openParen, "(", 2⟩,
        ⟨.float, "1e5e5", 3⟩, ⟨.comma, ",", 8⟩, ⟨.name, "x", 11⟩, ⟨.closeParen, ")", 13⟩,
        ⟨.endOfInput, "", 15⟩] ∧
      ReadAlike "f(1e5e5 ,x)" "f (1e5e5,\n\tx ) " := by
  have readFirst : tokenize "f(1e5e5 ,x)" = .ok [⟨.name, "f", 0⟩, ⟨.openParen, "(", 1⟩,
      ⟨.float, "1e5e5", 2⟩, ⟨.comma, ",", 8⟩, ⟨.name, "x", 9⟩, ⟨.closeParen, ")", 10⟩,
      ⟨.endOfInput, "", 11⟩] := by cbv
  have readSecond : tokenize "f (1e5e5,\n\tx ) " = .ok [⟨.name, "f", 0⟩, ⟨.openParen, "(", 2⟩,
      ⟨.float, "1e5e5", 3⟩, ⟨.comma, ",", 8⟩, ⟨.name, "x", 11⟩, ⟨.closeParen, ")", 13⟩,
      ⟨.endOfInput, "", 15⟩] := by cbv
  exact ⟨readFirst, readSecond, readAlike_of_tokens readFirst readSecond rfl⟩

end RecordPipeline
