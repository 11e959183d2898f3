import RecordPipeline.Proofs.Grammar.Acceptance
import RecordPipeline.Proofs.Grammar.Places

/-!
A text that spells the tokens of a tree is read as that tree, wherever the tree came from and however
the text is spaced. So an expression or a list of arguments can be taken out of one text and written
into another.
-/

namespace RecordPipeline

open RecordPipeline.Grammar RecordPipeline.Parser

theorem toOption_locate {α : Type} (source : String) (x : Except Fault α) :
    (locate source x).toOption = x.toOption := by
  cases x <;> rfl

theorem retoken_of_spells {n : Nat} {text : String} {f : Form} {nodes : List Node}
    (h : Parses n f nodes) (spelled : Spells text.toList (Node.tokensOf nodes)) :
    ∃ others last, Parses n f others ∧ Node.plainAll others = Node.plainAll nodes ∧
      tokenize text = .ok (Node.tokensOf others ++ [last]) ∧ last.kind = .endOfInput := by
  obtain ⟨read, last, tokens, same, kind⟩ := tokenize_of_spells spelled
  obtain ⟨others, parses, rfl, alike⟩ := h.retoken same
  exact ⟨others, last, parses, alike, tokens, kind⟩

theorem query_of_spells {n : Nat} {text : String} {e : Node}
    (h : Parses n (.symbol .expression) [e]) (spelled : Spells text.toList e.tokens) :
    ∃ query, Parses n (.symbol .query) [query] ∧ tokenize text = .ok query.tokens ∧
      query.lowerQuery.toOption = e.lower.toOption := by
  obtain ⟨others, last, parses, alike, tokens, kind⟩ :=
    retoken_of_spells h (by simpa using spelled)
  obtain ⟨other, rfl⟩ := parses_single (by simp) parses
  refine ⟨.branch .query [.branch .sequence [other], .leaf last], parses_query.2 ⟨[other], last,
    parses_commaList.2 ⟨[other], [], [], parses, .done, .inl rfl, rfl⟩, kind, rfl⟩,
    by simpa using tokens, ?_⟩
  simp only [Node.plainAll_cons, Node.plainAll_nil, List.cons.injEq, and_true] at alike
  exact Node.lower_toOption_of_plain alike

/-- An expression is read back from any text of its tokens. -/
theorem parse_of_spells {text : String} {e : Node}
    (h : Parses maxNesting (.symbol .expression) [e]) (spelled : Spells text.toList e.tokens) :
    (Expr.parse text).toOption = e.lower.toOption := by
  obtain ⟨query, parses, tokens, lowers⟩ := query_of_spells h spelled
  rw [Expr.parse, toOption_locate, parseQuery_complete tokens parses]
  exact lowers

theorem arguments_completes {content : List Node} {last : Token}
    (h : Parses maxNesting (Form.commaList (.symbol .argument)) content)
    (kind : last.kind = .endOfInput) :
    (arguments (.ofTokens (Node.tokensOf content ++ [last]))).1 =
      .ok (.branch .arguments content) := by
  have closed : ClosedBy .endOfInput [last] := ⟨last, [], rfl, kind⟩
  have notClosed := items_not_closed (by decide : .endOfInput ∈ closings) argument_single
    argument_starts h [last]
  have list := argumentList_completes (level_completes maxNesting) (by decide) closed
    (parses_arguments.2 ⟨content, h, rfl⟩)
  have end? : require .endOfInput "',' or end of input" (.ofTokens [last]) =
      (.ok (.leaf last), (TokenStream.ofTokens [last]).advance) := by
    rw [require, peek_bind, TokenStream.kind_ofTokens, if_pos kind]
    rfl
  rw [Node.tokens_branch] at list
  rw [arguments, argumentsOver, peek_bind, if_neg notClosed, bind_of_ok list, bind_of_ok end?]
  rfl

theorem parseArguments_of_spells {text : String} {content : List Node}
    (h : Parses maxNesting (Form.commaList (.symbol .argument)) content)
    (spelled : Spells text.toList (Node.tokensOf content)) :
    (Expr.parseArguments text).toOption = (Node.lowerArguments content).toOption := by
  obtain ⟨others, last, parses, alike, tokens, kind⟩ := retoken_of_spells h spelled
  have read : RecordPipeline.parseArguments text = .ok (.branch .arguments others) :=
    (parse_ok tokens).2 (arguments_completes parses kind)
  rw [Expr.parseArguments, toOption_locate, read]
  exact Node.lowerArguments_toOption_of_plain alike

theorem parseArguments_of_blank {text : String} (spelled : Spells text.toList []) :
    Expr.parseArguments text = .ok [] := by
  obtain ⟨read, last, tokens, same, kind⟩ := tokenize_of_spells spelled
  obtain rfl := List.map_eq_nil_iff.1 same
  have read : RecordPipeline.parseArguments text = .ok (.branch .arguments []) := by
    refine (parse_ok tokens).2 ?_
    rw [List.nil_append, arguments, argumentsOver, peek_bind, TokenStream.kind_ofTokens, if_pos kind]
    rfl
  have lowered : (Node.branch .arguments []).lowerArgumentList = .ok [] := by
    rw [Node.lowerArgumentList, Node.children, Node.lowerArguments]
  rw [Expr.parseArguments, read]
  exact congrArg (locate text) lowered

end RecordPipeline
