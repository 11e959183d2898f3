import Mathlib
import RecordPipeline.Proofs.Compiler.Parts
import RecordPipeline.Proofs.Grammar.Acceptance

/-!
Text put together again from any part of a tree. The tokens of a subtree stand together in the text
that was read, so what the grammar lets stand side by side there is all that meets in the joined
text, and reading that text gives the tokens of the subtree back.
-/

namespace RecordPipeline

open RecordPipeline.Grammar RecordPipeline.Parser

inductive Node.Within : Node → Node → Prop where
  | root {node : Node} : Node.Within node node
  | child {node part : Node} {rule : Rule} {children : List Node} (member : part ∈ children)
      (inside : Node.Within node part) : Node.Within node (.branch rule children)

theorem Node.tokens_infix {part : Node} {children : List Node} (member : part ∈ children) :
    part.tokens <:+: tokensOf children := by
  obtain ⟨front, back, rfl⟩ := List.append_of_mem member
  exact ⟨tokensOf front, tokensOf back, by simp⟩

theorem Node.Within.tokens {node tree : Node} (h : node.Within tree) :
    node.tokens <:+: tree.tokens := by
  induction h with
  | root => exact List.infix_rfl
  | child member _ ih =>
    rw [Node.tokens_branch]
    exact ih.trans (Node.tokens_infix member)

theorem text_of_endOfInput {s : Scanner} {bound : Nat} {tokens : List Token}
    (h : s.tokensWithin bound = .ok tokens) :
    ∀ t ∈ tokens, t.kind = .endOfInput → t.text = "" := by
  induction bound generalizing s tokens with
  | zero =>
    cases h
    simp
  | succ bound ih =>
    rw [Scanner.tokensWithin] at h
    split at h
    · cases h
    · rename_i token later found
      have first : token.kind = .endOfInput → token.text = "" := by
        intro isEnd
        obtain ⟨-, -, ⟨-, empty, -⟩ | ⟨lexeme, -⟩⟩ := Scanner.next_ok found
        · exact empty
        · exact absurd isEnd lexeme.ne_endOfInput
      split at h
      · cases h
        simpa using first
      · obtain ⟨more, read, rfl⟩ := except_map_ok.1 h
        intro t member
        rcases List.mem_cons.1 member with rfl | member
        · exact first
        · exact ih read t member

theorem spells_joinTokens_end {ts : List Token} (h : Joinable ts) :
    Spells (joinTokens (ts.map (·.text) ++ [""])).toList ts := by
  have joined := spells_joinTokens h.lexemes h.linked
  simp only [joinTokens, String.toList_ofList, List.map_append, List.map_cons, List.map_nil,
    List.foldl_append, List.foldl_cons, List.foldl_nil] at joined ⊢
  rw [joinToken]
  split
  · simpa using joined
  · simpa using joined.append_blank .done

theorem joinable_of_parseQuery {source : String} {tree : Node}
    (read : parseQuery source = .ok tree) :
    ∃ body last, tree.tokens = body ++ [last] ∧ Joinable body ∧ last.kind = .endOfInput ∧
      last.text = "" := by
  have tokenized := tokenize_of_parseQuery read
  obtain ⟨body, last, same, spelled, kind⟩ := spells_of_tokenize tokenized
  have named : Named tree.tokens := by
    simpa using (parseQuery_sound tokenized read).1.named (f := .symbol .query) rfl
  have linked : Linked body := by
    refine Linked.inside [] [last] ?_
    simpa [← same] using named.linked
  refine ⟨body, last, same, ⟨spelled.lexemes, linked⟩, kind, ?_⟩
  exact text_of_endOfInput tokenized last (by simp [same]) kind

/-- Every part of what is read is spelled by the text joined from its tokens. -/
theorem spells_of_within {source : String} {tree node : Node}
    (read : parseQuery source = .ok tree) (inside : node.Within tree) :
    Spells node.joined.toList (node.tokens.filter fun t => t.kind ≠ .endOfInput) := by
  obtain ⟨body, last, same, joinable, kind, text⟩ := joinable_of_parseQuery read
  have kept {ts : List Token} (h : Joinable ts) :
      (ts.filter fun t => t.kind ≠ .endOfInput) = ts :=
    List.filter_eq_self.2 fun t member => by simpa using (h.lexemes t member).ne_endOfInput
  have part := inside.tokens
  rw [same, List.infix_concat_iff, List.suffix_concat_iff] at part
  rw [Node.joined, Node.texts]
  rcases part with (none | ⟨inner, tokens, before⟩) | ⟨front, back, between⟩
  · rw [none]
    exact .done
  · obtain ⟨front, rfl⟩ := before
    rw [tokens, List.filter_append, kept joinable.right, List.map_append, List.map_cons, text]
    simpa [kind] using spells_joinTokens_end joinable.right
  · have h : Joinable node.tokens := Joinable.inside front back (between ▸ joinable)
    rw [kept h]
    exact spells_joinTokens h.lexemes h.linked

/-- The token tree of any part of what is read keeps the tokens of the part, and the text joined
from them is read as these tokens again, each with its kind and spelling. -/
theorem tokenize_joined_of_within (source : String) (tree node : Node)
    (read : parseQuery source = .ok tree) (inside : node.Within tree) :
    node.tokenTree.flatten = node.texts ∧
      ∃ tokens last, tokenize (joinTokens node.tokenTree.flatten) = .ok (tokens ++ [last]) ∧
        last.kind = .endOfInput ∧
        tokens.map Token.plain =
          (node.tokens.filter fun t => t.kind ≠ .endOfInput).map Token.plain := by
  refine ⟨node.flatten_tokenTree, ?_⟩
  obtain ⟨tokens, last, found, alike, kind⟩ := tokenize_of_spells (spells_of_within read inside)
  exact ⟨tokens, last, by rw [node.flatten_tokenTree]; exact found, kind, alike⟩

/-- A whole number and its attribute lose the blank between them and are still apart. -/
theorem tokenize_joined_of_within_attribute :
    ∃ tree node : Node, parseQuery "-1 .e5" = .ok tree ∧ node.Within tree ∧
      joinTokens node.tokenTree.flatten = "1.e5" ∧ node.tokenTree.flatten = node.texts ∧
      ∃ tokens last, tokenize (joinTokens node.tokenTree.flatten) = .ok (tokens ++ [last]) ∧
        last.kind = .endOfInput ∧
        tokens.map Token.plain =
          (node.tokens.filter fun t => t.kind ≠ .endOfInput).map Token.plain := by
  let number : Node := .branch .access
    [.leaf ⟨.integer, "1", 1⟩, .branch .trailer [.leaf ⟨.dot, ".", 3⟩, .leaf ⟨.name, "e5", 4⟩]]
  let signed : Node := .branch .signed [.leaf ⟨.minus, "-", 0⟩, number]
  let tree : Node := .branch .query [.branch .sequence [signed], .leaf ⟨.endOfInput, "", 6⟩]
  have read : parseQuery "-1 .e5" = .ok tree := by cbv
  have inside : number.Within tree :=
    .child (List.mem_cons_self ..) (.child (List.mem_cons_self ..)
      (.child (List.mem_cons_of_mem _ (List.mem_cons_self ..)) .root))
  exact ⟨tree, number, read, inside, by rfl, tokenize_joined_of_within _ tree number read inside⟩

end RecordPipeline
