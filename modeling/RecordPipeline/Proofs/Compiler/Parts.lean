import RecordPipeline.Proofs.Grammar.Completeness
import RecordPipeline.Proofs.Lexing.Joining
import RecordPipeline.TokenTree

/-!
Token trees in terms of the trees they are cut from. Such a tree groups the parts of a node, which
are its children behind branches of one child, and no part of an expression or an argument begins
with a comma: commas lie deeper, between brackets.
-/

namespace RecordPipeline

open RecordPipeline.Grammar

namespace Node

def joined (node : Node) : String :=
  joinTokens node.texts

theorem spells_joined {node : Node} (h : Joinable node.tokens) :
    Spells node.joined.toList node.tokens :=
  spells_joinTokens h.lexemes h.linked

mutual

theorem flatten_tokenTree : ∀ node : Node, node.tokenTree.flatten = node.texts
  | leaf t => by simp [tokenTree, texts]
  | branch _ [] => by simp [tokenTree, tokenTrees, texts, TokenTree.flatten, TokenTree.flattenAll]
  | branch _ [only] => by simpa [tokenTree, texts] using flatten_tokenTree only
  | branch _ (first :: second :: later) => by
    have all := flattenAll_tokenTrees (first :: second :: later)
    simpa [tokenTree, texts, TokenTree.flatten] using all

theorem flattenAll_tokenTrees : ∀ nodes : List Node,
    TokenTree.flattenAll (tokenTrees nodes) = (tokensOf nodes).map (·.text)
  | [] => by simp [tokenTrees, TokenTree.flattenAll]
  | child :: later => by
    have first := flatten_tokenTree child
    have rest := flattenAll_tokenTrees later
    simp [tokenTrees, TokenTree.flattenAll, first, rest, texts]

end

theorem tokenTrees_eq_map (nodes : List Node) : tokenTrees nodes = nodes.map tokenTree := by
  induction nodes with
  | nil => simp [tokenTrees]
  | cons child later ih => simp [tokenTrees, ih]

def parts : Node → List Node
  | leaf t => [leaf t]
  | branch _ [only] => only.parts
  | branch _ children => children

theorem tokensOf_parts (node : Node) : tokensOf node.parts = node.tokens := by
  fun_induction parts node with
  | case1 t => simp
  | case2 rule only ih => simpa using ih
  | case3 rule children many => simp

theorem tokenTree_parts (node : Node) :
    (∃ t, node.tokens = [t] ∧ node.tokenTree = .leaf t.text) ∨
      node.parts.length ≠ 1 ∧ node.tokenTree = .group (tokenTrees node.parts) := by
  fun_induction parts node with
  | case1 t => exact .inl ⟨t, by simp, by simp [tokenTree]⟩
  | case2 rule only ih => simpa [tokenTree] using ih
  | case3 rule children many =>
    refine .inr ?_
    rcases children with _ | ⟨first, _ | ⟨second, later⟩⟩
    · simp [tokenTree]
    · exact absurd rfl (many first)
    · simp [tokenTree]

theorem parameterTexts_leaf (text : String) : (TokenTree.leaf text).parameterTexts = [text] := rfl

theorem parameterTexts_tokenTrees {nodes : List Node} (many : nodes.length ≠ 1) :
    (TokenTree.group (tokenTrees nodes)).parameterTexts =
      (Pieces.ofTokens
        (if (TokenTree.group (tokenTrees nodes)).depth < 4 then
          [joinTokens ((tokensOf nodes).map (·.text))]
        else nodes.map joined)).toList "," := by
  have noToken : ∀ text, TokenTree.group (tokenTrees nodes) ≠ .group [.token text] := by
    intro text same
    rcases nodes with _ | ⟨first, _ | ⟨second, later⟩⟩
    · simp [tokenTrees] at same
    · exact many rfl
    · simp [tokenTrees] at same
  rw [TokenTree.parameterTexts]
  · simp only [TokenTree.flatten, TokenTree.children, tokenTrees_eq_map, List.map_map]
    have same : (fun child => joinTokens child.flatten) ∘ tokenTree = joined := by
      funext node
      simp [joined, flatten_tokenTree]
    rw [same, ← flattenAll_tokenTrees, tokenTrees_eq_map]
  · simp
  · simpa using noToken

end Node

def OffComma (node : Node) : Prop :=
  ∃ t later, node.tokens = t :: later ∧ t.kind ≠ .comma

theorem Grammar.StartsAmong.offComma {kinds : List TokenKind} {node : Node}
    (h : StartsAmong kinds node) (noComma : .comma ∉ kinds) : OffComma node := by
  obtain ⟨t, later, spelled, member⟩ := h
  exact ⟨t, later, spelled, fun comma => noComma (comma ▸ member)⟩

theorem offComma_leaf {t : Token} (h : t.kind ≠ .comma) : OffComma (.leaf t) :=
  ⟨t, [], by simp, h⟩

section Parts

variable {n : Nat} {node : Node}

theorem argument_offComma (h : Parses n (.symbol .argument) [node]) : OffComma node :=
  (argument_starts h).offComma (by decide)

theorem expression_offComma (h : Parses n (.symbol .expression) [node]) : OffComma node :=
  (expression_starts h).offComma (by decide)

/-- All parts of a tree begin with something else than a comma. -/
def Uncut (node : Node) : Prop :=
  ∀ part ∈ node.parts, OffComma part

theorem uncut_branch {rule : Rule} {first second : Node} {more : List Node}
    (all : ∀ part ∈ first :: second :: more, OffComma part) :
    Uncut (.branch rule (first :: second :: more)) := by
  intro part member
  rw [Node.parts] at member
  · exact all part member
  · intro only same
    cases same

theorem operator_single {tier : Tier} {nodes : List Node} (h : Parses n tier.operator nodes) :
    ∃ symbol, nodes = [symbol] ∧ OffComma symbol := by
  obtain ⟨t, later, spelled, looseness⟩ := operator_starts h
  have noComma : t.kind ≠ .comma := by
    intro comma
    rw [comma] at looseness
    cases tier <;> cases looseness
  have single : ∃ symbol, nodes = [symbol] := by
    rcases operator_cases h with ⟨t, -, rfl⟩ | ⟨-, t, u, -, -, rfl⟩ <;> exact ⟨_, rfl⟩
  obtain ⟨symbol, rfl⟩ := single
  exact ⟨symbol, rfl, t, later, by simpa using spelled, noComma⟩

theorem chain_uncut (tier : Tier)
    (starts : ∀ {node}, Parses n (.symbol tier.operand) [node] → OffComma node)
    (uncut : ∀ {node}, Parses n (.symbol tier.operand) [node] → Uncut node)
    (h : Parses n (.symbol (.chain tier)) [node]) : Uncut node := by
  obtain ⟨first, more, hFirst, hMore, same⟩ := parses_chain.1 h
  cases same
  have all : ∀ part ∈ more, OffComma part := by
    refine hMore.many_induction (motive := fun more => ∀ part ∈ more, OffComma part) (by simp) ?_
    intro front back hFront _ ih part member
    obtain ⟨_, rights, hSymbol, hRight, rfl⟩ := parses_both.1 hFront
    obtain ⟨symbol, rfl, offSymbol⟩ := operator_single hSymbol
    obtain ⟨right, rfl⟩ := parses_single tier.operand_ne_expressions hRight
    simp only [List.cons_append, List.nil_append, List.mem_cons] at member
    rcases member with rfl | rfl | member
    · exact offSymbol
    · exact starts hRight
    · exact ih part member
  cases more with
  | nil => exact uncut hFirst
  | cons second more =>
    refine uncut_branch fun part member => ?_
    rcases List.mem_cons.1 member with rfl | member
    · exact starts hFirst
    · exact all part member

theorem enclosed_uncut {rule : Rule} {opening closing : TokenKind} {f : Form}
    (opens : opening ≠ .comma) (closes : closing ≠ .comma)
    (starts : ∀ {nodes}, Parses n f nodes → ∃ content, nodes = [content] ∧ OffComma content)
    (h : Parses n (Form.enclosed rule opening closing f) [node]) : Uncut node := by
  obtain ⟨first, content, last, firstKind, lastKind, hContent, same⟩ := parses_enclosed.1 h
  cases same
  have offFirst : OffComma (.leaf first) := offComma_leaf (firstKind ▸ opens)
  have offLast : OffComma (.leaf last) := offComma_leaf (lastKind ▸ closes)
  rcases hContent with rfl | hContent
  · refine uncut_branch ?_
    simp [offFirst, offLast]
  · obtain ⟨inside, rfl, offInside⟩ := starts hContent
    refine uncut_branch ?_
    simp [offFirst, offLast, offInside]

theorem content_offComma {nodes : List Node} (h : Parses n Form.content nodes) :
    ∃ content, nodes = [content] ∧ OffComma content := by
  obtain ⟨items, hItems, rfl⟩ := parses_content.1 h
  obtain ⟨t, later, spelled, member⟩ := commaList_starts expression_single expression_starts hItems
  refine ⟨_, rfl, t, later, by simpa using spelled, fun comma => ?_⟩
  rw [comma] at member
  revert member
  decide

theorem fields_offComma {nodes : List Node} (h : Parses n (.symbol .fields) nodes) :
    ∃ content, nodes = [content] ∧ OffComma content := by
  obtain ⟨parts, hParts, rfl⟩ := parses_fields.1 h
  obtain ⟨front, more, trailing, hFront, -, -, rfl⟩ := parses_commaList.1 hParts
  obtain ⟨t, later, spelled, member⟩ := field_starts hFront
  refine ⟨_, rfl, t, _, by simp [spelled]; rfl, fun comma => ?_⟩
  rw [comma] at member
  revert member
  decide

theorem atom_uncut (h : Parses n (.symbol .atom) [node]) : Uncut node := by
  rcases parses_atom.1 h with ⟨t, member, same⟩ | ⟨dot, name, kind, word, same⟩ | h | h | h
  · cases same
    intro part inside
    rw [Node.parts, List.mem_singleton] at inside
    rw [inside]
    refine offComma_leaf fun comma => ?_
    rw [comma] at member
    revert member
    decide
  · cases same
    refine uncut_branch ?_
    have noComma : ∀ kind ∈ Symbol.words, kind ≠ .comma := by decide
    simp [offComma_leaf (noComma _ word), offComma_leaf (t := dot) (by simp [kind])]
  · exact enclosed_uncut (by decide) (by decide) content_offComma h
  · exact enclosed_uncut (by decide) (by decide) content_offComma h
  · exact enclosed_uncut (by decide) (by decide) fields_offComma h

theorem trailer_offComma {nodes : List Node} (h : Parses n (.symbol .trailer) nodes) :
    ∃ trailer, nodes = [trailer] ∧ OffComma trailer := by
  rcases parses_trailer.1 h with h | ⟨first, index, last, opens, -, -, rfl⟩ |
    ⟨dot, name, kind, -, rfl⟩
  · obtain ⟨first, content, last, opens, -, -, rfl⟩ := parses_enclosed.1 h
    exact ⟨_, rfl, first, _, by simp; rfl, by simp [opens]⟩
  · exact ⟨_, rfl, first, _, by simp; rfl, by simp [opens]⟩
  · exact ⟨_, rfl, dot, _, by simp; rfl, by simp [kind]⟩

theorem access_uncut (h : Parses n (.symbol .access) [node]) : Uncut node := by
  obtain ⟨front, more, hAtom, hMore, same⟩ := parses_access.1 h
  obtain ⟨atom, rfl⟩ := parses_single (by simp) hAtom
  cases same
  have all : ∀ part ∈ more, OffComma part := by
    intro part member
    obtain ⟨trailer, same, off⟩ := trailer_offComma (hMore.mem_many (parses_single (by simp)) part member)
    cases same
    exact off
  cases more with
  | nil =>
    intro part member
    rw [List.append_nil, Node.parts] at member
    exact atom_uncut hAtom part member
  | cons second more =>
    refine uncut_branch fun part member => ?_
    rcases List.mem_cons.1 member with rfl | member
    · exact (atom_starts hAtom).offComma (by decide)
    · exact all part member

theorem signed_uncut (h : Parses n (.symbol .signed) [node]) : Uncut node := by
  rcases parses_signed.1 h with ⟨t, operand, member, hOperand, same⟩ | h
  · obtain ⟨right, rfl⟩ := parses_deeper_single (by simp) hOperand
    obtain ⟨m, rfl, inner⟩ := parses_deeper.1 hOperand
    cases same
    have offSign : OffComma (.leaf t) := by
      refine offComma_leaf fun comma => ?_
      simp [comma] at member
    refine uncut_branch ?_
    simp [offSign, (signed_starts inner).offComma (by decide)]
  · exact access_uncut h

theorem negation_uncut (h : Parses n (.symbol .negation) [node]) : Uncut node := by
  rcases parses_negation.1 h with ⟨t, operand, kind, hOperand, same⟩ | h
  · obtain ⟨right, rfl⟩ := parses_deeper_single (by simp) hOperand
    obtain ⟨m, rfl, inner⟩ := parses_deeper.1 hOperand
    cases same
    refine uncut_branch ?_
    simp [offComma_leaf (t := t) (by simp [kind]), (negation_starts inner).offComma (by decide)]
  · refine chain_uncut .comparison
      (fun h => (chain_starts (fun _ => chain_starts fun _ => signed_starts) h).offComma (by decide))
      ?_ h
    refine chain_uncut .sum
      (fun h => (chain_starts (fun _ => signed_starts) h).offComma (by decide)) ?_
    exact chain_uncut .product (fun h => (signed_starts h).offComma (by decide))
      signed_uncut

theorem expression_uncut (h : Parses n (.symbol .expression) [node]) : Uncut node := by
  obtain ⟨m, -, h⟩ := parses_expression.1 h
  refine chain_uncut .disjunction
    (fun h => (chain_starts (fun _ => negation_starts) h).offComma (by decide)) ?_ h
  exact chain_uncut .conjunction (fun h => (negation_starts h).offComma (by decide))
    negation_uncut

theorem argument_uncut (h : Parses n (.symbol .argument) [node]) : Uncut node := by
  rcases parses_argument.1 h with h | ⟨name, sign, bound, isName, assigns, hBound, same⟩
  · exact expression_uncut h
  · cases same
    refine uncut_branch ?_
    have offName : OffComma (.branch .access [.leaf name]) := ⟨name, [], by simp, by simp [isName]⟩
    simp [offName, offComma_leaf (t := sign) (by simp [assigns]), expression_offComma hBound]

end Parts

end RecordPipeline
