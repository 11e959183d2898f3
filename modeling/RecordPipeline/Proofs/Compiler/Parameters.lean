import RecordPipeline.Pipeline.Compiler
import RecordPipeline.Proofs.Compiler.Parts
import RecordPipeline.Proofs.Grammar.Lowering
import RecordPipeline.Proofs.Grammar.Respelling

/-!
The arguments of a call, cut down to token trees, split at commas and joined to texts, are read back
as what they were. A shallow group is one text with its commas in it; in a deep one either every
argument has a text of its own, or a single argument is put together from its parts.
-/

namespace RecordPipeline

open Text RecordPipeline.Grammar RecordPipeline.Parser

theorem ne_empty_of_spells {text : String} {ts : List Token} (h : Spells text.toList ts)
    (some : ts ≠ []) : text ≠ "" := by
  rintro rfl
  exact some h.eq_nil

theorem comma_of_spells {t : Token} {ts : List Token} (h : Spells [','] (t :: ts)) :
    t.kind = .comma := by
  generalize same : [','] = cs at h
  cases h with
  | blank isBlank =>
    cases same
    exact absurd isBlank (by decide)
  | @token t cs _ lexeme =>
    obtain ⟨c, later, spelled, visible⟩ := lexeme.starts
    rw [spelled, List.cons_append, List.cons.injEq] at same
    obtain ⟨rfl, empty⟩ := same
    obtain ⟨rfl, rfl⟩ := List.append_eq_nil_iff.1 empty.symm
    rw [spelled] at lexeme
    exact lexeme.kind_unique rfl

theorem joined_ne_comma {node : Node} (joinable : Joinable node.tokens) (off : OffComma node) :
    node.joined ≠ "," := by
  intro same
  have spelled := Node.spells_joined joinable
  obtain ⟨t, later, tokens, notComma⟩ := off
  rw [same, tokens] at spelled
  exact notComma (comma_of_spells spelled)

theorem gather_spells {nodes : List Node} (joinable : Joinable (Node.tokensOf nodes))
    (off : ∀ node ∈ nodes, OffComma node) (merged : String) {ts : List Token}
    (front : Spells merged.toList ts) :
    ∃ text, Pieces.gather "," merged (nodes.map Node.joined) = (text, none) ∧
      Spells text.toList (ts ++ Node.tokensOf nodes) := by
  induction nodes generalizing merged ts with
  | nil => exact ⟨merged, rfl, by simpa using front⟩
  | cons node later ih =>
    rw [Node.tokensOf_cons] at joinable
    have first := joinable.left
    have notComma := joined_ne_comma first (off node (by simp))
    have next : Spells (if merged = "" then node.joined else merged ++ " " ++ node.joined).toList
        (ts ++ node.tokens) := by
      split
      · rename_i empty
        subst empty
        obtain rfl := front.eq_nil
        exact Node.spells_joined first
      · rw [String.toList_append, String.toList_append]
        simpa using front.append_blank (Node.spells_joined first)
    obtain ⟨text, gathered, spelled⟩ :=
      ih joinable.right (fun n member => off n (List.mem_cons_of_mem node member)) _ next
    refine ⟨text, ?_, by simpa using spelled⟩
    rw [List.map_cons, Pieces.gather, if_neg notComma]
    exact gathered

theorem toList_of_gather {parts : List String} {text : String}
    (gathered : Pieces.gather "," "" parts = (text, none)) (filled : text ≠ "") :
    (Pieces.ofTokens parts).toList "," = [text] := by
  have next : (Pieces.ofTokens parts).next "," = (some text, ⟨[], true⟩) := by
    simp [Pieces.next, Pieces.ofTokens, gathered, filled]
  have last : Pieces.toListWithin "," parts.length ⟨[], true⟩ = [] := by
    cases parts.length with
    | zero => rfl
    | succ bound => rw [Pieces.toListWithin, Pieces.next_of_ended "," rfl]
  rw [Pieces.toList, Pieces.toListWithin, next]
  exact congrArg (text :: ·) last

def itemsOf (nodes : List Node) : List Node :=
  nodes.filter fun node => node.kind? != some .comma

theorem gather_comma {text : String} (notComma : text ≠ ",") (later : List String) :
    Pieces.gather "," "" (text :: "," :: later) = (text, some later) := by
  rw [Pieces.gather, if_neg notComma, Pieces.gather, if_pos rfl, if_pos rfl]

theorem itemsOf_cons_comma {t : Token} (comma : t.kind = .comma) (later : List Node) :
    itemsOf (.leaf t :: later) = itemsOf later := by
  simp [itemsOf, Node.kind?, comma]

theorem OffComma.kind?_ne {node : Node} (off : OffComma node) : node.kind? ≠ some .comma := by
  obtain ⟨t, later, tokens, notComma⟩ := off
  cases node with
  | leaf u =>
    rw [Node.tokens_leaf] at tokens
    cases tokens
    simpa [Node.kind?] using notComma
  | branch rule children => simp [Node.kind?]

theorem itemsOf_cons_off {node : Node} (off : OffComma node) (later : List Node) :
    itemsOf (node :: later) = node :: itemsOf later := by
  simp [itemsOf, off.kind?_ne]

theorem joined_comma {t : Token} (comma : t.kind = .comma)
    (lexeme : Lexeme t.kind t.text.toList) : (Node.leaf t).joined = "," := by
  have spelled : t.text.toList = [','] := lexeme.text_of_symbol (by rw [comma]; rfl)
  have text : t.text = "," := by
    rw [← String.ofList_toList (s := t.text), spelled]
  simp [Node.joined, Node.texts, text]

theorem toListWithin_nil (bound : Nat) (ended : Bool) :
    Pieces.toListWithin "," bound ⟨[], ended⟩ = [] := by
  cases bound with
  | zero => rfl
  | succ bound => cases ended <;> rfl

theorem toListWithin_items {n : Nat} {f : Form}
    (single : ∀ {nodes}, Parses n f nodes → ∃ node, nodes = [node])
    (off : ∀ {node}, Parses n f [node] → OffComma node) {first : Node} (hFirst : Parses n f [first])
    {rest : List Node} (hRest : ListRest n f rest)
    (joinable : Joinable (Node.tokensOf (first :: rest))) (bound : Nat)
    (enough : rest.length < bound) :
    Pieces.toListWithin "," (bound + 1) ⟨(first :: rest).map Node.joined, false⟩ =
      (itemsOf (first :: rest)).map Node.joined := by
  induction bound generalizing first rest with
  | zero => omega
  | succ bound ih =>
    rw [Node.tokensOf_cons] at joinable
    have spelled := Node.spells_joined joinable.left
    have notComma := joined_ne_comma joinable.left (off hFirst)
    have filled : first.joined ≠ "" := by
      obtain ⟨t, later, tokens, -⟩ := off hFirst
      exact ne_empty_of_spells spelled (by simp [tokens])
    rw [itemsOf_cons_off (off hFirst), List.map_cons, List.map_cons]
    rcases listRest_cases hRest with rfl | ⟨t, comma, rfl⟩ | ⟨t, item, back, comma, hItem, hBack, rfl⟩
    · have next : Pieces.next "," ⟨[first.joined], false⟩ = (some first.joined, ⟨[], true⟩) := by
        simp [Pieces.next, Pieces.gather, notComma, filled]
      rw [List.map_nil, Pieces.toListWithin, next]
      simp only [toListWithin_nil]
      rfl
    · have text := joined_comma comma (joinable.right.lexemes t (by simp))
      have next : Pieces.next "," ⟨[first.joined, ","], false⟩ = (some first.joined, ⟨[], false⟩) := by
        simp [Pieces.next, gather_comma notComma]
      rw [List.map_cons, List.map_nil, text, Pieces.toListWithin, next, itemsOf_cons_comma comma]
      simp only [toListWithin_nil]
      rfl
    · obtain ⟨second, rfl⟩ := single hItem
      have text := joined_comma comma (joinable.right.lexemes t (by simp))
      have next : Pieces.next ","
          ⟨first.joined :: "," :: (second :: back).map Node.joined, false⟩ =
            (some first.joined, ⟨(second :: back).map Node.joined, false⟩) := by
        simp [Pieces.next, gather_comma notComma]
      have inside : Joinable (Node.tokensOf (second :: back)) := by
        have := joinable.right
        rw [List.cons_append, Node.tokensOf_cons, List.singleton_append] at this
        exact this.right
      have fewer : back.length < bound := by
        simp at enough
        omega
      have rest := ih hItem hBack inside fewer
      rw [List.cons_append, List.singleton_append, List.map_cons, text, Pieces.toListWithin, next,
        itemsOf_cons_comma comma, ← rest]

theorem toList_joined {node : Node} (joinable : Joinable node.tokens) (off : OffComma node) :
    (Pieces.ofTokens [node.joined]).toList "," = [node.joined] := by
  refine toList_of_gather ?_ ?_
  · rw [Pieces.gather, if_neg (joined_ne_comma joinable off)]
    rfl
  · obtain ⟨t, later, tokens, -⟩ := off
    exact ne_empty_of_spells (Node.spells_joined joinable) (by simp [tokens])

theorem parameterTexts_argument {node : Node} (h : Parses maxNesting (.symbol .argument) [node])
    (joinable : Joinable node.tokens) :
    ∃ text, node.tokenTree.parameterTexts = [text] ∧ Spells text.toList node.tokens := by
  have spelled := Node.spells_joined joinable
  have off := argument_offComma h
  rcases Node.tokenTree_parts node with ⟨t, tokens, leaf⟩ | ⟨many, group⟩
  · refine ⟨t.text, by rw [leaf, Node.parameterTexts_leaf], ?_⟩
    simpa [Node.joined, Node.texts, tokens] using spelled
  · rw [group, Node.parameterTexts_tokenTrees many, Node.tokensOf_parts]
    split
    · exact ⟨node.joined, toList_joined joinable off, spelled⟩
    · have inside : Joinable (Node.tokensOf node.parts) := by
        rwa [Node.tokensOf_parts]
      obtain ⟨text, found, spelledParts⟩ := gather_spells inside (argument_uncut h) "" .done
      rw [List.nil_append, Node.tokensOf_parts] at spelledParts
      obtain ⟨t, later, tokens, -⟩ := off
      exact ⟨text, toList_of_gather found (ne_empty_of_spells spelledParts (by simp [tokens])),
        spelledParts⟩

section ArgumentList

variable {content : List Node}

/-- A list of arguments becomes one text of all its tokens or a text for each argument. -/
theorem parameterTexts_arguments
    (h : Parses maxNesting (Form.commaList (.symbol .argument)) content)
    (joinable : Joinable (Node.tokensOf content)) :
    (∃ text, (Node.branch .arguments content).tokenTree.parameterTexts = [text] ∧
      Spells text.toList (Node.tokensOf content)) ∨
    (Node.branch .arguments content).tokenTree.parameterTexts =
      (itemsOf content).map Node.joined := by
  obtain ⟨front, more, trailing, hFirst, hMore, hTrailing, rfl⟩ := parses_commaList.1 h
  obtain ⟨first, rfl⟩ := argument_single hFirst
  have hRest : ListRest maxNesting (.symbol .argument) (more ++ trailing) :=
    ⟨more, trailing, hMore, hTrailing, rfl⟩
  generalize more ++ trailing = rest at joinable hRest
  rw [List.singleton_append] at joinable ⊢
  cases rest with
  | nil =>
    have only : (Node.branch .arguments [first]).tokenTree = first.tokenTree := by
      simp [Node.tokenTree]
    rw [Node.tokensOf_cons, Node.tokensOf_nil, List.append_nil] at joinable ⊢
    rw [only]
    exact .inl (parameterTexts_argument hFirst joinable)
  | cons second later =>
    have grouped : (Node.branch .arguments (first :: second :: later)).tokenTree =
        .group (Node.tokenTrees (first :: second :: later)) := by
      simp [Node.tokenTree]
    rw [grouped, Node.parameterTexts_tokenTrees (by simp)]
    split
    · have off : OffComma (.branch .arguments (first :: second :: later)) := by
        obtain ⟨t, behind, tokens, notComma⟩ := argument_offComma hFirst
        exact ⟨t, _, by simp [tokens]; rfl, notComma⟩
      rw [← Node.tokens_branch .arguments] at joinable ⊢
      exact .inl ⟨_, toList_joined joinable off, Node.spells_joined joinable⟩
    · refine .inr ?_
      rw [Pieces.toList, Pieces.ofTokens, List.length_map]
      exact toListWithin_items argument_single argument_offComma hFirst hRest joinable _ (by simp)

theorem toOption_bind {ε α β : Type} (x : Except ε α) (f : α → Except ε β) :
    (x >>= f).toOption = x.toOption.bind fun a => (f a).toOption := by
  cases x <;> rfl

theorem lowerArguments_itemsOf (nodes : List Node) :
    Node.lowerArguments (itemsOf nodes) = Node.lowerArguments nodes := by
  induction nodes with
  | nil => rfl
  | cons node later ih =>
    by_cases comma : node.kind? = some .comma
    · obtain ⟨t, rfl⟩ : ∃ t, node = .leaf t := by
        cases node with
        | leaf t => exact ⟨t, rfl⟩
        | branch rule children => cases comma
      have comma : t.kind = .comma := by simpa [Node.kind?] using comma
      rw [itemsOf_cons_comma comma, lowerArguments_comma comma, ih]
    · have kept : itemsOf (node :: later) = node :: itemsOf later := by
        simp [itemsOf, comma]
      rw [kept, lowerArguments_cons node (itemsOf later), lowerArguments_cons node later, ih]

theorem commaList_cases {n : Nat} {f : Form}
    (single : ∀ {nodes}, Parses n f nodes → ∃ node, nodes = [node])
    (h : Parses n (Form.commaList f) content) :
    ∀ node ∈ content, (∃ t, t.kind = .comma ∧ node = .leaf t) ∨ Parses n f [node] := by
  refine h.commaList_all (fun t comma => .inl ⟨t, comma, rfl⟩) fun {part} hPart node member => .inr ?_
  obtain ⟨only, rfl⟩ := single hPart
  exact List.mem_singleton.1 member ▸ hPart

theorem itemsOf_commaList {n : Nat} {f : Form}
    (single : ∀ {nodes}, Parses n f nodes → ∃ node, nodes = [node])
    (h : Parses n (Form.commaList f) content) (joinable : Joinable (Node.tokensOf content)) :
    ∀ node ∈ itemsOf content, Parses n f [node] ∧ Joinable node.tokens := by
  intro node member
  obtain ⟨inside, notComma⟩ := List.mem_filter.1 member
  refine ⟨?_, ?_⟩
  · rcases commaList_cases single h node inside with ⟨t, comma, rfl⟩ | parses
    · simp [Node.kind?, comma] at notComma
    · exact parses
  · obtain ⟨front, back, same⟩ := List.append_of_mem inside
    rw [same, Node.tokensOf_append, Node.tokensOf_cons] at joinable
    exact joinable.right.left

end ArgumentList

theorem parseParameters_items {nodes : List Node}
    (all : ∀ node ∈ nodes,
      Parses maxNesting (.symbol .argument) [node] ∧ Joinable node.tokens) :
    (Compiler.parseParameters (nodes.map Node.joined)).toOption =
      (Node.lowerArguments nodes).toOption := by
  induction nodes with
  | nil =>
    rw [Node.lowerArguments]
    rfl
  | cons node later ih =>
    obtain ⟨parses, joinable⟩ := all node (by simp)
    have rest := ih fun n member => all n (List.mem_cons_of_mem node member)
    have spelled := Node.spells_joined joinable
    have filled : ¬node.joined.toList.all isBlank = true := by
      obtain ⟨t, after, tokens, -⟩ := argument_offComma parses
      simp [spelled.ne_blank (by simp [tokens])]
    have single : Parses maxNesting (Form.commaList (.symbol .argument)) [node] :=
      parses_commaList.2 ⟨[node], [], [], parses, .done, .inl rfl, rfl⟩
    have first := parseArguments_of_spells single (by simpa using spelled)
    rw [List.map_cons, Compiler.parseParameters, if_neg filled, lowerArguments_cons, toOption_bind,
      toOption_bind, first]
    simp only [toOption_bind, rest]
    rfl

theorem spells_intercalate {first : Node} {later : List Node}
    (all : ∀ node ∈ first :: later, Joinable node.tokens) :
    Spells (String.intercalate "," ((first :: later).map Node.joined)).toList
      (Node.tokensOf (first :: behindCommas (later.map List.singleton))) := by
  induction later generalizing first with
  | nil => simpa using Node.spells_joined (all first (by simp))
  | cons second later ih =>
    have front := Node.spells_joined (all first (by simp))
    have back := ih fun n member => all n (List.mem_cons_of_mem first member)
    rw [List.map_cons, List.map_cons, String.intercalate_cons_cons]
    simpa [List.singleton] using front.append_comma back

theorem parseArguments_items {nodes : List Node} (some : nodes ≠ [])
    (all : ∀ node ∈ nodes,
      Parses maxNesting (.symbol .argument) [node] ∧ Joinable node.tokens) :
    (Expr.parseArguments (String.intercalate "," (nodes.map Node.joined))).toOption =
      (Node.lowerArguments nodes).toOption := by
  obtain ⟨first, later, rfl⟩ := List.exists_cons_of_ne_nil some
  have more : Parses maxNesting (.many (.both (.one [.comma]) (.symbol .argument)))
      (behindCommas (later.map List.singleton)) := by
    refine parses_behindCommas fun part member => ?_
    obtain ⟨node, inside, rfl⟩ := List.mem_map.1 member
    exact (all node (List.mem_cons_of_mem first inside)).1
  have list : Parses maxNesting (Form.commaList (.symbol .argument))
      (first :: behindCommas (later.map List.singleton)) :=
    parses_commaList.2 ⟨[first], _, [], (all first (by simp)).1, more, .inl rfl, by simp⟩
  rw [parseArguments_of_spells list (spells_intercalate fun n member => (all n member).2),
    lowerArguments_cons first (behindCommas _), lowerArguments_behindCommas,
    ← lowerArguments_cons]

section ArgumentList

variable {content : List Node}
  (h : Parses maxNesting (Form.commaList (.symbol .argument)) content)
  (joinable : Joinable (Node.tokensOf content))

include h

theorem itemsOf_ne_nil : itemsOf content ≠ [] := by
  obtain ⟨front, more, trailing, hFirst, -, -, rfl⟩ := parses_commaList.1 h
  obtain ⟨first, rfl⟩ := argument_single hFirst
  simp [itemsOf_cons_off (argument_offComma hFirst)]

include joinable

theorem parameterTexts_ne_nil :
    (Node.branch .arguments content).tokenTree.parameterTexts ≠ [] := by
  rcases parameterTexts_arguments h joinable with ⟨text, texts, -⟩ | texts
  · simp [texts]
  · simp [texts, itemsOf_ne_nil h]

/-- The texts of the arguments of a call, read one after the other, are its arguments. -/
theorem parseParameters_arguments :
    (Compiler.parseParameters (Node.branch .arguments content).tokenTree.parameterTexts).toOption =
      (Node.lowerArguments content).toOption := by
  rcases parameterTexts_arguments h joinable with ⟨text, texts, spelled⟩ | texts
  · have filled : ¬text.toList.all isBlank = true := by
      obtain ⟨t, later, tokens, -⟩ := commaList_starts argument_single argument_starts h
      simp [spelled.ne_blank (by simp [tokens])]
    rw [texts, Compiler.parseParameters, if_neg filled, toOption_bind,
      parseArguments_of_spells h spelled]
    cases (Node.lowerArguments content).toOption <;>
      simp [Compiler.parseParameters, bind, Except.bind, Except.toOption, pure, Except.pure]
  · rw [texts, parseParameters_items (itemsOf_commaList argument_single h joinable), lowerArguments_itemsOf]

theorem parseArguments_arguments :
    (Expr.parseArguments (String.intercalate ","
      (Node.branch .arguments content).tokenTree.parameterTexts)).toOption =
        (Node.lowerArguments content).toOption := by
  rcases parameterTexts_arguments h joinable with ⟨text, texts, spelled⟩ | texts
  · rw [texts, String.intercalate_singleton, parseArguments_of_spells h spelled]
  · rw [texts, parseArguments_items (itemsOf_ne_nil h) (itemsOf_commaList argument_single h joinable),
      lowerArguments_itemsOf]

end ArgumentList

end RecordPipeline
