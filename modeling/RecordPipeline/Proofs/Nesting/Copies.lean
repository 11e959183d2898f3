import RecordPipeline.Proofs.Nesting.Trees

/-!
What lowering copies. In a chain of comparisons every operand between the first and the last is
compared twice, so such operands inside one another double what is written again and again. Every
one of them is a level of nesting further down.

What is written is counted in tokens, so a tree must not have branches without any: trees of the
grammar have none.
-/

namespace RecordPipeline

open RecordPipeline.Grammar RecordPipeline.Parser

namespace Node

mutual

/-- How many operands with a comparison on either side stand one inside another. -/
def doublings : Node → Nat
  | leaf _ => 0
  | branch rule children =>
    if rule = .comparison then doublingsOfChain children else doublingsOf children

def doublingsOf : List Node → Nat
  | [] => 0
  | child :: later => max child.doublings (doublingsOf later)

def doublingsOfChain : List Node → Nat
  | [] => 0
  | first :: more => max first.doublings (doublingsOfComparisons more)

def doublingsOfComparisons : List Node → Nat
  | [] => 0
  | [symbol] => symbol.doublings
  | symbol :: right :: later =>
    max (max symbol.doublings (right.doublings + if later.isEmpty then 0 else 1))
      (doublingsOfComparisons later)

end

theorem doublingsOf_le_iff {nodes : List Node} {bound : Nat} :
    doublingsOf nodes ≤ bound ↔ ∀ node ∈ nodes, node.doublings ≤ bound := by
  induction nodes with
  | nil => simp [doublingsOf]
  | cons node later ih => simp [doublingsOf, ih]

theorem doublings_branch {rule : Rule} (other : rule ≠ .comparison) (children : List Node) :
    (branch rule children).doublings = doublingsOf children := by
  rw [doublings, if_neg other]

@[simp] theorem doublings_comparison (first : Node) (more : List Node) :
    (branch .comparison (first :: more)).doublings =
      max first.doublings (doublingsOfComparisons more) := by
  rw [doublings, if_pos rfl, doublingsOfChain]

theorem doublingsOfComparisons_le {nodes : List Node} {bound : Nat}
    (all : ∀ node ∈ nodes, node.doublings ≤ bound) : doublingsOfComparisons nodes ≤ bound + 1 := by
  match nodes, all with
  | [], _ => simp [doublingsOfComparisons]
  | [symbol], all =>
    rw [doublingsOfComparisons]
    exact Nat.le_succ_of_le (all symbol (by simp))
  | symbol :: right :: later, all =>
    have operator := all symbol (by simp)
    have operand := all right (by simp)
    have rest : doublingsOfComparisons later ≤ bound + 1 :=
      doublingsOfComparisons_le fun node member => all node (by simp [member])
    rw [doublingsOfComparisons]
    split <;> omega

theorem le_doublingsOfComparisons {nodes : List Node} {node : Node} (member : node ∈ nodes) :
    node.doublings ≤ doublingsOfComparisons nodes := by
  match nodes, member with
  | [symbol], member => simp [List.mem_singleton.1 member, doublingsOfComparisons]
  | symbol :: right :: later, member =>
    rw [doublingsOfComparisons]
    rcases List.mem_cons.1 member with rfl | member
    · omega
    rcases List.mem_cons.1 member with rfl | member
    · omega
    · have := le_doublingsOfComparisons member
      omega

theorem le_doublings_branch {rule : Rule} {children : List Node} {child : Node}
    (member : child ∈ children) : child.doublings ≤ (branch rule children).doublings := by
  by_cases chain : rule = .comparison
  · subst chain
    cases children with
    | nil => cases member
    | cons first more =>
      rw [doublings_comparison]
      rcases List.mem_cons.1 member with rfl | member
      · exact Nat.le_max_left ..
      · exact Nat.le_trans (le_doublingsOfComparisons member) (Nat.le_max_right ..)
  · rw [doublings_branch chain]
    exact doublingsOf_le_iff.1 (Nat.le_refl _) child member

theorem doublings_branch_le {rule : Rule} {children : List Node} {bound : Nat}
    (all : ∀ node ∈ children, node.doublings ≤ bound) :
    (branch rule children).doublings ≤ bound + if rule = .comparison then 1 else 0 := by
  by_cases chain : rule = .comparison
  · subst chain
    rw [if_pos rfl]
    cases children with
    | nil => simp [doublings, doublingsOfChain]
    | cons first more =>
      have left := all first (by simp)
      have others : doublingsOfComparisons more ≤ bound + 1 :=
        doublingsOfComparisons_le fun node member => all node (by simp [member])
      rw [doublings_comparison]
      omega
  · rw [if_neg chain, doublings_branch chain]
    exact doublingsOf_le_iff.2 all

theorem doublings_collapse_le {rule : Rule} {children : List Node} {bound : Nat}
    (all : ∀ node ∈ children, node.doublings ≤ bound) :
    (collapse rule children).doublings ≤ bound + if rule = .comparison then 1 else 0 := by
  match children, all with
  | [only], all => exact Nat.le_add_right_of_le (all only (by simp))
  | [], all | _ :: _ :: _, all => exact doublings_branch_le all

end Node

namespace Grammar

def Symbol.comparing : Symbol → Nat
  | chain .disjunction | chain .conjunction | chain .comparison | negation => 1
  | _ => 0

def Form.comparing : Form → Nat
  | one _ => 0
  | symbol s => s.comparing
  | both f g | either f g => max f.comparing g.comparing
  | optional f | many f => f.comparing
  | deeper f => f.comparing - 1
  | branch rule f | collapse rule f => f.comparing + if rule = .comparison then 1 else 0

theorem Symbol.comparing_rule (s : Symbol) : s.rule.comparing ≤ s.comparing := by
  cases s with
  | chain tier => cases tier <;> decide
  | _ => decide

/-- An operand of a comparison has another comparison in it only on a level further down. -/
theorem Parses.doublings_le {n : Nat} {f : Form} {nodes : List Node} (h : Parses n f nodes) :
    ∀ node ∈ nodes, node.doublings ≤ n + f.comparing := by
  induction h with
  | one => simp [Node.doublings]
  | @symbol n s nodes _ ih =>
    intro node member
    exact Nat.le_trans (ih node member) (Nat.add_le_add_left s.comparing_rule _)
  | both _ _ ihFront ihBack =>
    intro node member
    rw [Form.comparing]
    rcases List.mem_append.1 member with member | member
    · have := ihFront node member
      omega
    · have := ihBack node member
      omega
  | first _ ih | second _ ih =>
    intro node member
    have := ih node member
    rw [Form.comparing]
    omega
  | absent | done => simp
  | present _ ih => exact ih
  | again _ _ ihHead ihTail => exact List.forall_mem_append.2 ⟨ihHead, ihTail⟩
  | deeper _ ih =>
    intro node member
    have := ih node member
    rw [Form.comparing]
    omega
  | branch _ ih =>
    refine List.forall_mem_singleton.2 ?_
    rw [Form.comparing, ← Nat.add_assoc]
    exact Node.doublings_branch_le ih
  | collapse _ ih =>
    refine List.forall_mem_singleton.2 ?_
    rw [Form.comparing, ← Nat.add_assoc]
    exact Node.doublings_collapse_le ih

end Grammar

theorem doublings_le_of_parseQuery {source : String} {tree : Node}
    (read : parseQuery source = .ok tree) : tree.doublings ≤ maxNesting :=
  (parseQuery_sound (tokenize_of_parseQuery read) read).1.doublings_le tree (by simp)

def Rule.Admits : Rule → List Node → Prop
  | .sequence, children => ∃ t, t.kind = .comma ∧ .leaf t ∈ children
  | .notIn, children => 2 ≤ children.length
  | _, children => children ≠ []

namespace Node

inductive Filled : Node → Prop where
  | leaf (t : Token) : Filled (leaf t)
  | branch {rule : Rule} {children : List Node} (admits : rule.Admits children)
      (all : ∀ child ∈ children, Filled child) : Filled (branch rule children)

theorem Filled.child {rule : Rule} {children : List Node} {child : Node}
    (filled : (Node.branch rule children).Filled) (member : child ∈ children) : child.Filled := by
  cases filled with
  | branch _ all => exact all child member

theorem ne_nil_of_admits {rule : Rule} {children : List Node} (admits : rule.Admits children) :
    children ≠ [] := by
  rintro rfl
  cases rule <;> simp [Rule.Admits] at admits

theorem length_le_tokensOf {nodes : List Node} (each : ∀ node ∈ nodes, 0 < node.tokens.length) :
    nodes.length ≤ (tokensOf nodes).length := by
  induction nodes with
  | nil => simp
  | cons node later ih =>
    have first := each node (by simp)
    have rest := ih fun other member => each other (List.mem_cons_of_mem node member)
    simp only [tokensOf_cons, List.length_append, List.length_cons]
    omega

theorem Filled.tokens_pos {node : Node} (filled : node.Filled) : 0 < node.tokens.length := by
  induction filled with
  | leaf t => simp
  | branch admits _ ih =>
    rw [tokens_branch]
    exact Nat.lt_of_lt_of_le (List.length_pos_iff.2 (ne_nil_of_admits admits))
      (length_le_tokensOf ih)

theorem filled_collapse {rule : Rule} {children : List Node}
    (admits : (∃ only, children = [only]) ∨ rule.Admits children)
    (all : ∀ child ∈ children, child.Filled) : (collapse rule children).Filled := by
  match children, admits, all with
  | [only], _, all => exact all only (by simp)
  | [], .inr admits, all | _ :: _ :: _, .inr admits, all => exact .branch admits all

end Node

namespace Grammar

def Form.least : Form → Nat
  | one _ | symbol _ | branch _ _ | collapse _ _ => 1
  | both f g => f.least + g.least
  | either f g => min f.least g.least
  | optional _ | many _ => 0
  | deeper f => f.least

theorem Parses.least_le {n : Nat} {f : Form} {nodes : List Node} (h : Parses n f nodes) :
    f.least ≤ nodes.length := by
  induction h with
  | one | absent | done | branch | collapse => simp [Form.least]
  | @symbol n s nodes _ ih =>
    have : 1 ≤ s.rule.least := by
      cases s with
      | chain tier => cases tier <;> decide
      | _ => decide
    rw [Form.least]
    omega
  | both _ _ ihFront ihBack =>
    rw [Form.least, List.length_append]
    omega
  | first _ ih | second _ ih =>
    rw [Form.least]
    omega
  | present | again => simp [Form.least]
  | deeper _ ih => exact ih

def Form.fills : Form → Bool
  | one _ => true
  | symbol s => s != .query
  | both f g | either f g => f.fills && g.fills
  | optional f | many f | deeper f => f.fills
  | branch .sequence _ => false
  | branch .notIn f => 2 ≤ f.least && f.fills
  | branch _ f => 1 ≤ f.least && f.fills
  | collapse .sequence (symbol .expressions) => true
  | collapse .sequence _ | collapse .notIn _ => false
  | collapse _ f => 1 ≤ f.least && f.fills

theorem Symbol.rule_fills {s : Symbol} (inside : s ≠ .query) : s.rule.fills = true := by
  cases s with
  | query => exact absurd rfl inside
  | chain tier => cases tier <;> rfl
  | _ => rfl

theorem Parses.comma_of_expressions {n : Nat} {nodes : List Node}
    (h : Parses n (.symbol .expressions) nodes) :
    (∃ only, nodes = [only]) ∨ ∃ t, t.kind = .comma ∧ .leaf t ∈ nodes := by
  rw [parses_symbol, Symbol.rule] at h
  obtain ⟨first, more, trailing, hFirst, hMore, hTrailing, rfl⟩ := parses_commaList.1 h
  obtain ⟨e, rfl⟩ := expression_single hFirst
  have separated : more = [] ∨ ∃ t, t.kind = .comma ∧ .leaf t ∈ more := by
    refine hMore.many_induction (motive := fun more => more = [] ∨ ∃ t, t.kind = .comma ∧
      .leaf t ∈ more) (.inl rfl) ?_
    intro front back hFront _ _
    obtain ⟨_, item, hComma, -, rfl⟩ := parses_both.1 hFront
    obtain ⟨t, isComma, rfl⟩ := parses_one.1 hComma
    exact .inr ⟨t, List.mem_singleton.1 isComma, by simp⟩
  rcases separated with rfl | ⟨t, isComma, member⟩
  · rcases hTrailing with rfl | ⟨t, isComma, rfl⟩
    · exact .inl ⟨e, rfl⟩
    · exact .inr ⟨t, isComma, by simp⟩
  · exact .inr ⟨t, isComma, by simp [member]⟩

theorem Parses.filled {n : Nat} {f : Form} {nodes : List Node} (h : Parses n f nodes)
    (fills : f.fills = true) : ∀ node ∈ nodes, node.Filled := by
  induction h with
  | one _ => exact List.forall_mem_singleton.2 (.leaf _)
  | symbol _ ih => exact ih (Symbol.rule_fills (by simpa [Form.fills] using fills))
  | both _ _ ihFront ihBack =>
    rw [Form.fills, Bool.and_eq_true] at fills
    exact List.forall_mem_append.2 ⟨ihFront fills.1, ihBack fills.2⟩
  | first _ ih =>
    rw [Form.fills, Bool.and_eq_true] at fills
    exact ih fills.1
  | second _ ih =>
    rw [Form.fills, Bool.and_eq_true] at fills
    exact ih fills.2
  | absent | done => simp
  | again _ _ ihHead ihTail => exact List.forall_mem_append.2 ⟨ihHead fills, ihTail fills⟩
  | present _ ih | deeper _ ih => exact ih fills
  | @branch n rule f nodes parses ih =>
    have count := parses.least_le
    refine List.forall_mem_singleton.2 ?_
    cases rule <;> simp [Form.fills] at fills
    all_goals
      refine .branch ?_ (ih fills.2)
      simp only [Rule.Admits]
      first | omega | exact List.length_pos_iff.1 (by omega)
  | @collapse n rule f nodes parses ih =>
    have count := parses.least_le
    refine List.forall_mem_singleton.2 ?_
    by_cases sequence : rule = .sequence
    · subst sequence
      cases f with
      | symbol s =>
        cases s with
        | expressions => exact Node.filled_collapse parses.comma_of_expressions (ih rfl)
        | _ => cases fills
      | _ => cases fills
    · cases rule <;> simp [Form.fills] at fills sequence
      all_goals
        refine Node.filled_collapse (.inr ?_) (ih fills.2)
        simp only [Rule.Admits]
        exact List.length_pos_iff.1 (by omega)

end Grammar

end RecordPipeline
