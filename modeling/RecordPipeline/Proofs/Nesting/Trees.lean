import Mathlib
import RecordPipeline.TokenTree
import RecordPipeline.Proofs.Grammar.Acceptance

/-!
How deep and how wide the trees of the grammar are. Every level of nesting is paid for, and the
symbols that can follow one another without a new level are finitely many, so the height of a tree
is bounded by its levels. The number of children of a node is not: chains, lists and trailers are
kept flat. The token tree of a tree nests no deeper than the tree is high.
-/

namespace RecordPipeline

open RecordPipeline.Grammar RecordPipeline.Parser

namespace Node

mutual

def height : Node → Nat
  | leaf _ => 1
  | branch _ children => heightOf children + 1

def heightOf : List Node → Nat
  | [] => 0
  | child :: later => max child.height (heightOf later)

end

mutual

def breadth : Node → Nat
  | leaf _ => 0
  | branch _ children => max children.length (breadthOf children)

def breadthOf : List Node → Nat
  | [] => 0
  | child :: later => max child.breadth (breadthOf later)

end

@[simp] theorem height_leaf (token : Token) : (leaf token).height = 1 := by
  simp [height]

@[simp] theorem height_branch (rule : Rule) (children : List Node) :
    (branch rule children).height = heightOf children + 1 := by
  simp [height]

theorem heightOf_le_iff {nodes : List Node} {bound : Nat} :
    heightOf nodes ≤ bound ↔ ∀ node ∈ nodes, node.height ≤ bound := by
  induction nodes with
  | nil => simp [heightOf]
  | cons node later ih => simp [heightOf, ih]

theorem breadthOf_le_iff {nodes : List Node} {bound : Nat} :
    breadthOf nodes ≤ bound ↔ ∀ node ∈ nodes, node.breadth ≤ bound := by
  induction nodes with
  | nil => simp [breadthOf]
  | cons node later ih => simp [breadthOf, ih]

theorem breadth_branch_le_iff {rule : Rule} {children : List Node} {bound : Nat} :
    (branch rule children).breadth ≤ bound ↔
      children.length ≤ bound ∧ ∀ node ∈ children, node.breadth ≤ bound := by
  rw [breadth, Nat.max_le, breadthOf_le_iff]

theorem height_collapse_le {rule : Rule} {children : List Node} {bound : Nat}
    (h : ∀ node ∈ children, node.height ≤ bound) : (collapse rule children).height ≤ bound + 1 := by
  match children with
  | [only] => exact Nat.le_succ_of_le (h only (by simp))
  | [] | _ :: _ :: _ => simpa [collapse] using heightOf_le_iff.2 h

end Node

namespace Grammar

def heightOfLevel : Nat := 11

/-- The height of a symbol above the expressions inside it. -/
def Symbol.rank : Symbol → Nat
  | expression => 0
  | expressions | attributeName => 1
  | fields => 2
  | query | atom | argument => 3
  | arguments => 4
  | trailer => 5
  | access | signed => 6
  | chain .product => 7
  | chain .sum => 8
  | chain .comparison | negation => 9
  | chain .conjunction => 10
  | chain .disjunction => 11

def Form.rank : Form → Nat
  | one _ => 1
  | symbol s => s.rank
  | both f g | either f g => max f.rank g.rank
  | optional f | many f => f.rank
  | deeper f => f.rank - heightOfLevel
  | branch _ f | collapse _ f => f.rank + 1

/-- No rule goes higher than its symbol unless it opens a level. -/
theorem Symbol.rank_rule (s : Symbol) : s.rule.rank ≤ s.rank := by
  cases s with
  | chain tier => cases tier <;> decide
  | _ => decide

theorem Parses.height_le {n : Nat} {f : Form} {nodes : List Node} (h : Parses n f nodes) :
    ∀ node ∈ nodes, node.height ≤ heightOfLevel * n + f.rank := by
  induction h with
  | one => simp [Form.rank]
  | @symbol n s nodes _ ih =>
    intro node member
    exact Nat.le_trans (ih node member) (Nat.add_le_add_left s.rank_rule _)
  | @both n f g front back _ _ ihFront ihBack =>
    intro node member
    rw [Form.rank]
    rcases List.mem_append.1 member with member | member
    · have := ihFront node member
      omega
    · have := ihBack node member
      omega
  | first _ ih | second _ ih =>
    intro node member
    have := ih node member
    rw [Form.rank]
    omega
  | absent | done => simp
  | present _ ih => exact ih
  | again _ _ ihHead ihTail =>
    intro node member
    rcases List.mem_append.1 member with member | member
    · exact ihHead node member
    · exact ihTail node member
  | deeper _ ih =>
    intro node member
    have := ih node member
    rw [Form.rank, Nat.mul_succ]
    omega
  | branch _ ih =>
    refine List.forall_mem_singleton.2 ?_
    rw [Node.height_branch]
    exact Nat.succ_le_succ (Node.heightOf_le_iff.2 ih)
  | collapse _ ih => exact List.forall_mem_singleton.2 (Node.height_collapse_le ih)

/-- The height of the tallest tree that the parser may make. -/
def maxHeight : Nat :=
  heightOfLevel * maxNesting + Symbol.query.rank

end Grammar

theorem parseQuery_height_le {source : String} {tree : Node}
    (read : parseQuery source = .ok tree) : tree.height ≤ maxHeight :=
  (parseQuery_sound (tokenize_of_parseQuery read) read).1.height_le tree (by simp)

namespace Node

mutual

theorem depth_tokenTree_le : ∀ node : Node, node.tokenTree.depth ≤ node.height
  | leaf token => by simp [tokenTree, TokenTree.leaf, TokenTree.depth, TokenTree.depthOf]
  | branch _ [] => by simp [tokenTree, tokenTrees, TokenTree.depth, TokenTree.depthOf]
  | branch rule [only] => by
    have part := depth_tokenTree_le only
    have inside := heightOf_le_iff.1 (Nat.le_refl (heightOf [only])) only (by simp)
    rw [tokenTree, height_branch]
    omega
  | branch _ (first :: second :: later) => by
    have all := depthOf_tokenTrees_le (first :: second :: later)
    simpa [tokenTree, TokenTree.depth] using all

theorem depthOf_tokenTrees_le : ∀ nodes : List Node,
    TokenTree.depthOf (tokenTrees nodes) ≤ heightOf nodes
  | [] => by simp [tokenTrees, TokenTree.depthOf]
  | child :: later => by
    have first := depth_tokenTree_le child
    have others := depthOf_tokenTrees_le later
    rw [tokenTrees, TokenTree.depthOf, heightOf]
    omega

end

end Node

/-- However long the source is, its tree and its token tree stay under one bound. -/
theorem parseQuery_nests_within {source : String} {tree : Node}
    (read : parseQuery source = .ok tree) :
    tree.height ≤ maxHeight ∧ tree.tokenTree.depth ≤ maxHeight :=
  have low := parseQuery_height_le read
  ⟨low, Nat.le_trans tree.depth_tokenTree_le low⟩

theorem parseQuery_nests_within_tuple : ∃ tree, parseQuery "x + (1, y)" = .ok tree ∧
    tree.height = 8 ∧ tree.tokenTree.depth = 5 ∧
      tree.height ≤ maxHeight ∧ tree.tokenTree.depth ≤ maxHeight :=
  have read : parseQuery "x + (1, y)" = .ok (.branch .query [.branch .sequence [.branch .sum
      [.branch .access [.leaf ⟨.name, "x", 0⟩], .leaf ⟨.plus, "+", 2⟩,
        .branch .access [.branch .parens [.leaf ⟨.openParen, "(", 4⟩,
          .branch .sequence [.branch .access [.leaf ⟨.integer, "1", 5⟩], .leaf ⟨.comma, ",", 6⟩,
            .branch .access [.leaf ⟨.name, "y", 8⟩]], .leaf ⟨.closeParen, ")", 9⟩]]]],
      .leaf ⟨.endOfInput, "", 10⟩]) := by cbv
  ⟨_, read, by decide, by decide, parseQuery_nests_within read⟩

end RecordPipeline
