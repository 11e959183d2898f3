import RecordPipeline.Proofs.Lowering.Faults
import RecordPipeline.Proofs.Nesting.Copies
import RecordPipeline.Proofs.Nesting.Expressions

/-!
How many nodes the expressions have that trees are lowered to. Every node of an expression comes
from a token of its own, apart from the operands of comparisons that are copied, so the size of an
expression is that of its text as often as copies stand one inside another.
-/

namespace RecordPipeline

open RecordPipeline.Grammar RecordPipeline.Parser

namespace Expr

mutual

def size : Expr → Nat
  | attr base _ => base.size + 1
  | index base key => base.size + key.size + 1
  | call function args named => function.size + (sizeOfAll args + sizeOfNamed named) + 1
  | binary _ left right => left.size + right.size + 1
  | not operand | negate operand => operand.size + 1
  | array items | tuple items => sizeOfAll items + 1
  | object fields => sizeOfFields fields + 1
  | _ => 1

def sizeOfAll : List Expr → Nat
  | [] => 0
  | e :: later => e.size + sizeOfAll later

def sizeOfNamed : List (String × Expr) → Nat
  | [] => 0
  | (_, e) :: later => e.size + sizeOfNamed later

def sizeOfFields : List (Expr × Expr) → Nat
  | [] => 0
  | (key, value) :: later => key.size + (value.size + sizeOfFields later)

end

attribute [simp] size sizeOfAll sizeOfNamed sizeOfFields

end Expr

namespace Argument

def size : Argument → Nat
  | positional e | named _ e => e.size

theorem size_split (arguments : List Argument) :
    Expr.sizeOfAll (split arguments).1 + Expr.sizeOfNamed (split arguments).2 =
      (arguments.map size).sum := by
  induction arguments with
  | nil => simp
  | cons a later ih =>
    rw [List.map_cons, List.sum_cons, ← ih]
    cases a with
    | positional e =>
      rw [split_cons_positional, Expr.sizeOfAll, size, Nat.add_assoc]
    | named name e =>
      rw [split_cons_named, Expr.sizeOfNamed, size, Nat.add_left_comm]

end Argument

namespace Trailer

def size : Trailer → Nat
  | attr _ => 0
  | index key => key.size
  | call args named => Expr.sizeOfAll args + Expr.sizeOfNamed named

theorem size_onto (t : Trailer) (object : Expr) :
    (t.onto object).size = object.size + t.size + 1 := by
  cases t <;> simp [onto, size]

end Trailer

namespace Node

/-- What the tree is lowered to has at most so many nodes for each token. -/
def SizedBy (factor : Nat) (node : Node) : Prop :=
  ∀ e, node.lower = .ok e → e.size ≤ factor * node.tokens.length

variable {factor : Nat} {node : Node}

theorem SizedBy.deepen {depth : Nat} (sized : node.SizedBy (2 ^ node.doublings))
    (le : node.doublings ≤ depth) : node.SizedBy (2 ^ depth) := fun e h =>
  Nat.le_trans (sized e h) (Nat.mul_le_mul_right _ (Nat.pow_le_pow_right Nat.two_pos le))

theorem Filled.le_mul (filled : node.Filled) (factor : Nat) :
    factor ≤ factor * node.tokens.length :=
  Nat.le_mul_of_pos_right _ filled.tokens_pos

theorem size_literal {token : Token} {e : Expr} (h : literal token = .ok e) : e.size = 1 := by
  simp only [literal, integerLiteral, floatLiteral, misplaced] at h
  grind [Expr.size]

theorem size_items {nodes : List Node} {items : List Expr} (h : LowersItems nodes items)
    (all : ∀ node ∈ nodes, node.SizedBy factor) :
    Expr.sizeOfAll items + factor * nodes.countP (·.kind? = some .comma) ≤
      factor * (tokensOf nodes).length := by
  induction h with
  | none => simp
  | @comma node _ _ comma _ ih =>
    have rest := ih fun node member => all node (List.mem_cons_of_mem _ member)
    rw [List.countP_cons, tokensOf_cons, List.length_append, Nat.mul_add, Nat.mul_add]
    cases node with
    | leaf t =>
      simp only [comma, decide_true, if_true, tokens_leaf, List.length_singleton]
      omega
    | branch rule children => cases comma
  | item noComma lowers _ ih =>
    have rest := ih fun node member => all node (List.mem_cons_of_mem _ member)
    have first := all _ (by simp) _ lowers
    rw [List.countP_cons, tokensOf_cons, List.length_append, Nat.mul_add, Nat.mul_add]
    simp only [noComma, decide_false, Bool.false_eq_true, if_false, Expr.sizeOfAll]
    omega

theorem size_chain {nodes : List Node} {left e : Expr} (positive : 0 < factor)
    (h : LowersChain left nodes e) (all : ∀ node ∈ nodes, node.SizedBy factor) :
    e.size ≤ left.size + factor * (tokensOf nodes).length := by
  induction h with
  | none => simp
  | more _ lowers _ ih =>
    have rest := ih fun node member => all node (by simp [member])
    have operand := all _ (by simp) _ lowers
    simp only [Expr.size, tokensOf_cons, tokens_leaf, List.length_append, List.length_singleton,
      Nat.mul_add] at rest ⊢
    omega

theorem Compares.size_le {symbol : Node} {left right e : Expr} (h : Compares left right symbol e)
    (filled : symbol.Filled) : e.size ≤ left.size + right.size + symbol.tokens.length := by
  cases h with
  | @notIn words =>
    have two : 2 ≤ words.length := by
      cases filled with
      | branch admits _ => exact admits
    have := length_le_tokensOf fun _ member => (filled.child member).tokens_pos
    simp only [Expr.size, tokens_branch]
    omega
  | operator _ =>
    simp only [Expr.size, tokens_leaf, List.length_singleton]
    omega

/-- Comparisons and the conjunctions between them. Every operand but the last is copied into the
next comparison. -/
theorem size_comparisons {nodes : List Node} {depth : Nat} {left : Expr} {comparisons : List Expr}
    (h : LowersComparisons left nodes comparisons)
    (all : ∀ node ∈ nodes, node.Filled ∧ node.SizedBy (2 ^ node.doublings))
    (nested : doublingsOfComparisons nodes ≤ depth) (operators : nodes ≠ []) :
    Expr.sizeOfAll comparisons + comparisons.length ≤
      left.size + 2 ^ depth * (tokensOf nodes).length + 1 := by
  induction h generalizing depth with
  | none => exact absurd rfl operators
  | @more left second comparison symbol right later others lowers compares rest ih =>
    have filled := (all symbol (by simp)).1
    have first := compares.size_le filled
    have sized := (all right (by simp)).2
    rw [doublingsOfComparisons] at nested
    simp only [Expr.sizeOfAll, List.length_cons, tokensOf_cons, List.length_append, Nat.mul_add]
    cases later with
    | nil =>
      cases rest
      have operator : symbol.tokens.length ≤ 2 ^ depth * symbol.tokens.length :=
        Nat.le_mul_of_pos_left _ (Nat.two_pow_pos depth)
      have operand := sized.deepen (by omega : right.doublings ≤ depth) second lowers
      simp only [Expr.sizeOfAll, tokensOf_nil, List.length_nil]
      omega
    | cons next more =>
      simp only [List.isEmpty_cons, Bool.false_eq_true, if_false] at nested
      -- the operand is written twice, and it has one copied operand less inside
      obtain ⟨depth, rfl⟩ : ∃ less, depth = less + 1 := ⟨depth - 1, by omega⟩
      have twice (count : Nat) : 2 ^ (depth + 1) * count = 2 * (2 ^ depth * count) := by
        rw [Nat.pow_succ, Nat.mul_comm _ 2, Nat.mul_assoc]
      have operator : symbol.tokens.length ≤ 2 ^ depth * symbol.tokens.length :=
        Nat.le_mul_of_pos_left _ (Nat.two_pow_pos depth)
      have operand := sized.deepen (by omega : right.doublings ≤ depth) second lowers
      have later : doublingsOfComparisons (next :: more) ≤ depth + 1 := by omega
      have rest := ih
        (fun node member => all node (List.mem_cons_of_mem _ (List.mem_cons_of_mem _ member)))
        later (List.cons_ne_nil next more)
      have := filled.tokens_pos
      simp only [tokensOf_cons, List.length_append, twice] at rest ⊢
      omega

theorem size_foldl_and (first : Expr) (later : List Expr) :
    (later.foldl (.binary .and) first).size = first.size + Expr.sizeOfAll later + later.length := by
  induction later generalizing first with
  | nil => simp
  | cons e later ih =>
    rw [List.foldl_cons, ih, Expr.sizeOfAll, List.length_cons, Expr.size]
    omega

def SizedThrough (factor : Nat) (node : Node) : Prop :=
  ∀ part : Node, part.Within node → part.Filled ∧ part.SizedBy factor

namespace SizedThrough

theorem filled (all : node.SizedThrough factor) : node.Filled :=
  (all node .root).1

theorem sized (all : node.SizedThrough factor) : node.SizedBy factor :=
  (all node .root).2

theorem child {rule : Rule} {children : List Node}
    (all : (branch rule children).SizedThrough factor) :
    ∀ child ∈ children, child.SizedThrough factor := fun _ member part inside =>
  all part (.child member inside)

end SizedThrough

section Rules

variable (positive : 0 < factor)

include positive

theorem le_of_opened {opening : Node} {others : List Node} {size : Nat} (filled : opening.Filled)
    (inside : size ≤ factor * (tokensOf others).length + 1) :
    size ≤ factor * (tokensOf (opening :: others)).length := by
  have := filled.le_mul factor
  rw [tokensOf_cons, List.length_append, Nat.mul_add]
  omega

theorem size_key {key : Node} {k : Expr} (all : key.SizedThrough factor)
    (h : lowerKey key = .ok k) : k.size ≤ factor * key.tokens.length := by
  rw [lowerKey] at h
  split at h
  · cases h
    simp only [Expr.size]
    exact Nat.le_trans positive (all.filled.le_mul factor)
  · exact all.sized k h

theorem size_fields {nodes : List Node} {fields : List (Expr × Expr)}
    (h : LowersFields nodes fields) (all : ∀ node ∈ nodes, node.SizedThrough factor) :
    Expr.sizeOfFields fields ≤ factor * (tokensOf nodes).length := by
  induction h with
  | none _ => simp
  | last lowersKey lowers =>
    have first := size_key positive (all _ (by simp)) lowersKey
    have second := (all _ (by simp)).sized _ lowers
    simp only [Expr.sizeOfFields, tokensOf_cons, tokensOf_nil, List.length_append, Nat.mul_add]
    omega
  | more lowersKey lowers _ ih =>
    have first := size_key positive (all _ (by simp)) lowersKey
    have second := (all _ (by simp)).sized _ lowers
    have rest := ih fun node member => all node (by simp [member])
    simp only [Expr.sizeOfFields, tokensOf_cons, List.length_append, Nat.mul_add]
    omega

omit positive in
theorem size_arguments {nodes : List Node} {arguments : List Argument}
    (h : LowersArguments nodes arguments) (all : ∀ node ∈ nodes, node.SizedThrough factor) :
    (arguments.map Argument.size).sum ≤ factor * (tokensOf nodes).length := by
  induction h with
  | none => simp
  | comma _ _ _ ih =>
    have rest := ih fun node member => all node (List.mem_cons_of_mem _ member)
    rw [tokensOf_cons, List.length_append, Nat.mul_add]
    omega
  | positional _ _ lowers _ ih =>
    have rest := ih fun node member => all node (List.mem_cons_of_mem _ member)
    have first := (all _ (by simp)).sized _ lowers
    rw [List.map_cons, List.sum_cons, Argument.size, tokensOf_cons, List.length_append, Nat.mul_add]
    omega
  | @named name sign value _ _ _ lowers _ ih =>
    have rest := ih fun node member => all node (List.mem_cons_of_mem _ member)
    have bound : (branch .binding [name, sign, value]).SizedThrough factor := all _ (by simp)
    have := (bound.child value (by simp)).sized _ lowers
    simp only [List.map_cons, List.sum_cons, Argument.size, tokens_branch, tokensOf_cons,
      tokensOf_nil, List.length_append, Nat.mul_add]
    omega

theorem size_trailer {trailer : Node} {t : Trailer} (h : LowersTrailer trailer t)
    (all : trailer.SizedThrough factor) : t.size + 1 ≤ factor * trailer.tokens.length := by
  have opened {rule : Rule} {opening : Node} {parts : List Node}
      (all : (branch rule (opening :: parts)).SizedThrough factor)
      (inside : t.size ≤ factor * (tokensOf parts).length) :
      t.size + 1 ≤ factor * (branch rule (opening :: parts)).tokens.length := by
    rw [tokens_branch]
    exact le_of_opened positive (all.child opening (by simp)).filled (by omega)
  cases h with
  | attr _ | empty _ => exact opened all (Nat.zero_le _)
  | index _ lowers =>
    have := (all.child _ (by simp)).sized _ lowers
    refine opened all ?_
    simp only [Trailer.size, tokensOf_cons, List.length_append, Nat.mul_add]
    omega
  | @call _ inside _ content _ arguments _ lowers =>
    have list : (branch inside content).SizedThrough factor := all.child _ (by simp)
    have := size_arguments lowers list.child
    refine opened all ?_
    simp only [Trailer.size, Argument.size_split, tokensOf_cons, tokens_branch, List.length_append,
      Nat.mul_add]
    omega

theorem size_trailers {trailers : List Node} {object e : Expr}
    (h : LowersTrailers object trailers e)
    (all : ∀ trailer ∈ trailers, trailer.SizedThrough factor) :
    e.size ≤ object.size + factor * (tokensOf trailers).length := by
  induction h with
  | none => simp
  | more lowers _ ih =>
    have once := size_trailer positive lowers (all _ (by simp))
    have rest := ih fun trailer member => all trailer (List.mem_cons_of_mem _ member)
    rw [Trailer.size_onto] at rest
    rw [tokensOf_cons, List.length_append, Nat.mul_add]
    omega

theorem size_branch {rule : Rule} {children : List Node} (other : rule ≠ .comparison)
    (filled : (branch rule children).Filled)
    (all : ∀ child ∈ children, child.SizedThrough factor) :
    (branch rule children).SizedBy factor := by
  have sized (child : Node) (member : child ∈ children) : child.SizedBy factor :=
    (all child member).sized
  intro e h
  rw [tokens_branch]
  cases lower_eq_ok.1 h with
  | comparison _ _ => exact absurd rfl other
  | sequence lowers =>
    have commas : 0 < children.countP (·.kind? = some .comma) := by
      cases filled with
      | branch admits _ =>
        obtain ⟨t, comma, member⟩ := admits
        exact List.countP_pos_iff.2 ⟨.leaf t, member, by simp [kind?, comma]⟩
    have := size_items lowers sized
    have := Nat.le_mul_of_pos_right factor commas
    simp only [Expr.size]
    omega
  | chain _ lowers rest =>
    have operand := sized _ (by simp) _ lowers
    have := size_chain positive rest fun node member => sized node (by simp [member])
    rw [tokensOf_cons, List.length_append, Nat.mul_add]
    omega
  | access lowers rest =>
    have operand := sized _ (by simp) _ lowers
    have := size_trailers positive rest fun node member => all node (by simp [member])
    rw [tokensOf_cons, List.length_append, Nat.mul_add]
    omega
  | negation lowers =>
    have operand := sized _ (by simp) _ lowers
    refine le_of_opened positive (all _ (by simp)).filled ?_
    rw [tokensOf_cons, tokensOf_nil, List.append_nil]
    exact Nat.succ_le_succ operand
  | signed lowers =>
    have operand := sized _ (by simp) _ lowers
    refine le_of_opened positive (all _ (by simp)).filled ?_
    rw [tokensOf_cons, tokensOf_nil, List.append_nil]
    split
    · exact Nat.succ_le_succ operand
    · exact Nat.le_succ_of_le operand
  | parens lowers =>
    have := sized _ (by simp) e lowers
    simp only [tokensOf_cons, List.length_append, Nat.mul_add]
    omega
  | noItems | noElements | noFields =>
    exact le_of_opened positive (all _ (by simp)).filled (Nat.le_add_left 1 _)
  | implicitField =>
    refine le_of_opened positive (all _ (by simp)).filled ?_
    simp only [Expr.size, tokensOf_cons, tokensOf_nil, tokens_leaf, List.append_nil,
      List.length_singleton]
    omega
  | @elements _ _ nodes _ lowers =>
    have list := all (branch .sequence nodes) (by simp)
    have := size_items lowers fun node member => (list.child node member).sized
    refine le_of_opened positive (all _ (by simp)).filled ?_
    simp only [Expr.size, tokensOf_cons, tokens_branch, List.length_append, Nat.mul_add]
    omega
  | element _ lowers =>
    have := sized _ (by simp) _ lowers
    refine le_of_opened positive (all _ (by simp)).filled ?_
    simp only [Expr.size, Expr.sizeOfAll, tokensOf_cons, List.length_append, Nat.mul_add]
    omega
  | @fields _ _ parts _ lowers =>
    have list := all (branch .fields parts) (by simp)
    have := size_fields positive lowers list.child
    refine le_of_opened positive (all _ (by simp)).filled ?_
    simp only [Expr.size, tokensOf_cons, tokens_branch, List.length_append, Nat.mul_add]
    omega

end Rules

theorem size_comparison_chain {children : List Node}
    (all : ∀ child ∈ children, child.Filled ∧ child.SizedBy (2 ^ child.doublings)) :
    (branch .comparison children).SizedBy (2 ^ (branch .comparison children).doublings) := by
  intro e h
  cases lower_eq_ok.1 h with
  | chain joins _ _ => simp at joins
  | @comparison first more left comparison later lowers rest =>
    have operators : more ≠ [] := by
      rintro rfl
      cases rest
    rw [doublings_comparison, tokens_branch, tokensOf_cons, List.length_append, Nat.mul_add]
    have operand := (all first (by simp)).2.deepen
      (Nat.le_max_left first.doublings (doublingsOfComparisons more)) left lowers
    have chain := size_comparisons rest
      (fun node member => all node (List.mem_cons_of_mem first member))
      (Nat.le_max_right first.doublings _) operators
    rw [Expr.sizeOfAll, List.length_cons] at chain
    rw [size_foldl_and]
    omega

theorem doublings_le_of_within {part node : Node} (inside : part.Within node) :
    part.doublings ≤ node.doublings := by
  induction inside with
  | root => exact Nat.le_refl _
  | child member _ ih => exact Nat.le_trans ih (le_doublings_branch member)

theorem filled_of_within {part node : Node} (inside : part.Within node) (filled : node.Filled) :
    part.Filled := by
  induction inside with
  | root => exact filled
  | child member _ ih => exact ih (filled.child member)

/-- Every operand that is copied doubles the number of nodes for a token. -/
theorem sized_of_filled (filled : node.Filled) :
    ∀ part : Node, part.Within node → part.SizedBy (2 ^ part.doublings) := by
  induction filled with
  | leaf t =>
    intro part inside
    cases inside
    intro e h
    rw [lower] at h
    simp [size_literal h, doublings]
  | @branch rule children admits all ih =>
    intro part inside
    cases inside with
    | child member inside => exact ih _ member part inside
    | root =>
      have filled := Filled.branch admits all
      by_cases chain : rule = .comparison
      · subst chain
        exact size_comparison_chain fun child member =>
          ⟨all child member, ih child member child .root⟩
      · refine size_branch (Nat.two_pow_pos _) chain filled fun child member part inside => ?_
        have deeper : part.doublings ≤ (branch rule children).doublings :=
          doublings_le_of_within (.child member inside)
        exact ⟨filled_of_within inside (all child member),
          (ih child member part inside).deepen deeper⟩

theorem doublings_collapse_le_branch (rule : Rule) (children : List Node) :
    (collapse rule children).doublings ≤ (branch rule children).doublings := by
  match children with
  | [only] => exact le_doublings_branch (List.mem_singleton.2 rfl)
  | [] | _ :: _ :: _ => exact Nat.le_refl _

end Node

/-- An expression has no more nodes than its text has tokens, twice as many for every operand
between two comparisons inside another such operand. -/
theorem Expr.size_le_of_parse {text : String} {e : Expr} (read : Expr.parse text = .ok e) :
    ∃ tree tokens last, parseQuery text = .ok tree ∧ tokenize text = .ok (tokens ++ [last]) ∧
      last.kind = .endOfInput ∧ tree.doublings ≤ maxNesting ∧
      e.size ≤ 2 ^ tree.doublings * tokens.length ∧
      (tree.doublings ≤ 2 → e.size ≤ 4 * tokens.length) := by
  obtain ⟨tree, isTree, lowers⟩ := except_bind_ok.1 (locate_eq_ok.1 read)
  have tokenized := tokenize_of_parseQuery isTree
  obtain ⟨parses, -⟩ := parseQuery_sound tokenized isTree
  obtain ⟨items, last, hItems, isEnd, same⟩ := parses_query.1 parses
  cases same
  have content : Parses maxNesting Form.content [.collapse .sequence items] :=
    parses_content.2 ⟨items, hItems, rfl⟩
  have filled := content.filled rfl (.collapse .sequence items) (by simp)
  rw [Node.lowerQuery_eq] at lowers
  have sized (depth : Nat) (le : Node.doublings (.branch .query
      [.branch .sequence items, .leaf last]) ≤ depth) :
      e.size ≤ 2 ^ depth * (Node.tokensOf items).length := by
    have inside : (Node.branch .sequence items).doublings ≤ depth :=
      Nat.le_trans (Node.le_doublings_branch (List.mem_cons_self ..)) le
    have bound := (Node.sized_of_filled filled _ .root).deepen
      (Nat.le_trans (Node.doublings_collapse_le_branch .sequence items) inside) e lowers
    rwa [Node.tokens_collapse] at bound
  refine ⟨_, Node.tokensOf items, last, isTree, by simpa using tokenized, isEnd,
    doublings_le_of_parseQuery isTree, sized _ (Nat.le_refl _), sized 2⟩

theorem Expr.size_le_of_parse_chain : ∃ e, Expr.parse "x < 1 < 2" = .ok e ∧ e.size = 7 ∧
    ∃ tree tokens last, parseQuery "x < 1 < 2" = .ok tree ∧
      tokenize "x < 1 < 2" = .ok (tokens ++ [last]) ∧ last.kind = .endOfInput ∧
      tree.doublings ≤ maxNesting ∧ e.size ≤ 2 ^ tree.doublings * tokens.length ∧
      (tree.doublings ≤ 2 → e.size ≤ 4 * tokens.length) :=
  have read : Expr.parse "x < 1 < 2" = .ok (.binary .and (.binary .less .record (.integer 1))
      (.binary .less (.integer 1) (.integer 2))) := by cbv
  ⟨_, read, by decide, Expr.size_le_of_parse read⟩

set_option maxRecDepth 4000 in
/-- Four times as many are not enough for three such operands one inside another. -/
theorem Expr.size_exceeds_four_times : ¬ ∀ text e tokens, Expr.parse text = .ok e →
    tokenize text = .ok tokens → e.size ≤ 4 * tokens.length := by
  intro always
  have size : (Expr.parse "x<(x<(x<x<x<x<x<x<x)<x)<x").map Expr.size = .ok 107 := by cbv
  have count : (tokenize "x<(x<(x<x<x<x<x<x<x)<x)<x").map List.length = .ok 26 := by cbv
  obtain ⟨e, read, many⟩ := except_map_ok.1 size
  obtain ⟨tokens, tokenized, few⟩ := except_map_ok.1 count
  have := always _ e tokens read tokenized
  omega

end RecordPipeline
