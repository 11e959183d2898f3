import Mathlib
import RecordPipeline.Proofs.Nesting.Trees
import RecordPipeline.Proofs.Grammar.Respelling
import RecordPipeline.Proofs.Lowering.Relations

/-!
How deep the expressions are that trees are lowered to. A chain of operators or trailers lies flat
in a tree and is grouped to the left in its expression, one level for each link, so the levels of
the grammar bound the height of an expression for chains of a given length and for no others.
-/

namespace RecordPipeline

open RecordPipeline.Grammar RecordPipeline.Parser

namespace Expr

mutual

def height : Expr → Nat
  | attr base _ => base.height + 1
  | index base key => max base.height key.height + 1
  | call function args named =>
    max function.height (max (heightOfAll args) (heightOfNamed named)) + 1
  | binary _ left right => max left.height right.height + 1
  | not operand | negate operand => operand.height + 1
  | array items | tuple items => heightOfAll items + 1
  | object fields => heightOfFields fields + 1
  | _ => 1

def heightOfAll : List Expr → Nat
  | [] => 0
  | e :: later => max e.height (heightOfAll later)

def heightOfNamed : List (String × Expr) → Nat
  | [] => 0
  | (_, e) :: later => max e.height (heightOfNamed later)

def heightOfFields : List (Expr × Expr) → Nat
  | [] => 0
  | (key, value) :: later => max key.height (max value.height (heightOfFields later))

end

attribute [simp] height heightOfAll heightOfNamed heightOfFields

theorem heightOfAll_le_iff {items : List Expr} {bound : Nat} :
    heightOfAll items ≤ bound ↔ ∀ e ∈ items, e.height ≤ bound := by
  induction items with
  | nil => simp
  | cons e later ih => simp [ih]

theorem height_foldl_le {α : Type} {f : Expr → α → Expr} {links : List α} {bound : Nat}
    (step : ∀ e, ∀ a ∈ links, (f e a).height ≤ max e.height bound + 1) (first : Expr) :
    (links.foldl f first).height ≤ max first.height bound + links.length := by
  induction links generalizing first with
  | nil => exact Nat.le_max_left ..
  | cons a later ih =>
    have once := step first a (by simp)
    have rest := ih (fun e b member => step e b (List.mem_cons_of_mem a member)) (f first a)
    rw [List.foldl_cons, List.length_cons]
    omega

end Expr

def Argument.Within (bound : Nat) : Argument → Prop
  | positional e | named _ e => e.height ≤ bound

def Trailer.Within (bound : Nat) : Trailer → Prop
  | attr _ => True
  | index key => key.height ≤ bound
  | call args named => Expr.heightOfAll args ≤ bound ∧ Expr.heightOfNamed named ≤ bound

theorem Argument.split_within {bound : Nat} {arguments : List Argument}
    (all : ∀ a ∈ arguments, a.Within bound) :
    Expr.heightOfAll (split arguments).1 ≤ bound ∧
      Expr.heightOfNamed (split arguments).2 ≤ bound := by
  induction arguments with
  | nil => simp
  | cons a later ih =>
    have rest := ih fun b member => all b (List.mem_cons_of_mem a member)
    have first := all a (by simp)
    cases a with
    | positional e => exact ⟨Nat.max_le.2 ⟨first, rest.1⟩, rest.2⟩
    | named name e => exact ⟨rest.1, Nat.max_le.2 ⟨first, rest.2⟩⟩

theorem Trailer.Within.onto {bound : Nat} {t : Trailer} (h : t.Within bound) (object : Expr) :
    (t.onto object).height ≤ max object.height bound + 1 := by
  cases t with
  | attr name =>
    simp only [Trailer.onto, Expr.height]
    omega
  | index key =>
    have : key.height ≤ bound := h
    simp only [Trailer.onto, Expr.height]
    omega
  | call args named =>
    obtain ⟨hArgs, hNamed⟩ := h
    simp only [Trailer.onto, Expr.height]
    omega

namespace Node

def LowersWithin (bound : Nat) (node : Node) : Prop :=
  ∀ e, node.lower = .ok e → e.height ≤ bound

theorem height_literal {token : Token} {e : Expr} (h : literal token = .ok e) : e.height = 1 := by
  rw [literal] at h
  split at h
  · rw [integerLiteral] at h
    split at h
    · cases h
      simp
    · split at h <;> cases h
      simp
  · rw [floatLiteral] at h
    split at h <;> cases h
    simp
  · cases h
    simp
  · cases h
    simp
  · cases h
    simp
  · cases h
    simp
  · cases h
    split <;> simp
  · cases h

section Lists

variable {bound : Nat} {nodes : List Node}

theorem items_within {items : List Expr} (h : LowersItems nodes items)
    (all : ∀ node ∈ nodes, node.LowersWithin bound) : Expr.heightOfAll items ≤ bound := by
  induction h with
  | none => simp
  | comma _ _ ih => exact ih fun node member => all node (List.mem_cons_of_mem _ member)
  | item _ lowers _ ih =>
    have rest := ih fun node member => all node (List.mem_cons_of_mem _ member)
    exact Nat.max_le.2 ⟨all _ (by simp) _ lowers, rest⟩

theorem chain_within {left e : Expr} (h : LowersChain left nodes e)
    (all : ∀ node ∈ nodes, node.LowersWithin bound) :
    e.height ≤ max left.height bound + nodes.length := by
  induction h with
  | none => exact Nat.le_max_left ..
  | more _ lowers _ ih =>
    have rest := ih fun node member => all node (by simp [member])
    have operand := all _ (by simp) _ lowers
    simp only [Expr.height, List.length_cons] at rest ⊢
    omega

theorem Compares.height_le {symbol : Node} {left right e : Expr}
    (h : Compares left right symbol e) : e.height ≤ max left.height right.height + 2 := by
  cases h with
  | notIn => simp
  | operator _ => simp

theorem comparisons_within {left : Expr} {comparisons : List Expr}
    (h : LowersComparisons left nodes comparisons)
    (all : ∀ node ∈ nodes, node.LowersWithin bound) (first : left.height ≤ bound) :
    Expr.heightOfAll comparisons ≤ bound + 2 ∧ comparisons.length ≤ nodes.length := by
  induction h with
  | none => simp
  | more lowers compares _ ih =>
    have operand := all _ (by simp) _ lowers
    have one := compares.height_le
    obtain ⟨rest, count⟩ := ih (fun node member => all node (by simp [member])) operand
    simp only [Expr.heightOfAll, List.length_cons]
    omega

theorem conjunction_within {comparison : Expr} {later : List Expr}
    (all : Expr.heightOfAll (comparison :: later) ≤ bound) :
    (later.foldl (.binary .and) comparison).height ≤ bound + later.length := by
  have each := Expr.heightOfAll_le_iff.1 all
  have link (e other : Expr) (member : other ∈ later) :
      (Expr.binary .and e other).height ≤ max e.height bound + 1 := by
    have := each other (List.mem_cons_of_mem comparison member)
    simp only [Expr.height]
    omega
  have levels := Expr.height_foldl_le link comparison
  have := each comparison (by simp)
  omega

theorem key_within {key : Node} {k : Expr} (all : key.LowersWithin bound)
    (positive : 0 < bound) (h : lowerKey key = .ok k) : k.height ≤ bound := by
  rw [lowerKey] at h
  split at h
  · cases h
    simpa only [Expr.height] using Nat.succ_le_of_lt positive
  · exact all k h

theorem fields_within {fields : List (Expr × Expr)} (h : LowersFields nodes fields)
    (all : ∀ node ∈ nodes, node.LowersWithin bound) (positive : 0 < bound) :
    Expr.heightOfFields fields ≤ bound := by
  induction h with
  | none _ => simp
  | last lowersKey lowers =>
    exact Nat.max_le.2 ⟨key_within (all _ (by simp)) positive lowersKey,
      Nat.max_le.2 ⟨all _ (by simp) _ lowers, Nat.zero_le _⟩⟩
  | more lowersKey lowers _ ih =>
    have rest := ih fun node member => all node (by simp [member])
    exact Nat.max_le.2 ⟨key_within (all _ (by simp)) positive lowersKey,
      Nat.max_le.2 ⟨all _ (by simp) _ lowers, rest⟩⟩

end Lists

structure Fits (height width : Nat) (node : Node) : Prop where
  low : node.height ≤ height
  slim : node.breadth ≤ width

namespace Fits

variable {height width : Nat} {rule : Rule} {children : List Node}

theorem below (fits : (branch rule children).Fits (height + 1) width) :
    children.length ≤ width ∧ ∀ child ∈ children, child.Fits height width := by
  have low := fits.low
  rw [height_branch, Nat.succ_le_succ_iff, heightOf_le_iff] at low
  obtain ⟨few, slim⟩ := breadth_branch_le_iff.1 fits.slim
  exact ⟨few, fun child member => ⟨low child member, slim child member⟩⟩

theorem inside (fits : (branch rule children).Fits height width) :
    ∀ child ∈ children, child.Fits height width := by
  have low := fits.low
  rw [height_branch] at low
  exact (Fits.below ⟨by rw [height_branch]; omega, fits.slim⟩).2

end Fits

section Below

-- Arguments, fields and items stand in a branch of their own below a rule, so what is known of
-- lower trees is known of all of them and not of the children only.
variable {height width bound : Nat}
  (below : ∀ node : Node, node.Fits height width → node.LowersWithin bound)

include below

theorem arguments_within {nodes : List Node} {arguments : List Argument}
    (h : LowersArguments nodes arguments) (fits : ∀ node ∈ nodes, node.Fits height width) :
    ∀ a ∈ arguments, a.Within bound := by
  induction h with
  | none => simp
  | comma _ _ _ ih => exact ih fun node member => fits node (List.mem_cons_of_mem _ member)
  | positional _ _ lowers _ ih =>
    have rest := ih fun node member => fits node (List.mem_cons_of_mem _ member)
    exact List.forall_mem_cons.2 ⟨below _ (fits _ (by simp)) _ lowers, rest⟩
  | @named name sign value _ _ _ lowers _ ih =>
    have rest := ih fun node member => fits node (List.mem_cons_of_mem _ member)
    have bound : value.Fits height width :=
      (fits (.branch .binding [name, sign, value]) (by simp)).inside value (by simp)
    exact List.forall_mem_cons.2 ⟨below value bound _ lowers, rest⟩

theorem trailer_within {trailer : Node} {t : Trailer} (h : LowersTrailer trailer t)
    (fits : trailer.Fits height width) : t.Within bound := by
  cases h with
  | attr _ => trivial
  | index _ lowers => exact below _ (fits.inside _ (by simp)) _ lowers
  | empty _ => exact ⟨Nat.zero_le _, Nat.zero_le _⟩
  | @call _ inside _ content _ _ _ lowers =>
    have list : (branch inside content).Fits height width := fits.inside _ (by simp)
    exact Argument.split_within (arguments_within below lowers list.inside)

theorem trailers_within {trailers : List Node} {object e : Expr}
    (h : LowersTrailers object trailers e) (fits : ∀ trailer ∈ trailers, trailer.Fits height width) :
    e.height ≤ max object.height bound + trailers.length := by
  induction h with
  | none => exact Nat.le_max_left ..
  | @more object _ _ _ _ lowers _ ih =>
    have once := (trailer_within below lowers (fits _ (by simp))).onto object
    have rest := ih fun trailer member => fits trailer (List.mem_cons_of_mem _ member)
    rw [List.length_cons]
    omega

theorem branch_within {rule : Rule} {children : List Node} (positive : 0 < bound)
    (fits : ∀ child ∈ children, child.Fits height width) :
    (branch rule children).LowersWithin (bound + children.length) := by
  have all (child : Node) (member : child ∈ children) : child.LowersWithin bound :=
    below child (fits child member)
  intro e h
  cases lower_eq_ok.1 h with
  | sequence lowers =>
    have := items_within lowers all
    cases lowers with
    | none => simpa using Nat.succ_le_of_lt positive
    | comma _ _ | item _ _ _ =>
      simp only [Expr.height, List.length_cons]
      omega
  | chain _ lowers rest =>
    have operand := all _ (by simp) _ lowers
    have := chain_within rest fun node member => all node (by simp [member])
    rw [List.length_cons]
    omega
  | comparison lowers rest =>
    have operand := all _ (by simp) _ lowers
    obtain ⟨each, count⟩ := comparisons_within rest (fun node member => all node (by simp [member]))
      operand
    have := conjunction_within each
    simp only [List.length_cons] at count ⊢
    omega
  | access lowers rest =>
    have operand := all _ (by simp) _ lowers
    have := trailers_within below rest fun node member => fits node (by simp [member])
    rw [List.length_cons]
    omega
  | negation lowers =>
    have operand := all _ (by simp) _ lowers
    simp only [Expr.height, List.length_cons]
    omega
  | signed lowers =>
    have operand := all _ (by simp) _ lowers
    split <;> simp only [Expr.height, List.length_cons] <;> omega
  | noItems | noElements | noFields =>
    simp
  | parens lowers => exact Nat.le_add_right_of_le (all _ (by simp) e lowers)
  | @elements _ _ nodes _ lowers =>
    have list : (branch .sequence nodes).Fits height width := fits _ (by simp)
    have := items_within lowers fun node member => below node (list.inside node member)
    simp only [Expr.height, List.length_cons]
    omega
  | element _ lowers =>
    have := all _ (by simp) _ lowers
    simp only [Expr.height, Expr.heightOfAll, List.length_cons]
    omega
  | @fields _ _ parts _ lowers =>
    have list : (branch .fields parts).Fits height width := fits _ (by simp)
    have := fields_within lowers (fun node member => below node (list.inside node member)) positive
    simp only [Expr.height, List.length_cons]
    omega
  | implicitField =>
    simp only [Expr.height, List.length_cons]
    omega

end Below

/-- The levels of a tree bound the levels of its expression for chains of a given length. -/
theorem lowersWithin_of_fits {height width : Nat} {node : Node} (fits : node.Fits height width) :
    node.LowersWithin (height * width + 1) := by
  -- a rule adds at most `width` levels to the trees below it
  induction height generalizing node with
  | zero =>
    have := fits.low
    cases node <;> simp at this
  | succ height ih =>
    cases node with
    | leaf t =>
      intro e h
      rw [lower] at h
      rw [height_literal h]
      omega
    | branch rule children =>
      obtain ⟨few, inside⟩ := fits.below
      intro e h
      have := branch_within (fun _ => ih) (Nat.succ_pos _) inside e h
      rw [Nat.succ_mul]
      omega

theorem lowerQuery_within {height width : Nat} {tree : Node} {e : Expr}
    (fits : tree.Fits height width) (h : tree.lowerQuery = .ok e) :
    e.height ≤ height * width + 1 := by
  rw [lowerQuery.eq_def] at h
  split at h
  · rename_i rule single later
    have content := fits.inside (.branch rule [single]) (by simp)
    exact lowersWithin_of_fits (content.inside single (by simp)) e h
  · rename_i content later _
    exact lowersWithin_of_fits (fits.inside content (by simp)) e h
  · cases h

end Node

theorem locate_eq_ok {α : Type} {source : String} {x : Except Fault α} {a : α} :
    locate source x = .ok a ↔ x = .ok a := by
  cases x <;> simp [locate, Except.mapError]

/-- An expression is bounded by the levels of nesting and the longest chain of its text together. -/
theorem Expr.height_le_of_parse {text : String} {e : Expr} (read : Expr.parse text = .ok e) :
    ∃ tree, parseQuery text = .ok tree ∧ tree.height ≤ maxHeight ∧
      e.height ≤ maxHeight * tree.breadth + 1 := by
  obtain ⟨tree, isTree, lowers⟩ := except_bind_ok.1 (locate_eq_ok.1 read)
  have low := parseQuery_height_le isTree
  exact ⟨tree, isTree, low, Node.lowerQuery_within ⟨low, Nat.le_refl _⟩ lowers⟩

theorem Expr.height_le_of_parse_sum :
    Expr.parse "x + 1" = .ok (.binary .add .record (.integer 1)) ∧
      ∃ tree, parseQuery "x + 1" = .ok tree ∧ tree.height ≤ maxHeight ∧
        (Expr.binary .add .record (.integer 1)).height ≤ maxHeight * tree.breadth + 1 := by
  have read : Expr.parse "x + 1" = .ok (.binary .add .record (.integer 1)) := by cbv
  exact ⟨read, Expr.height_le_of_parse read⟩

def addends : Nat → List Char
  | 0 => []
  | count + 1 => ' ' :: '+' :: ' ' :: 'x' :: addends count

/-- The record and so many more of it, as a sum. -/
def sumText (count : Nat) : String :=
  String.ofList ('x' :: addends count)

namespace Node

def recordNode : Node :=
  .branch .access [.leaf ⟨.name, "x", 0⟩]

def addendNodes : Nat → List Node
  | 0 => []
  | count + 1 => .leaf ⟨.plus, "+", 0⟩ :: recordNode :: addendNodes count

theorem parses_recordNode (n : Nat) : Parses n (.symbol .access) [recordNode] :=
  parses_access.2 ⟨[.leaf ⟨.name, "x", 0⟩], [],
    parses_atom.2 (.inl ⟨_, by decide, rfl⟩), .done, rfl⟩

theorem parses_addendNodes (n count : Nat) : Parses n Tier.sum.more (addendNodes count) := by
  have factor : Parses n (.symbol Tier.sum.operand) [recordNode] :=
    parses_chain_of_operand .product (parses_signed.2 (.inr (parses_recordNode n)))
  induction count with
  | zero => exact .done
  | succ count ih => exact .again (.both (.one (by decide)) factor) ih

theorem spells_sumText (count : Nat) :
    Spells (sumText count).toList (tokensOf (recordNode :: addendNodes count)) := by
  have name : Lexeme .name "x".toList := ⟨rfl, 'x', [], rfl, rfl⟩
  have plus : Lexeme .plus "+".toList := ⟨rfl, '+', [], rfl, rfl⟩
  have record {cs : List Char} {ts : List Token} (ends : TokenKind.name.endsBefore cs = true)
      (later : Spells cs ts) : Spells ('x' :: cs) (⟨.name, "x", 0⟩ :: ts) :=
    .token (t := ⟨.name, "x", 0⟩) name ends later
  have behind (count : Nat) : TokenKind.name.endsBefore (addends count) = true := by
    cases count <;> rfl
  have more : Spells (addends count) (tokensOf (addendNodes count)) := by
    induction count with
    | zero => exact .done
    | succ count ih =>
      have one := Spells.token (t := ⟨.plus, "+", 0⟩) plus rfl
        (.blank (c := ' ') rfl (record (behind count) ih))
      exact .blank rfl (by simpa [addendNodes, recordNode] using one)
  simpa [sumText, recordNode] using record (behind count) more

theorem lowerChain_addendNodes (left : Expr) (count : Nat) :
    lowerChain left (addendNodes count) = .ok ((Expr.binary .add · .record)^[count] left) := by
  have record : recordNode.lower = .ok .record := by
    simp [recordNode, lower, literal, lowerTrailers, bind, Except.bind]
  induction count generalizing left with
  | zero => rfl
  | succ count ih =>
    rw [addendNodes, lowerChain]
    simp only [Operator.ofKind?, record]
    exact ih _

end Node

namespace Expr

theorem le_height_sum (count : Nat) :
    count ≤ ((binary .add · record)^[count] record).height := by
  induction count with
  | zero => exact Nat.zero_le _
  | succ count ih =>
    rw [Function.iterate_succ_apply', height]
    omega

/-- A chain of any length is accepted at the lowest level of nesting. -/
theorem parse_sumText (count : Nat) :
    (parse (sumText count)).toOption = some ((binary .add · record)^[count] record) := by
  have sum (n : Nat) : Parses n (.symbol (.chain .sum))
      [.collapse .sum (Node.recordNode :: Node.addendNodes count)] :=
    parses_chain.2 ⟨Node.recordNode, Node.addendNodes count,
      parses_chain_of_operand .product (parses_signed.2 (.inr (Node.parses_recordNode n))),
      Node.parses_addendNodes n count, rfl⟩
  have expression : Parses maxNesting (.symbol .expression)
      [.collapse .sum (Node.recordNode :: Node.addendNodes count)] :=
    parses_expression.2 ⟨63, rfl, parses_chain_of_operand .disjunction
      (parses_chain_of_operand .conjunction
        (parses_negation.2 (.inr (parses_chain_of_operand .comparison (sum 63)))))⟩
  have spelled := Node.spells_sumText count
  rw [parse_of_spells expression (by simpa using spelled)]
  cases count with
  | zero => rfl
  | succ count =>
    have lowers : (Node.branch .sum (Node.recordNode :: Node.addendNodes (count + 1))).lower =
        .ok ((binary .add · record)^[count + 1] record) := by
      rw [Node.lower, ← Node.lowerChain_addendNodes]
      rfl
    exact congrArg Except.toOption lowers

theorem height_unbounded :
    ¬ ∃ bound, ∀ text e, parse text = .ok e → e.height ≤ bound := by
  rintro ⟨bound, bounded⟩
  have read := parse_sumText (bound + 1)
  cases same : parse (sumText (bound + 1)) with
  | error fault =>
    rw [same] at read
    cases read
  | ok e =>
    rw [same] at read
    cases read
    have low := bounded _ _ same
    have high := le_height_sum (bound + 1)
    omega

end Expr

end RecordPipeline
