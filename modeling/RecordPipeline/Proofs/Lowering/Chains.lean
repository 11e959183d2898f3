import Mathlib
import RecordPipeline.Platform.Reference
import RecordPipeline.Proofs.Grammar.Lowering
import RecordPipeline.Proofs.Grammar.Steps
import RecordPipeline.Proofs.Value.Comparison

/-!
Chains of comparisons. A chain is lowered to the conjunction of its neighbours, in which every
operand but the first and the last stands twice; evaluated on a record, the comparisons are decided
from left to right, and the first that is not true decides the chain.
-/

namespace RecordPipeline

open RecordPipeline.Grammar
inductive Comparator where
  | operator (op : Operator) (listed : op ∈ .member :: Operator.comparisons)
  | notMember

inductive Node.Denotes : Node → Comparator → Prop where
  | operator {t : Token} {op : Operator} {listed : op ∈ .member :: Operator.comparisons}
      (isOp : Operator.ofKind? t.kind = some op) : Denotes (.leaf t) (.operator op listed)
  | notMember {words : List Node} : Denotes (.branch .notIn words) .notMember

def Verdict (result : Evaluated Value) : Prop :=
  (∃ b, result = .ok (.boolean b)) ∨ ∃ e, result = .error e

theorem Verdict.boolean (b : Bool) : Verdict (.ok (.boolean b)) :=
  .inl ⟨b, rfl⟩

theorem Verdict.error (e : EvalError) : Verdict (.error e) :=
  .inr ⟨e, rfl⟩

namespace Comparator

def negated : Evaluated Value → Evaluated Value
  | .ok (.boolean b) => .ok (.boolean !b)
  | result => result

def result (c : Comparator) (platform : Platform) (input : Value) (left right : Expr) :
    Evaluated Value :=
  match c with
  | operator op _ => (Expr.binary op left right).eval platform input
  | notMember => negated ((Expr.binary .member left right).eval platform input)

/-- The expression that lowering makes of two neighbours. -/
def between (c : Comparator) (left right : Expr) : Expr :=
  match c with
  | operator op _ => .binary op left right
  | notMember => .not (.binary .member left right)

end Comparator

variable {platform : Platform} {input : Value}

theorem verdict_comparison {op : Operator} {accepts : Ordering → Bool} {a b : Value} :
    Verdict (Value.comparison op accepts a b) := by
  rw [Value.comparison]
  split
  · exact .boolean _
  · exact .error _

theorem verdict_apply {op : Operator} (listed : op ∈ .member :: Operator.comparisons)
    (decimals : DecimalLibrary) (a b : Value) : Verdict (op.apply decimals a b) := by
  simp only [Operator.comparisons, List.mem_cons, List.not_mem_nil, or_false] at listed
  rcases listed with rfl | rfl | rfl | rfl | rfl | rfl | rfl
  · rw [Operator.apply]
    cases Value.holds a b with
    | ok held => exact .boolean held
    | error e => exact .error e
  · exact .boolean _
  · exact .boolean _
  all_goals exact verdict_comparison

theorem Expr.verdict_binary {op : Operator} (listed : op ∈ .member :: Operator.comparisons)
    (left right : Expr) : Verdict ((binary op left right).eval platform input) := by
  have noAnd : op ≠ .and := by
    rintro rfl
    exact absurd listed (by decide)
  have noOr : op ≠ .or := by
    rintro rfl
    exact absurd listed (by decide)
  cases first : left.eval platform input with
  | error e =>
    rw [eval, first]
    exact .error e
  | ok a =>
    cases second : right.eval platform input with
    | error e =>
      have failed : (binary op left right).eval platform input = .error e := by
        rw [eval, first]
        cases op with
        | and => exact absurd rfl noAnd
        | or => exact absurd rfl noOr
        | _ => simp only [bind, Except.bind, second]
      rw [failed]
      exact .error e
    | ok b =>
      rw [eval_binary noAnd noOr first second]
      exact verdict_apply listed _ a b

namespace Comparator

theorem verdict_result (c : Comparator) (left right : Expr) :
    Verdict (c.result platform input left right) := by
  cases c with
  | operator op listed => exact Expr.verdict_binary listed left right
  | notMember =>
    have single : Verdict ((Expr.binary .member left right).eval platform input) :=
      Expr.verdict_binary (by decide) left right
    rw [result]
    rcases single with ⟨b, single⟩ | ⟨e, single⟩
    · rw [single]
      exact .boolean !b
    · rw [single]
      exact .error e

theorem eval_between (c : Comparator) (left right : Expr) :
    (c.between left right).eval platform input = c.result platform input left right := by
  cases c with
  | operator op listed => rfl
  | notMember =>
    have single : Verdict ((Expr.binary .member left right).eval platform input) :=
      Expr.verdict_binary (by decide) left right
    rcases single with ⟨b, single⟩ | ⟨e, single⟩
    · rw [between, result, single, Expr.eval_not single, negated]
    · rw [between, result, single, Expr.eval, single]
      rfl

end Comparator

namespace Expr

variable {l r : Expr}

theorem eval_and_of_decided (verdict : Verdict (l.eval platform input))
    (decided : l.eval platform input ≠ .ok (.boolean true)) :
    (binary .and l r).eval platform input = l.eval platform input := by
  rw [eval]
  rcases verdict with ⟨_ | _, verdict⟩ | ⟨e, verdict⟩
  · rw [verdict]
    rfl
  · exact absurd verdict decided
  · rw [verdict]
    rfl

theorem eval_and_of_true (left : l.eval platform input = .ok (.boolean true))
    (right : Verdict (r.eval platform input)) :
    (binary .and l r).eval platform input = r.eval platform input := by
  rw [eval, left]
  rcases right with ⟨b, right⟩ | ⟨e, right⟩ <;> rw [right] <;> rfl

theorem eval_conjunction_of_decided (later : List Expr) (verdict : Verdict (l.eval platform input))
    (decided : l.eval platform input ≠ .ok (.boolean true)) :
    (later.foldl (binary .and) l).eval platform input = l.eval platform input := by
  induction later generalizing l with
  | nil => rfl
  | cons next later ih =>
    have same : (binary .and l next).eval platform input = l.eval platform input :=
      eval_and_of_decided verdict decided
    rw [List.foldl_cons, ih (same ▸ verdict) (same ▸ decided), same]

theorem eval_conjunction_of_true {later : List Expr}
    (left : l.eval platform input = .ok (.boolean true))
    (all : ∀ e ∈ later, e.eval platform input = .ok (.boolean true)) :
    (later.foldl (binary .and) l).eval platform input = .ok (.boolean true) := by
  induction later generalizing l with
  | nil => exact left
  | cons next later ih =>
    have second := all next (by simp)
    refine ih ?_ fun e member => all e (List.mem_cons_of_mem next member)
    rw [eval_and_of_true left (second ▸ .boolean true), second]

end Expr

structure Link where
  symbol : Node
  comparator : Comparator
  denotes : symbol.Denotes comparator
  operand : Node
  value : Expr
  lowers : operand.lower = .ok value

/-- An operand and at least one link. -/
structure Chain where
  first : Node
  value : Expr
  lowers : first.lower = .ok value
  links : List Link
  filled : links ≠ []

structure Neighbours where
  left : Expr
  comparator : Comparator
  right : Expr

def Neighbours.result (pair : Neighbours) (platform : Platform) (input : Value) : Evaluated Value :=
  pair.comparator.result platform input pair.left pair.right

def Neighbours.lowered (pair : Neighbours) : Expr :=
  pair.comparator.between pair.left pair.right

theorem Neighbours.eval_lowered (pair : Neighbours) :
    pair.lowered.eval platform input = pair.result platform input :=
  pair.comparator.eval_between pair.left pair.right

theorem Neighbours.verdict (pair : Neighbours) : Verdict (pair.result platform input) :=
  pair.comparator.verdict_result pair.left pair.right

namespace Link

def nodes : List Link → List Node
  | [] => []
  | link :: later => link.symbol :: link.operand :: nodes later

def pairs (left : Expr) : List Link → List Neighbours
  | [] => []
  | link :: later => ⟨left, link.comparator, link.value⟩ :: pairs link.value later

theorem compared (link : Link) (left : Expr) :
    Node.compared link.symbol left link.value =
      .ok (Neighbours.mk left link.comparator link.value).lowered := by
  obtain ⟨symbol, comparator, denotes, operand, value, lowers⟩ := link
  cases denotes with
  | operator isOp =>
    dsimp only
    rw [Node.compared, isOp]
    rfl
  | notMember => rfl

theorem lowerComparisons_nodes (left : Expr) (links : List Link) :
    Node.lowerComparisons left (nodes links) = .ok ((pairs left links).map Neighbours.lowered) := by
  induction links generalizing left with
  | nil => rw [nodes, Node.lowerComparisons, pairs, List.map_nil]
  | cons link later ih =>
    rw [nodes, Node.lowerComparisons, link.lowers]
    simp only [bind, Except.bind, link.compared left, ih link.value]
    rfl

end Link

namespace Chain

def node (chain : Chain) : Node :=
  .branch .comparison (chain.first :: Link.nodes chain.links)

def pairs (chain : Chain) : List Neighbours :=
  Link.pairs chain.value chain.links

theorem pairs_filled (chain : Chain) : chain.pairs ≠ [] := by
  obtain ⟨link, later, same⟩ := List.exists_cons_of_ne_nil chain.filled
  rw [pairs, same, Link.pairs]
  exact List.cons_ne_nil _ _

/-- A chain is lowered to the conjunction of its comparisons. -/
theorem lower_node (chain : Chain) :
    chain.node.lower = Node.conjoin (chain.pairs.map Neighbours.lowered) := by
  rw [node, Node.lower, chain.lowers]
  simp only [bind, Except.bind, Link.lowerComparisons_nodes, pairs]

end Chain

theorem denotes_of_operator {n : Nat} {nodes : List Node}
    (h : Parses n Tier.comparison.operator nodes) :
    ∃ symbol comparator, nodes = [symbol] ∧ symbol.Denotes comparator := by
  rcases operator_cases h with ⟨t, member, rfl⟩ | ⟨-, t, u, -, -, rfl⟩
  · obtain ⟨op, listed, isOp⟩ : ∃ op ∈ .member :: Operator.comparisons,
        Operator.ofKind? t.kind = some op := by
      revert member
      cases t.kind <;> decide
    exact ⟨_, .operator op listed, rfl, .operator isOp⟩
  · exact ⟨_, _, rfl, .notMember⟩

theorem Link.exists_of_parses {n : Nat} {nodes : List Node}
    (parses : Parses n Tier.comparison.more nodes) {left : Expr} {comparisons : List Expr}
    (lowers : Node.lowerComparisons left nodes = .ok comparisons) :
    ∃ links, Link.nodes links = nodes := by
  revert left comparisons
  refine parses.many_induction (motive := fun nodes => ∀ {left comparisons},
    Node.lowerComparisons left nodes = .ok comparisons → ∃ links, Link.nodes links = nodes)
    (fun _ => ⟨[], rfl⟩) ?_
  intro front back hFront _ ih left comparisons lowers
  obtain ⟨operators, right, hOperator, hRight, rfl⟩ := parses_both.1 hFront
  obtain ⟨symbol, comparator, rfl, denotes⟩ := denotes_of_operator hOperator
  obtain ⟨right, rfl⟩ := parses_single (Tier.operand_ne_expressions .comparison) hRight
  rw [List.singleton_append, List.cons_append, List.singleton_append, Node.lowerComparisons]
    at lowers
  obtain ⟨value, lowersRight, lowers⟩ := except_bind_ok.1 lowers
  obtain ⟨first, -, lowers⟩ := except_bind_ok.1 lowers
  obtain ⟨others, lowersBack, -⟩ := except_bind_ok.1 lowers
  obtain ⟨links, rfl⟩ := ih lowersBack
  exact ⟨⟨symbol, comparator, denotes, right, value, lowersRight⟩ :: links, rfl⟩

theorem Chain.exists_of_parses {n : Nat} {first : Node} {more : List Node} {e : Expr}
    (parses : Parses n Tier.comparison.more more) (filled : more ≠ [])
    (lowers : (Node.branch .comparison (first :: more)).lower = .ok e) :
    ∃ chain : Chain, chain.node = .branch .comparison (first :: more) := by
  rw [Node.lower] at lowers
  obtain ⟨value, lowersFirst, lowers⟩ := except_bind_ok.1 lowers
  obtain ⟨comparisons, lowersMore, -⟩ := except_bind_ok.1 lowers
  obtain ⟨links, rfl⟩ := Link.exists_of_parses parses lowersMore
  refine ⟨⟨first, value, lowersFirst, links, ?_⟩, rfl⟩
  rintro rfl
  exact filled rfl

/-- The first comparison that is not true decides a conjunction. -/
theorem eval_conjoin_of_decided {pairs front back : List Neighbours} {pair : Neighbours} {e : Expr}
    (lowers : Node.conjoin (pairs.map Neighbours.lowered) = .ok e)
    (split : pairs = front ++ pair :: back)
    (earlier : ∀ before ∈ front, before.result platform input = .ok (.boolean true))
    (decided : pair.result platform input ≠ .ok (.boolean true)) :
    e.eval platform input = pair.result platform input := by
  have verdict : Verdict (pair.lowered.eval platform input) := pair.eval_lowered ▸ pair.verdict
  have holds : ∀ before ∈ front, before.lowered.eval platform input = .ok (.boolean true) :=
    fun before member => before.eval_lowered.trans (earlier before member)
  rw [← pair.eval_lowered] at decided ⊢
  subst split
  cases front with
  | nil =>
    cases lowers
    exact Expr.eval_conjunction_of_decided _ verdict decided
  | cons first front =>
    rw [List.cons_append, List.map_cons, List.map_append, List.map_cons] at lowers
    cases lowers
    have others : ∀ e ∈ front.map Neighbours.lowered, e.eval platform input = .ok (.boolean true) := by
      intro e member
      obtain ⟨before, inside, rfl⟩ := List.mem_map.1 member
      exact holds before (List.mem_cons_of_mem first inside)
    have left := Expr.eval_conjunction_of_true (holds first (by simp)) others
    have both := Expr.eval_and_of_true left verdict
    rw [List.foldl_append, List.foldl_cons,
      Expr.eval_conjunction_of_decided _ (both ▸ verdict) (both ▸ decided), both]

theorem eval_conjoin_of_true {pairs : List Neighbours} {e : Expr}
    (lowers : Node.conjoin (pairs.map Neighbours.lowered) = .ok e)
    (all : ∀ pair ∈ pairs, pair.result platform input = .ok (.boolean true)) :
    e.eval platform input = .ok (.boolean true) := by
  have holds : ∀ pair ∈ pairs, pair.lowered.eval platform input = .ok (.boolean true) :=
    fun pair member => pair.eval_lowered.trans (all pair member)
  cases pairs with
  | nil => cases lowers
  | cons first later =>
    cases lowers
    refine Expr.eval_conjunction_of_true (holds first (by simp)) fun e member => ?_
    obtain ⟨pair, inside, rfl⟩ := List.mem_map.1 member
    exact holds pair (List.mem_cons_of_mem first inside)

/-- A chain of comparisons can be evaluated on every record. Each of its comparisons gives a truth
value or an error on its own, and from left to right the first error and the first falsehood are the
result of the chain, whatever stands behind them; a chain without either is true. -/
theorem Chain.eval_lower (chain : Chain) (platform : Platform) (input : Value) :
    ∃ e, chain.node.lower = .ok e ∧
      (∀ pair ∈ chain.pairs, Verdict (pair.result platform input)) ∧
      (∀ front pair back, chain.pairs = front ++ pair :: back →
        (∀ before ∈ front, before.result platform input = .ok (.boolean true)) →
        (∀ error, pair.result platform input = .error error → e.eval platform input = .error error) ∧
        (pair.result platform input = .ok (.boolean false) →
          e.eval platform input = .ok (.boolean false))) ∧
      ((∀ pair ∈ chain.pairs, pair.result platform input = .ok (.boolean true)) →
        e.eval platform input = .ok (.boolean true)) := by
  obtain ⟨first, later, same⟩ := List.exists_cons_of_ne_nil chain.pairs_filled
  obtain ⟨e, lowers⟩ : ∃ e, Node.conjoin (chain.pairs.map Neighbours.lowered) = .ok e :=
    ⟨_, by rw [same]; rfl⟩
  refine ⟨e, chain.lower_node.trans lowers, fun pair _ => pair.verdict, ?_,
    eval_conjoin_of_true lowers⟩
  intro front pair back split earlier
  have decides (decided : pair.result platform input ≠ .ok (.boolean true)) :=
    eval_conjoin_of_decided lowers split earlier decided
  constructor
  · intro error fails
    exact (decides (by simp [fails])).trans fails
  · intro isFalse
    exact (decides (by simp [isFalse])).trans isFalse

/-- The name behind the falsehood is not known, and is never asked for. -/
theorem Chain.eval_lower_unknown_name :
    ∃ (chain : Chain) (e : Expr),
      parseQuery "1 < 2 > 3 == k" = .ok (.branch .query
        [.branch .sequence [chain.node], .leaf ⟨.endOfInput, "", 14⟩]) ∧
      chain.node.lower = .ok e ∧ e.eval (.reference ⟨0, 0, 0⟩) .null = .ok (.boolean false) := by
  let number (text : String) (offset : Nat) : Node := .branch .access [.leaf ⟨.integer, text, offset⟩]
  let chain : Chain :=
    { first := number "1" 0
      value := .integer 1
      lowers := by cbv
      links :=
        [⟨.leaf ⟨.less, "<", 2⟩, .operator .less (by decide), .operator rfl, number "2" 4,
            .integer 2, by cbv⟩,
          ⟨.leaf ⟨.greater, ">", 6⟩, .operator .greater (by decide), .operator rfl, number "3" 8,
            .integer 3, by cbv⟩,
          ⟨.leaf ⟨.equal, "==", 10⟩, .operator .equal (by decide), .operator rfl,
            .branch .access [.leaf ⟨.name, "k", 13⟩], .bare "k", by cbv⟩]
      filled := by simp }
  obtain ⟨e, lowers, -, stops, -⟩ := chain.eval_lower (.reference ⟨0, 0, 0⟩) .null
  refine ⟨chain, e, by cbv, lowers, ?_⟩
  refine (stops [_] ⟨.integer 2, .operator .greater (by decide), .integer 3⟩ [_] rfl ?_).2 ?_
  · exact List.forall_mem_singleton.2 rfl
  · rfl

end RecordPipeline
