import RecordPipeline.SyntaxTree.Parser

/-!
Parsers in step with one another, each on a source of its own. A correspondence relates the runs of
two parsers and says what becomes of a tree on the way, with one clause for each step that parsers are
made of. The rules of the grammar are made of these steps alone, so two levels that correspond make
levels that do, one rule after the other, whatever the correspondence is.
-/

namespace RecordPipeline.Parser

/-- A relation of parsers that the steps of a parser keep: `holds f p q` where `q` gives `f a` for
each `a` that `p` gives. -/
structure Correspondence (σ τ : Type) [TokenSource σ] [TokenSource τ] where
  node : Node → Node
  place : Nat → Nat
  holds {α β : Type} (f : α → β) (p : ParserOn σ α) (q : ParserOn τ β) : Prop
  branch (rule : Rule) (children : List Node) :
    node (.branch rule children) = .branch rule (children.map node)
  named (tree : Node) : (node tree).bareName? = tree.bareName?
  value {α β : Type} {f : α → β} {a : α} {b : β} (same : f a = b) : holds f (pure a) (pure b)
  bind {α β γ δ : Type} {f : α → β} {g : γ → δ} {p : ParserOn σ α} {q : ParserOn τ β}
    {k : α → ParserOn σ γ} {l : β → ParserOn τ δ} (first : holds f p q)
    (rest : ∀ a, holds g (k a) (l (f a))) : holds g (p >>= k) (q >>= l)
  peek {α β : Type} {f : α → β} {k : TokenKind → ParserOn σ α} {l : TokenKind → ParserOn τ β}
    (rest : ∀ kind, holds f (k kind) (l kind)) : holds f (Parser.peek >>= k) (Parser.peek >>= l)
  peekPair {α β : Type} {f : α → β} {k : Bool → ParserOn σ α} {l : Bool → ParserOn τ β}
    (first second : TokenKind) (rest : ∀ both, holds f (k both) (l both)) :
    holds f (Parser.peekPair first second >>= k) (Parser.peekPair first second >>= l)
  offset : holds place Parser.offset Parser.offset
  take : holds node Parser.take Parser.take
  failAt {α β : Type} (f : α → β) (cause : Cause) (start : Nat) :
    holds f (Parser.failAt cause start) (Parser.failAt cause (place start))
  unexpected {α β : Type} (f : α → β) (wanted : String) :
    holds f (Parser.unexpected wanted) (Parser.unexpected wanted)
  bounded {α β : Type} {f : α → β} {loop : List Token → ParserOn σ α}
    {loop' : List Token → ParserOn τ β}
    (rest : ∀ bound bound', bound.length = bound'.length → holds f (loop bound) (loop' bound')) :
    holds f (Parser.bounded loop) (Parser.bounded loop')

section Simulations

variable {σ τ α β : Type} {view : σ → τ} {inv : σ → Prop} {f : α → β} {p : ParserOn σ α}
  {q : ParserOn τ β}

/-- Where the invariant holds, the second parser does on the view of a source what the first does on
the source itself, and the invariant still holds. -/
def Simulates (view : σ → τ) (inv : σ → Prop) (f : α → β) (p : ParserOn σ α) (q : ParserOn τ β) :
    Prop :=
  ∀ s, inv s → q (view s) = ((p s).1.map f, view (p s).2) ∧ inv (p s).2

namespace Simulates

theorem bind {γ δ : Type} {g : γ → δ} {k : α → ParserOn σ γ} {l : β → ParserOn τ δ}
    (first : Simulates view inv f p q) (rest : ∀ a, Simulates view inv g (k a) (l (f a))) :
    Simulates view inv g (p >>= k) (q >>= l) := by
  intro s holds
  obtain ⟨same, holds⟩ := first s holds
  rw [bind_apply, bind_apply, same]
  generalize p s = run at holds ⊢
  obtain ⟨outcome, t⟩ := run
  cases outcome with
  | ok a => exact rest a t holds
  | error fault => exact ⟨rfl, holds⟩

theorem look {outcome : σ → Except Fault α} (first : ∀ s, p s = (outcome s, s))
    (second : ∀ s, inv s → q (view s) = ((outcome s).map f, view s)) :
    Simulates view inv f p q := by
  intro s holds
  rw [first]
  exact ⟨second s holds, holds⟩

theorem value {a : α} {b : β} (same : f a = b) : Simulates view inv f (pure a) (pure b) :=
  look (fun _ => rfl) fun _ _ => by rw [← same]; rfl

theorem ask {γ : Type} {k : γ → ParserOn σ α} {l : γ → ParserOn τ β} (seen : σ → γ) (shown : τ → γ)
    (same : ∀ s, inv s → shown (view s) = seen s) (rest : ∀ a, Simulates view inv f (k a) (l a)) :
    Simulates view inv f (fun s => k (seen s) s) (fun t => l (shown t) t) := by
  intro s holds
  change l (shown (view s)) (view s) = _ ∧ _
  rw [same s holds]
  exact rest (seen s) s holds

end Simulates

theorem branch_map_id (rule : Rule) (children : List Node) :
    id (Node.branch rule children) = .branch rule (children.map id) := by
  rw [List.map_id, id_eq]

theorem bareName?_id (tree : Node) : (id tree).bareName? = tree.bareName? := rfl

end Simulations

namespace Correspondence

variable {σ τ : Type} [TokenSource σ] [TokenSource τ] {R : Correspondence σ τ}

theorem ite {α β : Type} {f : α → β} {p p' : ParserOn σ α} {q q' : ParserOn τ β} {P Q : Prop}
    [Decidable P] [Decidable Q] (same : P ↔ Q) (yes : R.holds f p q) (no : R.holds f p' q') :
    R.holds f (if P then p else p') (if Q then q else q') := by
  by_cases h : P
  · rw [if_pos h, if_pos (same.1 h)]
    exact yes
  · rw [if_neg h, if_neg (fun other => h (same.2 other))]
    exact no

theorem node_collapse (R : Correspondence σ τ) (rule : Rule) (children : List Node) :
    R.node (.collapse rule children) = .collapse rule (children.map R.node) := by
  match children with
  | [] => exact R.branch rule []
  | [only] => rfl
  | first :: second :: later => exact R.branch rule (first :: second :: later)

theorem require (kind : TokenKind) (wanted : String) :
    R.holds R.node (Parser.require kind wanted) (Parser.require kind wanted) :=
  R.peek fun _ => ite .rfl R.take (R.unexpected R.node wanted)

theorem tree {rule : Rule} {children others : List Node} (same : children.map R.node = others) :
    R.holds R.node (pure (.branch rule children)) (pure (.branch rule others)) :=
  R.value (by rw [R.branch, same])

section Repetition

variable {p : ParserOn σ Node} {q : ParserOn τ Node}

theorem chainMore {operator : ParserOn σ (Option Node)} {operator' : ParserOn τ (Option Node)}
    (symbols : R.holds (Option.map R.node) operator operator') (operands : R.holds R.node p q)
    (bound bound' : List Token) (same : bound.length = bound'.length) :
    R.holds (List.map R.node) (Parser.chainMore operator p bound)
      (Parser.chainMore operator' q bound') := by
  induction bound generalizing bound' with
  | nil =>
    obtain rfl := List.length_eq_zero_iff.1 same.symm
    exact R.value rfl
  | cons t bound ih =>
    obtain ⟨u, bound', rfl⟩ := List.exists_cons_of_length_eq_add_one same.symm
    refine R.bind symbols fun symbol => ?_
    cases symbol with
    | none => exact R.value rfl
    | some symbol =>
      exact R.bind operands fun right => R.bind (ih bound' (Nat.succ.inj same)) fun more => R.value rfl

theorem chain (rule : Rule) {operator : ParserOn σ (Option Node)} {operator' : ParserOn τ (Option Node)}
    (symbols : R.holds (Option.map R.node) operator operator') (operands : R.holds R.node p q) :
    R.holds R.node (Parser.chain rule operator p) (Parser.chain rule operator' q) :=
  R.bind operands fun _ => R.bind (R.bounded (chainMore symbols operands)) fun _ =>
    R.value (R.node_collapse rule _)

theorem itemsMore (closing : TokenKind) (item : R.holds R.node p q) (bound bound' : List Token)
    (same : bound.length = bound'.length) :
    R.holds (List.map R.node) (Parser.itemsMore closing p bound)
      (Parser.itemsMore closing q bound') := by
  induction bound generalizing bound' with
  | nil =>
    obtain rfl := List.length_eq_zero_iff.1 same.symm
    exact R.value rfl
  | cons t bound ih =>
    obtain ⟨u, bound', rfl⟩ := List.exists_cons_of_length_eq_add_one same.symm
    refine R.peek fun kind => ite .rfl ?_ (R.value rfl)
    refine R.bind R.take fun comma => R.peek fun kind => ite .rfl (R.value rfl) ?_
    exact R.bind item fun next => R.bind (ih bound' (Nat.succ.inj same)) fun more => R.value rfl

theorem items (closing : TokenKind) (item : R.holds R.node p q) :
    R.holds (List.map R.node) (Parser.items closing p) (Parser.items closing q) :=
  R.bind item fun _ => R.bind (R.bounded (itemsMore closing item)) fun _ => R.value rfl

end Repetition

theorem symbolAmong (kinds : List TokenKind) :
    R.holds (Option.map R.node) (Parser.symbolAmong kinds) (Parser.symbolAmong kinds) :=
  R.peek fun _ => ite .rfl (R.bind R.take fun _ => R.value rfl) (R.value rfl)

theorem comparisonSymbol :
    R.holds (Option.map R.node) Parser.comparisonSymbol Parser.comparisonSymbol := by
  refine R.peek fun kind => ite .rfl (R.bind R.take fun _ => R.value rfl) ?_
  refine R.peekPair _ _ fun both => ite .rfl ?_ (R.value rfl)
  exact R.bind R.take fun first => R.bind R.take fun second =>
    R.value (congrArg some (R.branch .notIn [first, second]))

theorem attributeName : R.holds R.node Parser.attributeName Parser.attributeName :=
  R.peek fun _ => ite .rfl R.take (R.unexpected R.node _)

theorem attributeTrailer : R.holds R.node Parser.attributeTrailer Parser.attributeTrailer :=
  R.bind R.take fun _ => R.bind attributeName fun _ => tree rfl

structure Levels (R : Correspondence σ τ) (inner : LevelOn σ) (outer : LevelOn τ) : Prop where
  expression : R.holds R.node inner.expression outer.expression
  negation : R.holds R.node inner.negation outer.negation
  signed : R.holds R.node inner.signed outer.signed

namespace Levels

variable {inner : LevelOn σ} {outer : LevelOn τ}

theorem argument (h : R.Levels inner outer) :
    R.holds R.node (Parser.argument inner) (Parser.argument outer) := by
  refine R.bind R.offset fun start => R.bind h.expression fun value => R.peek fun kind => ?_
  refine ite .rfl (ite (by rw [R.named]) (R.failAt R.node _ start) ?_) (R.value rfl)
  exact R.bind R.take fun sign => R.bind h.expression fun bound => tree rfl

theorem argumentList (h : R.Levels inner outer) (closing : TokenKind) :
    R.holds R.node (Parser.argumentList inner closing) (Parser.argumentList outer closing) :=
  R.bind (items closing h.argument) fun _ => tree rfl

theorem callTrailer (h : R.Levels inner outer) :
    R.holds R.node (Parser.callTrailer inner) (Parser.callTrailer outer) := by
  refine R.bind R.take fun opening => R.peek fun kind => ite .rfl ?_ ?_
  · exact R.bind R.take fun closing => tree rfl
  · exact R.bind (h.argumentList .closeParen) fun arguments =>
      R.bind (require .closeParen _) fun closing => tree rfl

theorem indexTrailer (h : R.Levels inner outer) :
    R.holds R.node (Parser.indexTrailer inner) (Parser.indexTrailer outer) :=
  R.bind R.take fun _ => R.bind h.expression fun _ => R.bind (require .closeBracket _) fun _ => tree rfl

theorem trailers (h : R.Levels inner outer) (bound bound' : List Token)
    (same : bound.length = bound'.length) :
    R.holds (List.map R.node) (Parser.trailers inner bound) (Parser.trailers outer bound') := by
  induction bound generalizing bound' with
  | nil =>
    obtain rfl := List.length_eq_zero_iff.1 same.symm
    exact R.value rfl
  | cons t bound ih =>
    obtain ⟨u, bound', rfl⟩ := List.exists_cons_of_length_eq_add_one same.symm
    refine R.peek fun kind => ?_
    have later : ∀ trailer : Node, R.holds (List.map R.node)
        (do return trailer :: (← Parser.trailers inner bound))
        (do return R.node trailer :: (← Parser.trailers outer bound')) :=
      fun trailer => R.bind (ih bound' (Nat.succ.inj same)) fun more => R.value rfl
    split
    · exact R.bind h.callTrailer later
    · exact R.bind h.indexTrailer later
    · exact R.bind attributeTrailer later
    · exact R.value rfl

theorem delimited (h : R.Levels inner outer) (rule : Rule) (closing : TokenKind)
    (wanted : String) :
    R.holds R.node (Parser.delimited inner rule closing wanted)
      (Parser.delimited outer rule closing wanted) := by
  refine R.bind R.take fun opening => R.peek fun kind => ite .rfl ?_ ?_
  · exact R.bind R.take fun last => tree rfl
  · refine R.bind (items closing h.expression) fun content => R.bind (require closing wanted) fun last =>
      tree ?_
    simp only [List.map_cons, List.map_nil, R.node_collapse]

theorem field (h : R.Levels inner outer) :
    R.holds (List.map R.node) (Parser.field inner) (Parser.field outer) :=
  R.bind h.expression fun _ => R.bind (require .colon _) fun _ => R.bind h.expression fun _ =>
    R.value rfl

theorem fieldsMore (h : R.Levels inner outer) (bound bound' : List Token)
    (same : bound.length = bound'.length) :
    R.holds (List.map R.node) (Parser.fieldsMore inner bound) (Parser.fieldsMore outer bound') := by
  induction bound generalizing bound' with
  | nil =>
    obtain rfl := List.length_eq_zero_iff.1 same.symm
    exact R.value rfl
  | cons t bound ih =>
    obtain ⟨u, bound', rfl⟩ := List.exists_cons_of_length_eq_add_one same.symm
    refine R.peek fun kind => ite .rfl ?_ (R.value rfl)
    refine R.bind R.take fun comma => R.peek fun kind => ite .rfl (R.value rfl) ?_
    refine R.bind h.field fun next => R.bind (ih bound' (Nat.succ.inj same)) fun more => R.value ?_
    simp only [List.cons_append, List.map_cons, List.map_append]

theorem braces (h : R.Levels inner outer) :
    R.holds R.node (Parser.braces inner) (Parser.braces outer) := by
  refine R.bind R.take fun opening => R.peek fun kind => ite .rfl ?_ ?_
  · exact R.bind R.take fun closing => tree rfl
  · refine R.bind h.field fun first => R.bind (R.bounded h.fieldsMore) fun more =>
      R.bind (require .closeBrace _) fun closing => tree ?_
    simp only [List.map_cons, List.map_nil, List.map_append, R.branch]

theorem atom (h : R.Levels inner outer) :
    R.holds R.node (Parser.atom inner) (Parser.atom outer) := by
  refine R.peek fun kind => ?_
  split
  case h_8 => exact R.bind R.take fun dot => R.bind attributeName fun name => tree rfl
  case h_9 => exact h.delimited .parens .closeParen "')'"
  case h_10 => exact h.delimited .list .closeBracket "']'"
  case h_11 => exact h.braces
  case h_12 => exact R.unexpected R.node _
  all_goals exact R.take

theorem access (h : R.Levels inner outer) :
    R.holds R.node (Parser.access inner) (Parser.access outer) :=
  R.bind h.atom fun _ => R.bind (R.bounded h.trailers) fun _ => tree rfl

theorem sign (h : R.Levels inner outer) :
    R.holds R.node (Parser.signed inner) (Parser.signed outer) :=
  R.peek fun _ => ite .rfl (R.bind R.take fun _ => R.bind h.signed fun _ => tree rfl) h.access

theorem comparison (h : R.Levels inner outer) :
    R.holds R.node (Parser.comparison inner) (Parser.comparison outer) :=
  chain .comparison comparisonSymbol
    (chain .sum (symbolAmong _) (chain .product (symbolAmong _) h.sign))

theorem denial (h : R.Levels inner outer) :
    R.holds R.node (Parser.negation inner) (Parser.negation outer) :=
  R.peek fun _ => ite .rfl (R.bind R.take fun _ => R.bind h.negation fun _ => tree rfl) h.comparison

theorem disjunction (h : R.Levels inner outer) :
    R.holds R.node (Parser.disjunction inner) (Parser.disjunction outer) :=
  chain .disjunction (symbolAmong _) (chain .conjunction (symbolAmong _) h.denial)

theorem query (h : R.Levels inner outer) :
    R.holds R.node (queryOver inner) (queryOver outer) := by
  refine R.bind (items .endOfInput h.expression) fun content => ?_
  refine R.bind (require .endOfInput _) fun last => tree ?_
  simp only [List.map_cons, List.map_nil, R.branch]

theorem arguments (h : R.Levels inner outer) :
    R.holds R.node (argumentsOver inner) (argumentsOver outer) := by
  refine R.peek fun kind => ite .rfl (tree rfl) ?_
  refine R.bind (h.argumentList .endOfInput) fun content => ?_
  exact R.bind (require .endOfInput _) fun last => R.value rfl

theorem succ {R : Correspondence TokenStream TokenStream} {levels more : Nat}
    (h : R.Levels (level levels) (level more)) : R.Levels (level (levels + 1)) (level (more + 1)) :=
  ⟨h.disjunction, h.denial, h.sign⟩

end Levels

end Correspondence

end RecordPipeline.Parser
