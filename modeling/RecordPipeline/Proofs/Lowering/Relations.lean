import RecordPipeline.Proofs.Grammar.Lowering

/-!
Lowering as relations. There is one constructor for every way in which a tree or a list of trees can
be lowered, and what stands below is lowered by the function itself. So what holds of all
expressions that come from trees is shown with one case for each constructor, and the way of the
function through the children of a branch is gone through here only.
-/

namespace RecordPipeline

namespace Node

inductive LowersItems : List Node → List Expr → Prop where
  | none : LowersItems [] []
  | comma {node : Node} {later : List Node} {items : List Expr}
      (comma : node.kind? = some .comma) (rest : LowersItems later items) :
      LowersItems (node :: later) items
  | item {node : Node} {later : List Node} {e : Expr} {items : List Expr}
      (noComma : node.kind? ≠ some .comma) (lowers : node.lower = .ok e)
      (rest : LowersItems later items) :
      LowersItems (node :: later) (e :: items)

theorem lowerItems_eq_ok {nodes : List Node} {items : List Expr} :
    lowerItems nodes = .ok items ↔ LowersItems nodes items := by
  constructor
  · intro h
    induction nodes generalizing items with
    | nil =>
      rw [lowerItems] at h
      cases h
      exact .none
    | cons node later ih =>
      rw [lowerItems] at h
      split at h
      · exact .comma ‹_› (ih h)
      · obtain ⟨e, lowers, h⟩ := except_bind_ok.1 h
        obtain ⟨others, lowersLater, h⟩ := except_bind_ok.1 h
        cases h
        exact .item ‹_› lowers (ih lowersLater)
  · intro h
    induction h with
    | none => rw [lowerItems]
    | comma comma _ ih => rw [lowerItems, if_pos comma, ih]
    | item noComma lowers _ ih =>
      rw [lowerItems, if_neg noComma, lowers, ih]
      rfl

inductive LowersChain : Expr → List Node → Expr → Prop where
  | none {left : Expr} : LowersChain left [] left
  | more {left second e : Expr} {op : Operator} {symbol : Token} {right : Node} {later : List Node}
      (isOp : Operator.ofKind? symbol.kind = some op) (lowers : right.lower = .ok second)
      (rest : LowersChain (.binary op left second) later e) :
      LowersChain left (leaf symbol :: right :: later) e

theorem lowersChain_of_ok {left e : Expr} {nodes : List Node} (h : lowerChain left nodes = .ok e) :
    LowersChain left nodes e := by
  match nodes, h with
  | [], h =>
    rw [lowerChain] at h
    cases h
    exact .none
  | leaf symbol :: right :: later, h =>
    rw [lowerChain] at h
    split at h
    · obtain ⟨second, lowers, h⟩ := except_bind_ok.1 h
      exact .more ‹_› lowers (lowersChain_of_ok h)
    · cases h
  | [leaf symbol], h => cases h
  | branch _ _ :: _, h => cases h

theorem lowerChain_eq_ok {left e : Expr} {nodes : List Node} :
    lowerChain left nodes = .ok e ↔ LowersChain left nodes e := by
  refine ⟨lowersChain_of_ok, fun h => ?_⟩
  induction h with
  | none => rw [lowerChain]
  | more isOp lowers _ ih =>
    simp only [lowerChain, isOp, lowers]
    exact ih

inductive Compares (left right : Expr) : Node → Expr → Prop where
  | notIn {words : List Node} :
      Compares left right (branch .notIn words) (.not (.binary .member left right))
  | operator {symbol : Token} {op : Operator} (isOp : Operator.ofKind? symbol.kind = some op) :
      Compares left right (leaf symbol) (.binary op left right)

theorem compared_eq_ok {symbol : Node} {left right e : Expr} :
    compared symbol left right = .ok e ↔ Compares left right symbol e := by
  constructor
  · intro h
    rw [compared.eq_def] at h
    split at h
    · cases h
      exact .notIn
    · cases h
    · split at h
      · cases h
        exact .operator ‹_›
      · cases h
  · intro h
    cases h with
    | notIn => rw [compared]
    | operator isOp => rw [compared, isOp]

inductive LowersComparisons : Expr → List Node → List Expr → Prop where
  | none {left : Expr} : LowersComparisons left [] []
  | more {left second comparison : Expr} {symbol right : Node} {later : List Node}
      {others : List Expr} (lowers : right.lower = .ok second)
      (compares : Compares left second symbol comparison)
      (rest : LowersComparisons second later others) :
      LowersComparisons left (symbol :: right :: later) (comparison :: others)

theorem lowersComparisons_of_ok {left : Expr} {nodes : List Node} {comparisons : List Expr}
    (h : lowerComparisons left nodes = .ok comparisons) :
    LowersComparisons left nodes comparisons := by
  match nodes, h with
  | [], h =>
    rw [lowerComparisons] at h
    cases h
    exact .none
  | symbol :: right :: later, h =>
    rw [lowerComparisons] at h
    obtain ⟨second, lowers, h⟩ := except_bind_ok.1 h
    obtain ⟨comparison, compares, h⟩ := except_bind_ok.1 h
    obtain ⟨others, lowersLater, h⟩ := except_bind_ok.1 h
    cases h
    exact .more lowers (compared_eq_ok.1 compares) (lowersComparisons_of_ok lowersLater)
  | [_], h => cases h

theorem lowerComparisons_eq_ok {left : Expr} {nodes : List Node} {comparisons : List Expr} :
    lowerComparisons left nodes = .ok comparisons ↔ LowersComparisons left nodes comparisons := by
  refine ⟨lowersComparisons_of_ok, fun h => ?_⟩
  induction h with
  | none => rw [lowerComparisons]
  | more lowers compares _ ih =>
    rw [lowerComparisons]
    exact except_bind_ok.2 ⟨_, lowers, except_bind_ok.2
      ⟨_, compared_eq_ok.2 compares, except_bind_ok.2 ⟨_, ih, rfl⟩⟩⟩

theorem conjoin_eq_ok {comparisons : List Expr} {e : Expr} :
    conjoin comparisons = .ok e ↔
      ∃ first later, comparisons = first :: later ∧ e = later.foldl (.binary .and) first := by
  cases comparisons with
  | nil => simp [conjoin, misplaced]
  | cons first later =>
    constructor
    · rintro ⟨⟩
      exact ⟨first, later, rfl, rfl⟩
    · rintro ⟨_, _, ⟨⟩, rfl⟩
      rfl

inductive LowersFields : List Node → List (Expr × Expr) → Prop where
  | none {nodes : List Node} (few : nodes.length < 3) : LowersFields nodes []
  | last {key colon value : Node} {k v : Expr} (lowersKey : lowerKey key = .ok k)
      (lowers : value.lower = .ok v) : LowersFields [key, colon, value] [(k, v)]
  | more {key colon value comma : Node} {later : List Node} {k v : Expr}
      {fields : List (Expr × Expr)} (lowersKey : lowerKey key = .ok k)
      (lowers : value.lower = .ok v) (rest : LowersFields later fields) :
      LowersFields (key :: colon :: value :: comma :: later) ((k, v) :: fields)

theorem lowersFields_of_ok {nodes : List Node} {fields : List (Expr × Expr)}
    (h : lowerFields nodes = .ok fields) : LowersFields nodes fields := by
  match nodes, h with
  | [key, colon, value], h =>
    rw [lowerFields_last] at h
    obtain ⟨k, lowersKey, h⟩ := except_bind_ok.1 h
    obtain ⟨v, lowers, h⟩ := except_bind_ok.1 h
    cases h
    exact .last lowersKey lowers
  | key :: colon :: value :: comma :: later, h =>
    rw [lowerFields_more] at h
    obtain ⟨k, lowersKey, h⟩ := except_bind_ok.1 h
    obtain ⟨v, lowers, h⟩ := except_bind_ok.1 h
    obtain ⟨others, lowersLater, h⟩ := except_bind_ok.1 h
    cases h
    exact .more lowersKey lowers (lowersFields_of_ok lowersLater)
  | [], h | [_], h | [_, _], h =>
    cases h
    exact .none (by simp)

theorem lowerFields_eq_ok {nodes : List Node} {fields : List (Expr × Expr)} :
    lowerFields nodes = .ok fields ↔ LowersFields nodes fields := by
  refine ⟨lowersFields_of_ok, fun h => ?_⟩
  induction h with
  | @none nodes few =>
    match nodes, few with
    | [], _ | [_], _ | [_, _], _ => simp [lowerFields]
  | last lowersKey lowers =>
    rw [lowerFields_last, lowersKey, lowers]
    rfl
  | more lowersKey lowers _ ih =>
    rw [lowerFields_more, lowersKey, lowers, ih]
    rfl

inductive LowersArguments : List Node → List Argument → Prop where
  | none : LowersArguments [] []
  | comma {node : Node} {later : List Node} {arguments : List Argument}
      (positional : node.IsPositional) (comma : node.kind? = some .comma)
      (rest : LowersArguments later arguments) : LowersArguments (node :: later) arguments
  | positional {node : Node} {later : List Node} {e : Expr} {arguments : List Argument}
      (positional : node.IsPositional) (noComma : node.kind? ≠ some .comma)
      (lowers : node.lower = .ok e) (rest : LowersArguments later arguments) :
      LowersArguments (node :: later) (.positional e :: arguments)
  | named {name sign value : Node} {later : List Node} {e : Expr} {arguments : List Argument}
      (lowers : value.lower = .ok e) (rest : LowersArguments later arguments) :
      LowersArguments (branch .binding [name, sign, value] :: later)
        (.named (name.texts.headD "") e :: arguments)

theorem lowerArguments_eq_ok {nodes : List Node} {arguments : List Argument} :
    lowerArguments nodes = .ok arguments ↔ LowersArguments nodes arguments := by
  constructor
  · intro h
    induction nodes generalizing arguments with
    | nil =>
      rw [lowerArguments] at h
      cases h
      exact .none
    | cons node later ih =>
      by_cases positional : node.IsPositional
      · rw [lowerArguments_positional positional] at h
        split at h
        · exact .comma positional ‹_› (ih h)
        · obtain ⟨e, lowers, h⟩ := except_bind_ok.1 h
          obtain ⟨others, lowersLater, h⟩ := except_bind_ok.1 h
          cases h
          exact .positional positional ‹_› lowers (ih lowersLater)
      · obtain ⟨name, sign, value, rfl⟩ : ∃ name sign value,
            node = .branch .binding [name, sign, value] := by
          simpa [IsPositional] using positional
        rw [lowerArguments] at h
        obtain ⟨e, lowers, h⟩ := except_bind_ok.1 h
        obtain ⟨others, lowersLater, h⟩ := except_bind_ok.1 h
        cases h
        exact .named lowers (ih lowersLater)
  · intro h
    induction h with
    | none => rw [lowerArguments]
    | comma positional comma _ ih => rw [lowerArguments_positional positional, if_pos comma, ih]
    | positional positional noComma lowers _ ih =>
      rw [lowerArguments_positional positional, if_neg noComma, lowers, ih]
      rfl
    | named lowers _ ih =>
      rw [lowerArguments, lowers, ih]
      rfl

inductive LowersTrailer : Node → Trailer → Prop where
  | attr {rule : Rule} {dot name : Token} (opens : dot.kind = .dot) :
      LowersTrailer (branch rule [leaf dot, leaf name]) (.attr name.text)
  | index {rule : Rule} {opening : Token} {index closing : Node} {key : Expr}
      (opens : opening.kind = .openBracket) (lowers : index.lower = .ok key) :
      LowersTrailer (branch rule [leaf opening, index, closing]) (.index key)
  | empty {rule : Rule} {opening : Token} {closing : Node} (opens : opening.kind = .openParen) :
      LowersTrailer (branch rule [leaf opening, closing]) (.call [] [])
  | call {rule inside : Rule} {opening : Token} {content : List Node} {closing : Node}
      {arguments : List Argument} (opens : opening.kind = .openParen)
      (lowers : LowersArguments content arguments) :
      LowersTrailer (branch rule [leaf opening, branch inside content, closing])
        (.call (Argument.split arguments).1 (Argument.split arguments).2)

theorem lowerTrailer_eq_ok {trailer : Node} {t : Trailer} :
    lowerTrailer trailer = .ok t ↔ LowersTrailer trailer t := by
  constructor
  · intro h
    rw [lowerTrailer.eq_def] at h
    split at h
    · rw [lowerOpened.eq_def] at h
      split at h
      · obtain ⟨⟨args, named⟩, lowers, rfl⟩ := except_map_ok.1 h
        rw [lowerCall.eq_def] at lowers
        split at lowers
        · cases lowers
          exact .empty ‹_›
        · obtain ⟨arguments, lowersContent, same⟩ := except_map_ok.1 lowers
          cases same
          exact .call ‹_› (lowerArguments_eq_ok.1 lowersContent)
        · cases lowers
      · obtain ⟨key, lowers, rfl⟩ := except_map_ok.1 h
        exact .index ‹_› lowers
      · cases h
        exact .attr ‹_›
      · cases h
    · cases h
  · intro h
    cases h with
    | attr opens | empty opens =>
      rw [lowerTrailer, opens]
      rfl
    | index opens lowers =>
      rw [lowerTrailer, opens]
      exact except_map_ok.2 ⟨_, lowers, rfl⟩
    | call opens lowers =>
      rw [lowerTrailer, opens]
      exact except_map_ok.2 ⟨_, except_map_ok.2 ⟨_, lowerArguments_eq_ok.2 lowers, rfl⟩, rfl⟩

inductive LowersTrailers : Expr → List Node → Expr → Prop where
  | none {object : Expr} : LowersTrailers object [] object
  | more {object e : Expr} {trailer : Node} {t : Trailer} {later : List Node}
      (lowers : LowersTrailer trailer t) (rest : LowersTrailers (t.onto object) later e) :
      LowersTrailers object (trailer :: later) e

theorem lowerTrailers_eq_ok {object e : Expr} {trailers : List Node} :
    lowerTrailers object trailers = .ok e ↔ LowersTrailers object trailers e := by
  constructor
  · intro h
    induction trailers generalizing object with
    | nil =>
      rw [lowerTrailers] at h
      cases h
      exact .none
    | cons trailer later ih =>
      rw [lowerTrailers_onto] at h
      obtain ⟨t, lowers, h⟩ := except_bind_ok.1 h
      exact .more (lowerTrailer_eq_ok.1 lowers) (ih h)
  · intro h
    induction h with
    | none => rw [lowerTrailers]
    | more lowers _ ih =>
      rw [lowerTrailers_onto, lowerTrailer_eq_ok.2 lowers]
      exact ih

inductive Lowers : Node → Expr → Prop where
  | literal {t : Token} {e : Expr} (reads : literal t = .ok e) : Lowers (leaf t) e
  | sequence {nodes : List Node} {items : List Expr} (lowers : LowersItems nodes items) :
      Lowers (branch .sequence nodes) (.tuple items)
  | chain {rule : Rule} {first : Node} {more : List Node} {left e : Expr}
      (joins : rule ∈ [Rule.disjunction, .conjunction, .sum, .product])
      (lowers : first.lower = .ok left) (rest : LowersChain left more e) :
      Lowers (branch rule (first :: more)) e
  | comparison {first : Node} {more : List Node} {left comparison : Expr} {later : List Expr}
      (lowers : first.lower = .ok left) (rest : LowersComparisons left more (comparison :: later)) :
      Lowers (branch .comparison (first :: more)) (later.foldl (.binary .and) comparison)
  | negation {symbol operand : Node} {e : Expr} (lowers : operand.lower = .ok e) :
      Lowers (branch .negation [symbol, operand]) (.not e)
  | signed {sign operand : Node} {e : Expr} (lowers : operand.lower = .ok e) :
      Lowers (branch .signed [sign, operand]) (if sign.kind? = some .minus then .negate e else e)
  | access {first : Node} {trailers : List Node} {object e : Expr}
      (lowers : first.lower = .ok object) (rest : LowersTrailers object trailers e) :
      Lowers (branch .access (first :: trailers)) e
  | noItems {opening closing : Node} : Lowers (branch .parens [opening, closing]) (.tuple [])
  | parens {opening inner closing : Node} {e : Expr} (lowers : inner.lower = .ok e) :
      Lowers (branch .parens [opening, inner, closing]) e
  | noElements {opening closing : Node} : Lowers (branch .list [opening, closing]) (.array [])
  | elements {opening closing : Node} {nodes : List Node} {items : List Expr}
      (lowers : LowersItems nodes items) :
      Lowers (branch .list [opening, branch .sequence nodes, closing]) (.array items)
  | element {opening inner closing : Node} {e : Expr}
      (single : ∀ nodes, inner ≠ branch .sequence nodes) (lowers : inner.lower = .ok e) :
      Lowers (branch .list [opening, inner, closing]) (.array [e])
  | noFields {opening closing : Node} : Lowers (branch .braces [opening, closing]) (.object [])
  | fields {opening closing : Node} {parts : List Node} {fields : List (Expr × Expr)}
      (lowers : LowersFields parts fields) :
      Lowers (branch .braces [opening, branch .fields parts, closing]) (.object fields)
  | implicitField {dot : Node} {name : Token} :
      Lowers (branch .implicitField [dot, leaf name]) (.attr .record name.text)

theorem lowers_of_ok {node : Node} {e : Expr} (h : node.lower = .ok e) : Lowers node e := by
  fun_cases lower node with
  | case1 token => exact .literal h
  | case2 nodes =>
    rw [lower] at h
    obtain ⟨items, lowers, h⟩ := except_bind_ok.1 h
    cases h
    exact .sequence (lowerItems_eq_ok.1 lowers)
  | case3 first more | case4 first more | case5 first more | case6 first more =>
    rw [lower] at h
    obtain ⟨left, lowers, h⟩ := except_bind_ok.1 h
    exact .chain (by simp) lowers (lowerChain_eq_ok.1 h)
  | case7 first more =>
    rw [lower] at h
    obtain ⟨left, lowers, h⟩ := except_bind_ok.1 h
    obtain ⟨comparisons, lowersMore, h⟩ := except_bind_ok.1 h
    obtain ⟨comparison, later, rfl, rfl⟩ := conjoin_eq_ok.1 h
    exact .comparison lowers (lowerComparisons_eq_ok.1 lowersMore)
  | case8 symbol operand =>
    rw [lower] at h
    obtain ⟨e, lowers, h⟩ := except_bind_ok.1 h
    cases h
    exact .negation lowers
  | case9 sign operand =>
    rw [lower] at h
    obtain ⟨e, lowers, h⟩ := except_bind_ok.1 h
    cases h
    exact .signed lowers
  | case10 first trailers =>
    rw [lower] at h
    obtain ⟨object, lowers, h⟩ := except_bind_ok.1 h
    exact .access lowers (lowerTrailers_eq_ok.1 h)
  | case11 =>
    cases h
    exact .noItems
  | case12 =>
    rw [lower] at h
    exact .parens h
  | case13 =>
    cases h
    exact .noElements
  | case14 opening closing nodes =>
    rw [lower] at h
    obtain ⟨items, lowers, h⟩ := except_bind_ok.1 h
    cases h
    exact .elements (lowerItems_eq_ok.1 lowers)
  | case15 opening closing inner single =>
    rw [lower] at h
    · obtain ⟨e, lowers, h⟩ := except_bind_ok.1 h
      cases h
      exact .element single lowers
    · exact single
  | case16 =>
    cases h
    exact .noFields
  | case17 opening parts closing =>
    rw [lower] at h
    obtain ⟨fields, lowers, h⟩ := except_bind_ok.1 h
    cases h
    exact .fields (lowerFields_eq_ok.1 lowers)
  | case18 =>
    cases h
    exact .implicitField
  | case19 => simp_all [lower, misplaced]

theorem lower_eq_ok {node : Node} {e : Expr} : node.lower = .ok e ↔ Lowers node e := by
  refine ⟨lowers_of_ok, fun h => ?_⟩
  cases h with
  | literal reads => rwa [lower]
  | sequence lowers | elements lowers =>
    rw [lower]
    exact except_bind_ok.2 ⟨_, lowerItems_eq_ok.2 lowers, rfl⟩
  | chain joins lowers rest =>
    simp only [List.mem_cons, List.not_mem_nil, or_false] at joins
    rcases joins with rfl | rfl | rfl | rfl
    all_goals
      rw [lower]
      exact except_bind_ok.2 ⟨_, lowers, lowerChain_eq_ok.2 rest⟩
  | comparison lowers rest =>
    rw [lower]
    exact except_bind_ok.2 ⟨_, lowers, except_bind_ok.2 ⟨_, lowerComparisons_eq_ok.2 rest, rfl⟩⟩
  | negation lowers | signed lowers =>
    rw [lower]
    exact except_bind_ok.2 ⟨_, lowers, rfl⟩
  | access lowers rest =>
    rw [lower]
    exact except_bind_ok.2 ⟨_, lowers, lowerTrailers_eq_ok.2 rest⟩
  | noItems | noElements | noFields | implicitField => rw [lower]
  | parens lowers => rwa [lower]
  | element single lowers =>
    rw [lower]
    · exact except_bind_ok.2 ⟨_, lowers, rfl⟩
    · exact single
  | fields lowers =>
    rw [lower]
    exact except_bind_ok.2 ⟨_, lowerFields_eq_ok.2 lowers, rfl⟩

end Node

end RecordPipeline
