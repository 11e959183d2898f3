import RecordPipeline.Expr.Lowering
import RecordPipeline.Proofs.Grammar
import RecordPipeline.Proofs.Lexing.Spelling

/-!
Where a token stands matters to nothing but the place of a fault. Trees without places derive from
the same forms, tokens that are alike but for their places are read as trees that are, and lowering
such trees gives the same expressions.
-/

namespace RecordPipeline

@[simp] theorem Token.plain_kind (t : Token) : t.plain.kind = t.kind := rfl

@[simp] theorem Token.plain_text (t : Token) : t.plain.text = t.text := rfl

def Fault.plain (fault : Fault) : Fault :=
  { fault with offset := 0 }

namespace Node

mutual

def plain : Node → Node
  | leaf token => leaf token.plain
  | branch rule children => branch rule (plainAll children)

def plainAll : List Node → List Node
  | [] => []
  | child :: later => child.plain :: plainAll later

end

@[simp] theorem plain_leaf (t : Token) : (leaf t).plain = leaf t.plain := by
  simp [plain]

@[simp] theorem plain_branch (rule : Rule) (children : List Node) :
    (branch rule children).plain = branch rule (plainAll children) := by
  simp [plain]

@[simp] theorem plainAll_nil : plainAll [] = [] := by
  simp [plainAll]

@[simp] theorem plainAll_cons (child : Node) (later : List Node) :
    plainAll (child :: later) = child.plain :: plainAll later := by
  simp [plainAll]

@[simp] theorem plainAll_append (front back : List Node) :
    plainAll (front ++ back) = plainAll front ++ plainAll back := by
  induction front with
  | nil => simp
  | cons child later ih => simp [ih]

@[simp] theorem plain_collapse (rule : Rule) (children : List Node) :
    (collapse rule children).plain = collapse rule (plainAll children) := by
  match children with
  | [] => simp [collapse]
  | [only] => simp [collapse]
  | _ :: _ :: _ => simp [collapse]

@[simp] theorem kind?_plain (node : Node) : node.plain.kind? = node.kind? := by
  cases node <;> simp [kind?]

mutual

theorem tokens_plain : ∀ node : Node, node.plain.tokens = node.tokens.map Token.plain
  | leaf t => by simp
  | branch rule children => by simpa using tokensOf_plain children

theorem tokensOf_plain :
    ∀ nodes : List Node, tokensOf (plainAll nodes) = (tokensOf nodes).map Token.plain
  | [] => by simp
  | child :: later => by simp [tokens_plain child, tokensOf_plain later]

end

@[simp] theorem texts_plain (node : Node) : node.plain.texts = node.texts := by
  simp [texts, tokens_plain]

@[simp] theorem bareName?_plain (node : Node) : node.plain.bareName? = node.bareName? := by
  fun_induction bareName? node with
  | case1 token name => simp [bareName?, name]
  | case2 token other => simp [bareName?, other]
  | case3 rule only ih => simpa [bareName?] using ih
  | case4 rule children many =>
    rcases children with _ | ⟨first, _ | ⟨second, more⟩⟩
    · simp [bareName?]
    · exact absurd rfl (many first)
    · simp [bareName?]

end Node

namespace Node

variable {α β : Type}

theorem mapError_bind {g : Fault → Fault} (x : Except Fault α) (f : α → Except Fault β) :
    (x >>= f).mapError g = x.mapError g >>= fun a => (f a).mapError g := by
  cases x <;> rfl

@[simp] theorem mapError_ok {g : Fault → Fault} (a : α) :
    (.ok a : Except Fault α).mapError g = .ok a := rfl

@[simp] theorem mapError_pure {g : Fault → Fault} (a : α) :
    (pure a : Except Fault α).mapError g = pure a := rfl

@[simp] theorem mapError_misplaced : (misplaced : Except Fault α).mapError Fault.plain = misplaced :=
  rfl

/-- What the functions of trees below a size give does not depend on places. -/
def PlainBelow (size : Nat) : Prop :=
  ∀ node : Node, sizeOf node < size → lower node.plain = (lower node).mapError Fault.plain

theorem PlainBelow.mono {size less : Nat} (h : PlainBelow size) (le : less ≤ size) :
    PlainBelow less :=
  fun node small => h node (by omega)

theorem literal_plain (t : Token) : literal t.plain = (literal t).mapError Fault.plain := by
  have integer : integerLiteral t.plain = (integerLiteral t).mapError Fault.plain := by
    simp only [integerLiteral, Token.plain_text]
    split
    · rfl
    · split <;> rfl
  have float : floatLiteral t.plain = (floatLiteral t).mapError Fault.plain := by
    simp only [floatLiteral, Token.plain_text]
    split <;> rfl
  simp only [literal, Token.plain_kind, Token.plain_text]
  split
  · exact integer
  · exact float
  all_goals rfl

theorem lowerItems_plain {items : List Node} (below : PlainBelow (sizeOf items)) :
    lowerItems (plainAll items) = (lowerItems items).mapError Fault.plain := by
  induction items with
  | nil => simp [lowerItems]
  | cons item later ih =>
    have first := below item (by simp; omega)
    have rest := ih (below.mono (by simp))
    rw [plainAll_cons, lowerItems, lowerItems, kind?_plain, first, rest]
    split
    · rfl
    · simp only [mapError_bind, mapError_pure]

theorem compared_plain (symbol : Node) (left right : Expr) :
    compared symbol.plain left right = (compared symbol left right).mapError Fault.plain := by
  cases symbol with
  | leaf t =>
    simp only [plain_leaf, compared, Token.plain_kind]
    split <;> rfl
  | branch rule children =>
    rw [plain_branch]
    cases rule <;> rfl

theorem lowerChain_plain {more : List Node} (below : PlainBelow (sizeOf more)) (left : Expr) :
    lowerChain left (plainAll more) = (lowerChain left more).mapError Fault.plain := by
  match more with
  | [] => simp [lowerChain]
  | [.leaf _] | [.branch _ _] | .branch _ _ :: _ :: _ => simp [lowerChain]
  | .leaf symbol :: right :: later =>
    have operand := below right (by simp; omega)
    have rest := fun e => lowerChain_plain (below.mono (by simp; omega) : PlainBelow (sizeOf later)) e
    simp only [plainAll_cons, plain_leaf, lowerChain, Token.plain_kind, operand, rest]
    split
    · rw [mapError_bind]
    · rfl

theorem lowerComparisons_plain {more : List Node} (below : PlainBelow (sizeOf more))
    (left : Expr) :
    lowerComparisons left (plainAll more) = (lowerComparisons left more).mapError Fault.plain := by
  match more with
  | [] => simp [lowerComparisons]
  | [_] => simp [lowerComparisons]
  | symbol :: right :: later =>
    have operand := below right (by simp; omega)
    have rest := fun e =>
      lowerComparisons_plain (below.mono (by simp; omega) : PlainBelow (sizeOf later)) e
    simp only [plainAll_cons, lowerComparisons, operand, rest, compared_plain, mapError_bind,
      mapError_pure]

theorem conjoin_plain (parts : List Expr) :
    (conjoin parts).mapError Fault.plain = conjoin parts := by
  cases parts <;> rfl

def IsPositional (item : Node) : Prop :=
  ∀ name sign value, item ≠ branch .binding [name, sign, value]

theorem isPositional_plain {item : Node} (h : item.IsPositional) : item.plain.IsPositional := by
  intro name sign value same
  cases item with
  | leaf t => simp at same
  | branch rule children =>
    rw [plain_branch] at same
    rcases children with _ | ⟨first, _ | ⟨second, _ | ⟨third, _ | ⟨fourth, more⟩⟩⟩⟩
    · simp at same
    · simp at same
    · simp at same
    · simp only [plainAll_cons, plainAll_nil, branch.injEq] at same
      exact h first second third (by rw [same.1])
    · simp at same

theorem lowerArguments_positional {item : Node} (h : item.IsPositional) (later : List Node) :
    lowerArguments (item :: later) =
      if item.kind? = some .comma then lowerArguments later
      else do
        let e ← lower item
        return .positional e :: (← lowerArguments later) := by
  rw [lowerArguments]
  exact h

theorem lowerArguments_plain {content : List Node} (below : PlainBelow (sizeOf content)) :
    lowerArguments (plainAll content) = (lowerArguments content).mapError Fault.plain := by
  induction content with
  | nil => simp [lowerArguments]
  | cons item later ih =>
    have rest := ih (below.mono (by simp))
    by_cases positional : item.IsPositional
    · have first := below item (by simp; omega)
      rw [plainAll_cons, lowerArguments_positional positional,
        lowerArguments_positional (isPositional_plain positional), kind?_plain, first, rest]
      split
      · rfl
      · simp only [mapError_bind, mapError_pure]
    · obtain ⟨name, sign, value, rfl⟩ : ∃ name sign value,
          item = branch .binding [name, sign, value] := by
        simpa [IsPositional] using positional
      have bound := below value (by simp; omega)
      simp only [plainAll_cons, plain_branch, plainAll_nil, lowerArguments, bound, rest,
        texts_plain, mapError_bind, mapError_pure]

theorem lowerTrailers_cons (object : Expr) (rule : Rule) (opening : Token)
    (parts later : List Node) :
    lowerTrailers object (branch rule (leaf opening :: parts) :: later) =
      match opening.kind, parts with
      | .openParen, [_] => lowerTrailers (.call object [] []) later
      | .openParen, [branch _ content, _] => do
        let (args, named) := Argument.split (← lowerArguments content)
        lowerTrailers (.call object args named) later
      | .openBracket, [index, _] => do lowerTrailers (.index object (← lower index)) later
      | .dot, [leaf name] => lowerTrailers (.attr object name.text) later
      | _, _ => misplaced :=
  lowerTrailers.eq_def object (branch rule (leaf opening :: parts) :: later)

theorem lowerTrailers_plain {trailers : List Node} (below : PlainBelow (sizeOf trailers))
    (object : Expr) :
    lowerTrailers object (plainAll trailers) =
      (lowerTrailers object trailers).mapError Fault.plain := by
  induction trailers generalizing object with
  | nil => simp [lowerTrailers]
  | cons trailer later ih =>
    have rest := fun e => ih (below.mono (by simp)) e
    rcases trailer with t | ⟨rule, _ | ⟨t | ⟨rule', inside⟩, parts⟩⟩
    · simp [lowerTrailers]
    · simp [lowerTrailers]
    · rw [plainAll_cons, plain_branch, plainAll_cons, plain_leaf, lowerTrailers_cons,
        lowerTrailers_cons, Token.plain_kind]
      rcases parts with _ | ⟨first, _ | ⟨second, _ | ⟨third, more⟩⟩⟩
      · rw [plainAll_nil]
        cases t.kind <;> rfl
      · rw [plainAll_cons, plainAll_nil]
        cases first <;> cases t.kind <;>
          simp only [plain_leaf, plain_branch, rest, Token.plain_text, mapError_misplaced]
      · have index := below first (by simp; omega)
        rw [plainAll_cons, plainAll_cons, plainAll_nil]
        cases first with
        | leaf name =>
          rw [plain_leaf] at index ⊢
          cases t.kind <;> simp only [rest, index, mapError_bind, mapError_misplaced]
        | branch rule' content =>
          have arguments := lowerArguments_plain (below.mono (by simp; omega) :
            PlainBelow (sizeOf content))
          rw [plain_branch] at index ⊢
          cases t.kind <;> simp only [rest, index, arguments, mapError_bind, mapError_misplaced]
      · rw [plainAll_cons, plainAll_cons, plainAll_cons]
        cases first <;> cases t.kind <;>
          simp only [plain_leaf, plain_branch, mapError_misplaced]
    · simp [lowerTrailers]

theorem lowerFields_plain {parts : List Node} (below : PlainBelow (sizeOf parts)) :
    lowerFields (plainAll parts) = (lowerFields parts).mapError Fault.plain := by
  match parts with
  | [] | [_] | [_, _] => simp [lowerFields]
  | key :: colon :: value :: later =>
    have lowerKey := below key (by simp; omega)
    have lowerValue := below value (by simp; omega)
    simp only [plainAll_cons]
    rw [lowerFields, lowerFields, bareName?_plain, lowerKey, lowerValue]
    cases key.bareName? with
    | some name =>
      rcases later with _ | ⟨comma, later⟩
      · simp only [plainAll_nil, mapError_bind, mapError_pure]
      · have rest := lowerFields_plain (below.mono (by simp; omega) : PlainBelow (sizeOf later))
        simp only [plainAll_cons, rest, mapError_bind, mapError_pure]
    | none =>
      rcases later with _ | ⟨comma, later⟩
      · simp only [plainAll_nil, mapError_bind, mapError_pure]
      · have rest := lowerFields_plain (below.mono (by simp; omega) : PlainBelow (sizeOf later))
        simp only [plainAll_cons, rest, mapError_bind, mapError_pure]

theorem lower_plain (node : Node) : lower node.plain = (lower node).mapError Fault.plain := by
  have all (size : Nat) : PlainBelow size := by
    induction size with
    | zero => exact fun _ impossible => absurd impossible (Nat.not_lt_zero _)
    | succ size below =>
      intro node small
      rcases node with t | ⟨rule, children⟩
      · simpa [lower] using literal_plain t
      · have inside : PlainBelow (sizeOf children) := below.mono (by simp at small; omega)
        have child {node : Node} (member : node ∈ children) :
            lower node.plain = (lower node).mapError Fault.plain :=
          inside node (List.sizeOf_lt_of_mem member)
        rw [plain_branch]
        cases rule with
        | query | binding | notIn | trailer | arguments | fields => simp [lower]
        | sequence => simp only [lower, lowerItems_plain inside, mapError_bind, mapError_pure]
        | disjunction | conjunction | sum | product | comparison | access =>
          rcases children with _ | ⟨first, more⟩
          · simp [lower]
          · have later : PlainBelow (sizeOf more) := inside.mono (by simp)
            simp only [plainAll_cons, lower, child (List.mem_cons_self ..), lowerChain_plain later,
              lowerComparisons_plain later, lowerTrailers_plain later, mapError_bind, conjoin_plain]
        | negation | signed =>
          rcases children with _ | ⟨first, _ | ⟨second, _ | ⟨third, more⟩⟩⟩
          · simp [lower]
          · simp [lower]
          · simp only [plainAll_cons, plainAll_nil, lower, child (by simp : second ∈ _), kind?_plain,
              mapError_bind, mapError_pure]
          · simp [lower]
        | parens =>
          rcases children with _ | ⟨first, _ | ⟨second, _ | ⟨third, _ | ⟨fourth, more⟩⟩⟩⟩
          · simp [lower]
          · simp [lower]
          · simp only [plainAll_cons, plainAll_nil, lower, mapError_ok]
          · simp only [plainAll_cons, plainAll_nil, lower, child (by simp : second ∈ _)]
          · simp [lower]
        | list =>
          rcases children with _ | ⟨first, _ | ⟨second, _ | ⟨third, _ | ⟨fourth, more⟩⟩⟩⟩
          · simp [lower]
          · simp [lower]
          · simp only [plainAll_cons, plainAll_nil, lower, mapError_ok]
          · have single := child (by simp : second ∈ _)
            rcases second with t | ⟨rule, items⟩
            · rw [plain_leaf] at single
              simp only [plainAll_cons, plainAll_nil, plain_leaf, lower] at single ⊢
              simp only [single, mapError_bind, mapError_pure]
            · have listed := lowerItems_plain (inside.mono (by simp; omega) :
                PlainBelow (sizeOf items))
              rw [plain_branch] at single
              simp only [plainAll_cons, plainAll_nil, plain_branch]
              cases rule <;>
                simp only [lower, listed, single, mapError_bind, mapError_pure, mapError_misplaced]
          · simp [lower]
        | braces =>
          rcases children with _ | ⟨first, _ | ⟨second, _ | ⟨third, _ | ⟨fourth, more⟩⟩⟩⟩
          · simp [lower]
          · simp [lower]
          · simp only [plainAll_cons, plainAll_nil, lower, mapError_ok]
          · rcases second with t | ⟨rule, parts⟩
            · simp [lower]
            · have fields := lowerFields_plain (inside.mono (by simp; omega) :
                PlainBelow (sizeOf parts))
              simp only [plainAll_cons, plainAll_nil, plain_branch]
              cases rule <;>
                simp only [lower, fields, mapError_bind, mapError_pure, mapError_misplaced]
          · simp [lower]
        | implicitField =>
          rcases children with _ | ⟨first, _ | ⟨second, _ | ⟨third, more⟩⟩⟩
          · simp [lower]
          · simp [lower]
          · rcases second with t | ⟨rule, parts⟩ <;> simp [lower]
          · simp [lower]
  exact all (sizeOf node + 1) node (by omega)

theorem lowerArguments_plainAll (content : List Node) :
    lowerArguments (plainAll content) = (lowerArguments content).mapError Fault.plain :=
  lowerArguments_plain fun node _ => lower_plain node

theorem toOption_mapError {g : Fault → Fault} (x : Except Fault α) :
    (x.mapError g).toOption = x.toOption := by
  cases x <;> rfl

/-- Trees that differ in places only are lowered to the same expression or both not at all. -/
theorem lower_toOption_of_plain {node other : Node} (same : node.plain = other.plain) :
    (lower node).toOption = (lower other).toOption := by
  have := congrArg Except.toOption (congrArg lower same)
  rwa [lower_plain, lower_plain, toOption_mapError, toOption_mapError] at this

theorem lowerArguments_toOption_of_plain {content other : List Node}
    (same : plainAll content = plainAll other) :
    (lowerArguments content).toOption = (lowerArguments other).toOption := by
  have := congrArg Except.toOption (congrArg lowerArguments same)
  rwa [lowerArguments_plainAll, lowerArguments_plainAll, toOption_mapError,
    toOption_mapError] at this

end Node

namespace Grammar

theorem map_plain_append {ts : List Token} {front back : List Token}
    (same : ts.map Token.plain = (front ++ back).map Token.plain) :
    ∃ us vs, ts = us ++ vs ∧ us.map Token.plain = front.map Token.plain ∧
      vs.map Token.plain = back.map Token.plain := by
  rw [List.map_append] at same
  obtain ⟨us, vs, rfl, first, second⟩ := List.map_eq_append_iff.1 same
  exact ⟨us, vs, rfl, first, second⟩

theorem Parses.retoken {n : Nat} {f : Form} {nodes : List Node} (h : Parses n f nodes)
    {ts : List Token} (same : ts.map Token.plain = (Node.tokensOf nodes).map Token.plain) :
    ∃ others, Parses n f others ∧ Node.tokensOf others = ts ∧
      Node.plainAll others = Node.plainAll nodes := by
  induction h generalizing ts with
  | @one n kinds t member =>
    simp only [Node.tokensOf_cons, Node.tokens_leaf, Node.tokensOf_nil, List.append_nil,
      List.map_cons, List.map_nil] at same
    obtain ⟨u, us, rfl, alike, none⟩ := List.map_eq_cons_iff.1 same
    obtain rfl := List.map_eq_nil_iff.1 none
    have kind : u.plain.kind = t.plain.kind := by rw [alike]
    rw [Token.plain_kind, Token.plain_kind] at kind
    exact ⟨[.leaf u], .one (kind ▸ member), by simp, by simp [alike]⟩
  | symbol _ ih =>
    obtain ⟨others, parses, spelled, alike⟩ := ih same
    exact ⟨others, .symbol parses, spelled, alike⟩
  | both _ _ ihFirst ihSecond =>
    rw [Node.tokensOf_append] at same
    obtain ⟨us, vs, rfl, front, back⟩ := map_plain_append same
    obtain ⟨others, parses, rfl, alike⟩ := ihFirst front
    obtain ⟨others', parses', rfl, alike'⟩ := ihSecond back
    exact ⟨others ++ others', .both parses parses', by simp, by simp [alike, alike']⟩
  | first _ ih =>
    obtain ⟨others, parses, spelled, alike⟩ := ih same
    exact ⟨others, .first parses, spelled, alike⟩
  | second _ ih =>
    obtain ⟨others, parses, spelled, alike⟩ := ih same
    exact ⟨others, .second parses, spelled, alike⟩
  | absent =>
    rw [Node.tokensOf_nil] at same
    obtain rfl := List.map_eq_nil_iff.1 same
    exact ⟨[], .absent, by simp, rfl⟩
  | present _ ih =>
    obtain ⟨others, parses, spelled, alike⟩ := ih same
    exact ⟨others, .present parses, spelled, alike⟩
  | done =>
    rw [Node.tokensOf_nil] at same
    obtain rfl := List.map_eq_nil_iff.1 same
    exact ⟨[], .done, by simp, rfl⟩
  | again _ _ ihHead ihTail =>
    rw [Node.tokensOf_append] at same
    obtain ⟨us, vs, rfl, front, back⟩ := map_plain_append same
    obtain ⟨others, parses, rfl, alike⟩ := ihHead front
    obtain ⟨others', parses', rfl, alike'⟩ := ihTail back
    exact ⟨others ++ others', .again parses parses', by simp, by simp [alike, alike']⟩
  | deeper _ ih =>
    obtain ⟨others, parses, spelled, alike⟩ := ih same
    exact ⟨others, .deeper parses, spelled, alike⟩
  | branch _ ih =>
    obtain ⟨others, parses, spelled, alike⟩ := ih (by simpa using same)
    exact ⟨_, .branch parses, by simpa using spelled, by simp [alike]⟩
  | collapse _ ih =>
    obtain ⟨others, parses, spelled, alike⟩ := ih (by simpa using same)
    exact ⟨_, .collapse parses, by simpa using spelled, by simp [alike]⟩

end Grammar

end RecordPipeline
